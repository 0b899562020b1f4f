import Mathlib.Algebra.Ring.Nat
import Mathlib.Data.List.Sort

namespace DbosScheduler.Chunks

variable {α : Type}

-- A list cut into pieces of given lengths; what is left over belongs to no piece.
def chunks : List Nat → List α → List (List α)
  | [],_ => []
  | n :: rest,xs => xs.take n :: chunks rest (xs.drop n)

theorem chunks_flatten (sizes : List Nat) (xs : List α) : (chunks sizes xs).flatten = xs.take sizes.sum := by
  induction sizes generalizing xs with
  | nil => rfl
  | cons n rest ih => rw [chunks,List.flatten_cons,ih,List.sum_cons,List.take_add]

theorem chunks_lengths {sizes : List Nat} {xs : List α} (enough : sizes.sum ≤ xs.length) :
    (chunks sizes xs).map List.length = sizes := by
  induction sizes generalizing xs with
  | nil => rfl
  | cons n rest ih =>
    rw [List.sum_cons] at enough
    rw [chunks,List.map_cons,List.length_take,ih (by rw [List.length_drop]; omega),Nat.min_eq_left (by omega)]

theorem chunks_take (sizes : List Nat) (xs : List α) : chunks sizes (xs.take sizes.sum) = chunks sizes xs := by
  induction sizes generalizing xs with
  | nil => rfl
  | cons n rest ih =>
    rw [chunks,chunks,List.sum_cons,List.take_take,Nat.min_eq_left (Nat.le_add_right _ _),List.drop_take,
      Nat.add_sub_cancel_left,ih]

theorem chunks_get {sizes : List Nat} {xs : List α} (inside : i < sizes.length) :
    (chunks sizes xs)[i]? = some ((xs.drop (sizes.take i).sum).take sizes[i]) := by
  induction sizes generalizing i xs with
  | nil => cases inside
  | cons n rest ih =>
    cases i with
    | zero => rfl
    | succ i =>
      rw [chunks,List.getElem?_cons_succ,ih (Nat.lt_of_succ_lt_succ inside),List.drop_drop,List.take_succ_cons,List.sum_cons]
      rfl

theorem chunks_rejoin (pieces : List (List α)) (rest : List α) :
    chunks (pieces.map List.length) (pieces.flatten ++ rest) = pieces := by
  induction pieces with
  | nil => rfl
  | cons piece pieces ih =>
    rw [List.map_cons,List.flatten_cons,List.append_assoc,chunks,List.take_left,List.drop_left,ih]

-- Rearranging every piece on its own rearranges the list.
theorem flatten_perm {rearrange : List α → List α} (same : ∀ xs, (rearrange xs).Perm xs) (pieces : List (List α)) :
    (pieces.map rearrange).flatten.Perm pieces.flatten := by
  induction pieces with
  | nil => exact .nil
  | cons piece rest ih =>
    rw [List.map_cons,List.flatten_cons,List.flatten_cons]
    exact (same piece).append ih

section Rank
variable [LinearOrder α]

-- What stands at position i of the sorted list has more than i entries at or below it.
theorem rank_covers {xs : List α} (found : (xs.insertionSort (· ≤ ·))[i]? = some value) :
    i < xs.countP fun x => decide (x ≤ value) := by
  obtain ⟨inside,rfl⟩ := List.getElem?_eq_some_iff.mp found
  have sorted := List.pairwise_iff_getElem.mp (List.pairwise_insertionSort (· ≤ ·) xs)
  have front : ((xs.insertionSort (· ≤ ·)).take (i + 1)).countP (fun x => decide (x ≤ (xs.insertionSort (· ≤ ·))[i])) =
      ((xs.insertionSort (· ≤ ·)).take (i + 1)).length := by
    rw [List.countP_eq_length]
    intro x member
    obtain ⟨j,below,rfl⟩ := List.mem_take_iff_getElem.mp member
    rcases Nat.lt_or_eq_of_le (Nat.le_of_lt_succ (Nat.lt_of_lt_of_le below (Nat.min_le_left _ _))) with earlier | here
    · exact decide_eq_true (sorted j i _ inside earlier)
    · simp [here]
  have part : ((xs.insertionSort (· ≤ ·)).take (i + 1)).countP (fun x => decide (x ≤ (xs.insertionSort (· ≤ ·))[i])) ≤
      (xs.insertionSort (· ≤ ·)).countP fun x => decide (x ≤ (xs.insertionSort (· ≤ ·))[i]) :=
    (List.take_sublist (i + 1) (xs.insertionSort (· ≤ ·))).countP_le
  rw [(List.perm_insertionSort (· ≤ ·) xs).countP_eq,front,List.length_take] at part
  omega

theorem rank_mono {xs : List α} {i j : Nat} (low : (xs.insertionSort (· ≤ ·))[i]? = some first)
    (high : (xs.insertionSort (· ≤ ·))[j]? = some second) (below : i ≤ j) : first ≤ second := by
  obtain ⟨_,rfl⟩ := List.getElem?_eq_some_iff.mp low
  obtain ⟨_,rfl⟩ := List.getElem?_eq_some_iff.mp high
  rcases Nat.lt_or_eq_of_le below with earlier | rfl
  · exact List.pairwise_iff_getElem.mp (List.pairwise_insertionSort (· ≤ ·) xs) i j _ _ earlier
  · exact le_refl _

theorem rank_some (xs : List α) {i : Nat} (inside : i < xs.length) : ∃ value, (xs.insertionSort (· ≤ ·))[i]? = some value := by
  refine ⟨_,List.getElem?_eq_getElem ?_⟩
  rwa [List.length_insertionSort]

end Rank

-- The differences between consecutive boundaries.
def steps : Nat → List Nat → List Nat
  | _,[] => []
  | from_,next :: rest => (next - from_) :: steps next rest

theorem steps_length (first : Nat) (rest : List Nat) : (steps first rest).length = rest.length := by
  induction rest generalizing first with
  | nil => rfl
  | cons next rest ih => rw [steps,List.length_cons,ih,List.length_cons]

theorem steps_take {first : Nat} {rest : List Nat} (ascending : (first :: rest).Pairwise (· ≤ ·))
    (found : (first :: rest)[i]? = some boundary) : first + ((steps first rest).take i).sum = boundary := by
  induction rest generalizing first i with
  | nil =>
    cases i with
    | zero =>
      cases found
      rfl
    | succ i => cases found
  | cons next rest ih =>
    cases i with
    | zero =>
      cases found
      rfl
    | succ i =>
      have later := ih (List.pairwise_cons.mp ascending).2 found
      have below := (List.pairwise_cons.mp ascending).1 next List.mem_cons_self
      rw [steps,List.take_succ_cons,List.sum_cons]
      omega

theorem steps_get {first : Nat} {rest : List Nat} (here : (first :: rest)[i]? = some low)
    (there : (first :: rest)[i + 1]? = some high) : (steps first rest)[i]? = some (high - low) := by
  induction rest generalizing first i with
  | nil => cases there
  | cons next rest ih =>
    cases i with
    | zero =>
      cases here
      cases there
      rfl
    | succ i => exact ih here there

-- Ascending boundaries put every place below the last one between exactly two of them.
theorem between_exists {bounds : List Nat} (starts : bounds.head? = some first) (ends : bounds.getLast? = some last)
    (begins : first ≤ j) (below : j < last) :
    ∃ i low high, bounds[i]? = some low ∧ bounds[i + 1]? = some high ∧ low ≤ j ∧ j < high := by
  induction bounds generalizing first with
  | nil => cases starts
  | cons head rest ih =>
    cases starts
    cases rest with
    | nil =>
      rw [List.getLast?_singleton,Option.some.injEq] at ends
      omega
    | cons next rest =>
      by_cases here : j < next
      · exact ⟨0,head,next,rfl,rfl,begins,here⟩
      · obtain ⟨i,low,high,left,right,within⟩ := ih rfl (by rwa [List.getLast?_cons_cons] at ends) (Nat.le_of_not_lt here)
        exact ⟨i + 1,low,high,left,right,within⟩

theorem between_unique {bounds : List Nat} (ascending : bounds.Pairwise (· ≤ ·)) (starts : bounds.head? = some first)
    (ends : bounds.getLast? = some last) (begins : first ≤ j) (below : j < last) :
    ∃! i, ∃ low high, bounds[i]? = some low ∧ bounds[i + 1]? = some high ∧ low ≤ j ∧ j < high := by
  obtain ⟨i,here⟩ := between_exists starts ends begins below
  refine ⟨i,here,fun other there => ?_⟩
  have apart : ∀ {k m : Nat}, (∃ low high, bounds[k]? = some low ∧ bounds[k + 1]? = some high ∧ low ≤ j ∧ j < high) →
      (∃ low high, bounds[m]? = some low ∧ bounds[m + 1]? = some high ∧ low ≤ j ∧ j < high) → ¬k < m := by
    intro k m left right earlier
    obtain ⟨_,high,_,upper,_,under⟩ := left
    obtain ⟨low,_,lower,_,above,_⟩ := right
    obtain ⟨present,rfl⟩ := List.getElem?_eq_some_iff.mp upper
    obtain ⟨listed,rfl⟩ := List.getElem?_eq_some_iff.mp lower
    have ordered : bounds[k + 1] ≤ bounds[m] := by
      rcases Nat.lt_or_eq_of_le earlier with before | rfl
      · exact List.pairwise_iff_getElem.mp ascending (k + 1) m present listed before
      · exact Nat.le_refl _
    omega
  have after := apart here there
  have before := apart there here
  omega

end DbosScheduler.Chunks
