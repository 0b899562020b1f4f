import Mathlib.Data.List.Perm.Basic
import Mathlib.Data.List.Perm.Subperm
import Mathlib.Data.List.Nodup

namespace DbosScheduler.Table

variable {α β : Type}

-- UPDATE .. SET .. WHERE: every selected row is rewritten in place.
def update (selects : α → Bool) (change : α → α) (rows : List α) : List α :=
  rows.map fun row => if selects row then change row else row

-- LIMIT k without ORDER BY returns any k of the matching rows, in any order.
-- The freedom of the engine is the list of positions it takes, each read
-- modulo the rows still left, so that every list of positions is admissible.
def limit : Nat → List Nat → List α → List α
  | 0,_,_ => []
  | k+1,choice,rows =>
    match rows[choice.headD 0 % rows.length]? with
    | none => []
    | some row => row :: limit k choice.tail (rows.eraseIdx (choice.headD 0 % rows.length))

def limitOne (choice : Nat) (rows : List α) : Option α := rows[choice % rows.length]?

-- ORDER BY key DESC LIMIT 1 may return any row with the largest key.
def largest (key : α → Int) (rows : List α) : List α :=
  rows.filter fun row => rows.all fun other => key other ≤ key row

theorem mem_update {row : α} : row ∈ update selects change rows ↔
    ∃ old ∈ rows, row = if selects old then change old else old := by
  simp only [update,List.mem_map,eq_comm]

theorem update_nothing (change : α → α) (untouched : ∀ row ∈ rows, selects row = false) :
    update selects change rows = (rows : List α) := by
  have same : ∀ row ∈ rows, (if selects row then change row else row) = row := by
    intro row member
    simp [untouched row member]
  simpa [update] using List.map_congr_left same

-- Two conditions that agree on the rows of a table update the same rows.
theorem update_agrees (change : α → α) (agree : ∀ row ∈ rows, selects row = other row) :
    update selects change rows = update other change (rows : List α) := by
  apply List.map_congr_left
  intro row member
  rw [agree row member]

theorem update_same (same : ∀ row ∈ rows, selects row = true → change row = other row) :
    update selects change rows = update selects other (rows : List α) := by
  apply List.map_congr_left
  intro row member
  by_cases chosen : selects row = true
  · simp [chosen,same row member chosen]
  · simp [chosen]

theorem map_update (read : α → β) (kept : ∀ row, selects row = true → read (change row) = read row)
    (rows : List α) : (update selects change rows).map read = rows.map read := by
  simp only [update,List.map_map]
  apply List.map_congr_left
  intro row _
  by_cases chosen : selects row = true
  · simp [chosen,kept row chosen]
  · simp [chosen]

theorem countP_update {test : α → Bool}
    (kept : ∀ row ∈ rows, selects row = true → test (change row) = test row) :
    (update selects change rows).countP test = (rows : List α).countP test := by
  rw [update,List.countP_map]
  apply List.countP_congr
  intro row member
  by_cases chosen : selects row = true
  · simp [Function.comp,chosen,kept row member chosen]
  · simp [Function.comp,chosen]

-- An update that takes the rows it selects out of a count.
theorem countP_update_out {test : α → Bool} (inside : ∀ row ∈ rows, selects row = true → test row = true)
    (outside : ∀ row ∈ rows, selects row = true → test (change row) = false) :
    (update selects change rows).countP test + rows.countP selects = (rows : List α).countP test := by
  induction rows with
  | nil => rfl
  | cons row rows ih =>
    have others := ih (fun other member => inside other (List.mem_cons_of_mem _ member))
      fun other member => outside other (List.mem_cons_of_mem _ member)
    rw [update,List.map_cons,← update]
    simp only [List.countP_cons]
    cases chosen : selects row with
    | true =>
      have before := inside row List.mem_cons_self chosen
      have after := outside row List.mem_cons_self chosen
      simp only [if_true,before,after,Bool.false_eq_true,if_false]
      omega
    | false =>
      simp only [Bool.false_eq_true,if_false]
      omega

-- The normal form of an update that hits a single row: the table falls into
-- what stands before and after that row, and only the row itself changes.
theorem update_unique {key : α → β} (unique : ((rows : List α).map key).Nodup)
    (member : row ∈ rows) (exact : ∀ other ∈ rows, selects other = true ↔ key other = key row) :
    ∃ left right, rows = left ++ row :: right ∧ (∀ other ∈ left ++ right, key other ≠ key row) ∧
      ∀ change, update selects change rows = left ++ change row :: right := by
  obtain ⟨left,right,rfl⟩ := List.append_of_mem member
  have others : ∀ other ∈ left ++ right, key other ≠ key row := by
    have moved : ((row :: (left ++ right)).map key).Nodup :=
      (List.perm_middle.map key).nodup_iff.mp unique
    intro other found same
    exact (List.nodup_cons.mp moved).1 (same ▸ List.mem_map_of_mem found)
  refine ⟨left,right,rfl,others,fun change => ?_⟩
  have apart : ∀ other ∈ left ++ right, selects other = false := by
    intro other found
    have inside : other ∈ left ++ row :: right := by
      rcases List.mem_append.mp found with l | r
      · exact List.mem_append_left _ l
      · exact List.mem_append_right _ (List.mem_cons_of_mem _ r)
    exact Bool.eq_false_iff.mpr fun chosen => others other found ((exact other inside).mp chosen)
  have before := update_nothing change fun other found => apart other (List.mem_append_left _ found)
  have after := update_nothing change fun other found => apart other (List.mem_append_right _ found)
  have here : selects row = true := (exact row member).mpr rfl
  simp only [update,List.map_append,List.map_cons,here,if_true] at before after ⊢
  rw [before,after]

theorem filter_unique {key : α → β} (unique : ((rows : List α).map key).Nodup)
    (member : row ∈ rows) (exact : ∀ other ∈ rows, selects other = true ↔ key other = key row) :
    rows.filter selects = [row] := by
  obtain ⟨left,right,rfl,others,_⟩ := update_unique unique member exact
  have apart : ∀ other ∈ left ++ right, ¬selects other = true := by
    intro other found chosen
    refine others other found ((exact other ?_).mp chosen)
    rcases List.mem_append.mp found with l | r
    · exact List.mem_append_left _ l
    · exact List.mem_append_right _ (List.mem_cons_of_mem _ r)
  have before : left.filter selects = [] :=
    List.filter_eq_nil_iff.mpr fun other found => apart other (List.mem_append_left _ found)
  have after : right.filter selects = [] :=
    List.filter_eq_nil_iff.mpr fun other found => apart other (List.mem_append_right _ found)
  simp [before,after,(exact row member).mpr rfl]

theorem key_unique {key : α → β} (unique : ((rows : List α).map key).Nodup) (left : a ∈ rows) (right : b ∈ rows)
    (same : key a = key b) : a = b :=
  List.inj_on_of_nodup_map unique left right same

theorem limitOne_mem (found : limitOne choice rows = some row) : row ∈ (rows : List α) :=
  List.mem_of_getElem? found

theorem limitOne_none : limitOne choice rows = none ↔ (rows : List α) = [] := by
  constructor
  · intro nothing
    by_contra filled
    have inside : choice % rows.length < rows.length :=
      Nat.mod_lt _ (List.length_pos_of_ne_nil filled)
    simp [limitOne,inside] at nothing
  · rintro rfl
    rfl

-- Every matching row can be the one that LIMIT 1 returns.
theorem limitOne_complete (member : row ∈ (rows : List α)) : ∃ choice, limitOne choice rows = some row := by
  obtain ⟨position,inside,at_position⟩ := List.mem_iff_getElem.mp member
  exact ⟨position,by simp [limitOne,Nat.mod_eq_of_lt inside,inside,at_position]⟩

theorem limit_subperm (k : Nat) (choice : List Nat) (rows : List α) :
    (limit k choice rows).Subperm rows := by
  induction k generalizing choice rows with
  | zero => exact List.nil_subperm
  | succ k ih =>
    simp only [limit]
    split
    · exact List.nil_subperm
    · rename_i row found
      obtain ⟨inside,rfl⟩ := List.getElem?_eq_some_iff.mp found
      exact ((List.subperm_cons _).mpr (ih _ _)).trans (List.getElem_cons_eraseIdx_perm inside).subperm

theorem limit_length (k : Nat) (choice : List Nat) (rows : List α) :
    (limit k choice rows).length = min k rows.length := by
  induction k generalizing choice rows with
  | zero => simp [limit]
  | succ k ih =>
    simp only [limit]
    split
    · rename_i missing
      have empty : rows = [] := limitOne_none.mp missing
      simp [empty]
    · rename_i row found
      obtain ⟨inside,_⟩ := List.getElem?_eq_some_iff.mp found
      rw [List.length_cons,ih,List.length_eraseIdx_of_lt inside]
      omega

-- No admissible answer is left out: whatever rows the engine returns, some
-- choice produces them.
theorem limit_complete (answer : List α) (within : answer.Subperm rows)
    (size : answer.length = min k rows.length) : ∃ choice, limit k choice rows = answer := by
  induction answer generalizing k rows with
  | nil =>
    refine ⟨[],List.length_eq_zero_iff.mp ?_⟩
    rw [limit_length,← size]
    rfl
  | cons row rest ih =>
    obtain ⟨position,inside,rfl⟩ := List.mem_iff_getElem.mp (within.subset List.mem_cons_self)
    have smaller : rest.Subperm (rows.eraseIdx position) :=
      (List.subperm_cons _).mp (within.trans (List.getElem_cons_eraseIdx_perm inside).symm.subperm)
    cases k with
    | zero => simp at size
    | succ k =>
      have left : rest.length = min k (rows.eraseIdx position).length := by
        rw [List.length_eraseIdx_of_lt inside]
        simp only [List.length_cons] at size
        omega
      obtain ⟨choice,produced⟩ := ih smaller left
      exact ⟨position :: choice,by simp [limit,Nat.mod_eq_of_lt inside,inside,produced]⟩

theorem limit_all {choice : List Nat} (member : row ∈ (rows : List α)) (enough : rows.length ≤ k) :
    row ∈ limit k choice rows := by
  have whole : (limit k choice rows).Perm rows :=
    (limit_subperm k choice rows).perm_of_length_le (by rw [limit_length]; omega)
  exact whole.symm.subset member

theorem mem_largest {key : α → Int} : row ∈ largest key rows ↔ row ∈ rows ∧ ∀ other ∈ rows, key other ≤ key row := by
  simp [largest]

theorem largest_ne_nil {key : α → Int} (filled : rows ≠ []) : largest key rows ≠ [] := by
  have reached : ∃ row ∈ rows, ∀ other ∈ rows, key other ≤ key row := by
    induction rows with
    | nil => exact absurd rfl filled
    | cons head rest ih =>
      by_cases more : rest = []
      · exact ⟨head,by simp [more]⟩
      · obtain ⟨top,member,above⟩ := ih more
        rcases Int.le_total (key top) (key head) with low | high
        · refine ⟨head,List.mem_cons_self,?_⟩
          intro other found
          rcases List.mem_cons.mp found with rfl | found
          · exact Int.le_refl _
          · exact Int.le_trans (above other found) low
        · refine ⟨top,List.mem_cons_of_mem _ member,?_⟩
          intro other found
          rcases List.mem_cons.mp found with rfl | found
          · exact high
          · exact above other found
  obtain ⟨row,member,above⟩ := reached
  exact List.ne_nil_of_mem (mem_largest.mpr ⟨member,above⟩)

def spread (values : List Int) : Int :=
  match values.max?,values.min? with
  | some high,some low => high - low
  | _,_ => 0

theorem spread_le {values : List Int} (bound : 0 ≤ k) :
    spread values ≤ k ↔ ∀ high ∈ values, ∀ low ∈ values, high ≤ low + k := by
  cases values with
  | nil => simpa [spread] using bound
  | cons head rest =>
    obtain ⟨high,top⟩ : ∃ high, (head :: rest).max? = some high := ⟨_,List.max?_cons'⟩
    obtain ⟨low,bottom⟩ : ∃ low, (head :: rest).min? = some low := ⟨_,List.min?_cons'⟩
    obtain ⟨highest,above⟩ := List.max?_eq_some_iff.mp top
    obtain ⟨lowest,below⟩ := List.min?_eq_some_iff.mp bottom
    simp only [spread,top,bottom]
    constructor
    · intro near left first right second
      have up := above left first
      have down := below right second
      omega
    · intro near
      have far := near high highest low lowest
      omega

-- Replacing one entry of a list trades what it contributed for what the new one does.
theorem filterMap_set {rows : List α} (collect : α → Option β) (found : rows[i]? = some old) (new : α) :
    ((rows.set i new).filterMap collect ++ (collect old).toList).Perm
      (rows.filterMap collect ++ (collect new).toList) := by
  obtain ⟨inside,rfl⟩ := List.getElem?_eq_some_iff.mp found
  obtain ⟨left,right,cut,size⟩ : ∃ left right, rows = left ++ rows[i] :: right ∧ left.length = i :=
    ⟨rows.take i,rows.drop (i + 1),by simp,by simp [Nat.le_of_lt inside]⟩
  have replaced : rows.set i new = left ++ new :: right := by
    rw [cut,List.set_append_right _ _ (by omega)]
    simp [size]
  have before : rows.filterMap collect = left.filterMap collect ++ (collect rows[i]).toList ++ right.filterMap collect := by
    conv_lhs => rw [cut]
    cases value : collect rows[i] <;> simp [value]
  have after : (rows.set i new).filterMap collect = left.filterMap collect ++ (collect new).toList ++ right.filterMap collect := by
    rw [replaced]
    cases value : collect new <;> simp [value]
  rw [before,after]
  simp only [List.append_assoc]
  apply List.Perm.append_left
  have turned : ((collect new).toList ++ (right.filterMap collect ++ (collect rows[i]).toList)).Perm
      (right.filterMap collect ++ (collect rows[i]).toList ++ (collect new).toList) := List.perm_append_comm
  have swapped : (right.filterMap collect ++ (collect rows[i]).toList ++ (collect new).toList).Perm
      ((collect rows[i]).toList ++ right.filterMap collect ++ (collect new).toList) :=
    List.perm_append_comm.append_right _
  simpa only [List.append_assoc] using turned.trans swapped

-- A tagged list repeats nothing if no single tag repeats anything.
theorem nodup_of_tags [DecidableEq β] {rows : List (β × α)}
    (each : ∀ tag, ((rows.filter fun row => row.1 == tag).map Prod.snd).Nodup) : rows.Nodup := by
  induction rows with
  | nil => exact List.nodup_nil
  | cons head rest ih =>
    refine List.nodup_cons.mpr ⟨?_,ih fun tag => ?_⟩
    · intro again
      have here := each head.1
      simp only [List.filter_cons,beq_self_eq_true,if_true,List.map_cons,List.nodup_cons] at here
      exact here.1 (List.mem_map_of_mem (List.mem_filter.mpr ⟨again,by simp⟩))
    · exact (each tag).sublist (((List.sublist_cons_self head rest).filter _).map _)

end DbosScheduler.Table
