import Mathlib.Data.List.Induction

namespace DbosScheduler.Scanner

-- A scanner reads one symbol at a time into a draft of what it reads; `none` is a
-- symbol that no continuation of the draft allows.
variable {δ α : Type}

def scan (step : δ → α → Option δ) (draft : δ) (symbols : List α) : Option δ := symbols.foldlM step draft

variable {step : δ → α → Option δ} {draft : δ}

@[simp] theorem scan_nil : scan step draft [] = some draft := rfl

theorem scan_cons : scan step draft (symbol :: rest) = (step draft symbol).bind fun next => scan step next rest := rfl

theorem scan_append (left right : List α) :
    scan step draft (left ++ right) = (scan step draft left).bind fun middle => scan step middle right := by
  simp only [scan,List.foldlM_append]
  rfl

theorem scan_snoc (symbols : List α) (symbol : α) :
    scan step draft (symbols ++ [symbol]) = (scan step draft symbols).bind fun middle => step middle symbol := by
  rw [scan_append]
  apply Option.bind_congr
  intro middle _
  rw [scan_cons]
  cases step middle symbol <;> rfl

-- A scanner is exact for a way of printing drafts when each step prints one more
-- symbol, and every draft comes from the one that prints a symbol less.
structure Exact (step : δ → α → Option δ) (print : δ → List α) (Good : δ → Prop) (start : δ) : Prop where
  good : Good start
  blank : print start = []
  only : ∀ draft, Good draft → print draft = [] → draft = start
  forward : ∀ draft symbol next, Good draft → step draft symbol = some next →
    Good next ∧ print next = print draft ++ [symbol]
  backward : ∀ next symbols symbol, Good next → print next = symbols ++ [symbol] →
    ∃ draft, Good draft ∧ print draft = symbols ∧ step draft symbol = some next

variable {print : δ → List α} {Good : δ → Prop} {start : δ}

-- Scanning is the inverse of printing: nothing else is read, and everything good is.
theorem Exact.scan_iff (law : Exact step print Good start) (symbols : List α) (draft : δ) :
    scan step start symbols = some draft ↔ Good draft ∧ print draft = symbols := by
  induction symbols using List.reverseRecOn generalizing draft with
  | nil =>
    constructor
    · intro same
      cases same
      exact ⟨law.good,law.blank⟩
    · rintro ⟨good,blank⟩
      rw [law.only draft good blank]
      rfl
  | append_singleton symbols symbol ih =>
    rw [scan_snoc]
    constructor
    · intro scanned
      obtain ⟨middle,earlier,stepped⟩ := Option.bind_eq_some_iff.mp scanned
      obtain ⟨good,printed⟩ := (ih middle).mp earlier
      obtain ⟨after,longer⟩ := law.forward middle symbol draft good stepped
      exact ⟨after,by rw [longer,printed]⟩
    · rintro ⟨good,printed⟩
      obtain ⟨middle,before,shorter,stepped⟩ := law.backward draft symbols symbol good printed
      exact Option.bind_eq_some_iff.mpr ⟨middle,(ih middle).mpr ⟨before,shorter⟩,stepped⟩

theorem Exact.print_injective (law : Exact step print Good start) (left : Good first) (right : Good second)
    (same : print first = print second) : first = second := by
  have one := (law.scan_iff (print first) first).mpr ⟨left,rfl⟩
  have two := (law.scan_iff (print first) second).mpr ⟨right,same.symm⟩
  exact Option.some.inj (one.symm.trans two)

end DbosScheduler.Scanner
