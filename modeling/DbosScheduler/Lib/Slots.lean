import Mathlib.Algebra.Ring.Nat
import Mathlib.Data.List.OfFn
import Mathlib.Data.List.FinRange
import Mathlib.Logic.Function.Basic
import DbosScheduler.Lib.Machine

namespace DbosScheduler.Slots

-- Threads that share an array and a counter of its used entries: a thread takes the value of
-- the counter and adds one to it, and fills the entry of that number when it has something
-- to put there. Between the two, other threads do the same.
inductive Effect (τ α ω : Type) (size : Nat) where
  | move (next : τ) (seen : List ω)
  | claim (next : UInt32 → τ)
  | fill (slot : Fin size) (value : α) (next : τ)

structure Pool (τ α : Type) (size : Nat) where
  threads : List τ
  counter : UInt32
  cells : Fin size → α

inductive Event (α ω : Type) (size : Nat) where
  | seen (sight : ω)
  | claimed (number : UInt32)
  | filled (slot : Fin size) (value : α)
  deriving Repr, DecidableEq

-- What a thread has to do with the array: nothing; or it has a number and has not filled its
-- entry; or its number is beyond the array.
inductive Stance (size : Nat) where
  | idle
  | holds (slot : Fin size)
  | lost
  deriving Repr, DecidableEq

def Stance.of (size : Nat) (number : UInt32) : Stance size :=
  if inside : number.toNat < size then .holds ⟨number.toNat,inside⟩ else .lost

variable {τ α ω : Type} {size : Nat}

def Pool.act (pool : Pool τ α size) (i : Nat) : Effect τ α ω size → Pool τ α size × List (Event α ω size)
  | .move next seen => ({pool with threads:=pool.threads.set i next},seen.map .seen)
  | .claim next =>
    ({pool with threads:=pool.threads.set i (next pool.counter),counter:=pool.counter + 1},[.claimed pool.counter])
  | .fill slot value next =>
    ({pool with threads:=pool.threads.set i next,cells:=Function.update pool.cells slot value},[.filled slot value])

-- An entry is only filled by the thread that has its number, and only once.
def Effect.Legal (stance : τ → Stance size) (t : τ) : Effect τ α ω size → Prop
  | .move next _ => stance next = stance t
  | .claim next => stance t = .idle ∧ ∀ number, stance (next number) = Stance.of size number
  | .fill slot _ next => stance t = .holds slot ∧ stance next = .idle

def Event.number? : Event α ω size → Option UInt32
  | .claimed number => some number
  | _ => none

def numbers (past : List (Event α ω size)) : List UInt32 := past.filterMap Event.number?
-- What the threads have together of something.
def load (amount : τ → Nat) (threads : List τ) : Nat := (threads.map amount).sum

theorem load_set {threads : List τ} (amount : τ → Nat) (found : threads[i]? = some t) (next : τ) :
    load amount (threads.set i next) + amount t = load amount threads + amount next := by
  induction threads generalizing i with
  | nil => simp at found
  | cons first rest ih =>
    cases i with
    | zero =>
      cases found
      simp only [load,List.set_cons_zero,List.map_cons,List.sum_cons]
      omega
    | succ i =>
      have rest := ih (i:=i) found
      simp only [load,List.set_cons_succ,List.map_cons,List.sum_cons] at rest ⊢
      omega

theorem load_zero {threads : List τ} {amount : τ → Nat} (nothing : ∀ t ∈ threads, amount t = 0) : load amount threads = 0 := by
  have zeros : threads.map amount = threads.map fun _ => 0 := List.map_congr_left nothing
  simp [load,zeros]

def Stance.at (stance : Stance size) (which : Stance size) : Nat := if stance = which then 1 else 0

section
variable (stance : τ → Stance size)

variable {stance} {pool : Pool τ α size} {past : List (Event α ω size)}

end

end DbosScheduler.Slots
