import Mathlib.Data.Int.Init

namespace DbosScheduler.Transfer

variable {σ : Type}

-- One call of a loop that moves `size` bytes in pieces: the call says how many it moved,
-- or that it failed.
def transfer (size bytes result : Int) (again : Int → σ) (next gone : σ) : σ :=
  if result < 0 then gone else
  if bytes + result < size then again (bytes + result) else next

-- What the first n calls have moved.
def moved (results : Nat → Int) : Nat → Int
  | 0 => 0
  | n + 1 => moved results n + results n

def later (results : Nat → Int) (n : Nat) : Int := results (n + 1)

theorem moved_succ (results : Nat → Int) (n : Nat) : moved results (n + 1) = results 0 + moved (later results) n := by
  induction n with
  | zero => simp [moved]
  | succ n ih =>
    rw [moved,ih,moved,later]
    omega

-- The loop asks for no more than is missing and gets no more; the end of the stream, once
-- reached, stays.
def Legal (missing : Int) (results : Nat → Int) : Prop :=
  ∀ n, (∀ k < n, 0 ≤ results k) → moved results n < missing →
    results n ≤ missing - moved results n ∧ (results n = 0 → results (n + 1) = 0)

-- The stream ends before the last missing byte.
def Cut (missing : Int) (results : Nat → Int) : Prop :=
  ∃ n, (∀ k < n, 0 < results k) ∧ moved results n < missing ∧ results n = 0

theorem Legal.later (legal : Legal missing results) (positive : 0 ≤ results 0) :
    Legal (missing - results 0) (later results) := by
  intro n nonnegative less
  have total := moved_succ results n
  have held : ∀ k < n + 1, 0 ≤ results k := by
    intro k below
    cases k with
    | zero => exact positive
    | succ k => exact nonnegative k (Nat.lt_of_succ_lt_succ below)
  obtain ⟨bound,stays⟩ := legal (n + 1) held (by omega)
  refine ⟨?_,stays⟩
  show results (n + 1) ≤ _
  omega

theorem cut_later (positive : 0 < results 0) :
    Cut missing results ↔ Cut (missing - results 0) (later results) := by
  constructor
  · rintro ⟨n,going,less,ended⟩
    cases n with
    | zero => omega
    | succ n =>
      rw [moved_succ] at less
      exact ⟨n,fun k below => going (k + 1) (Nat.succ_lt_succ below),by omega,ended⟩
  · rintro ⟨n,going,less,ended⟩
    refine ⟨n + 1,?_,?_,ended⟩
    · intro k below
      cases k with
      | zero => exact positive
      | succ k => exact going k (Nat.lt_of_succ_lt_succ below)
    · rw [moved_succ]
      omega

theorem moved_nonneg (n : Nat) (positive : ∀ k < n, 0 < results k) : 0 ≤ moved results n := by
  induction n with
  | zero => exact Int.le_refl 0
  | succ n ih =>
    have before := ih fun k below => positive k (Nat.lt_succ_of_lt below)
    have now := positive n (Nat.lt_succ_self n)
    rw [moved]
    omega

theorem Cut.waits (cut : Cut missing results) : 0 < missing := by
  obtain ⟨n,going,less,_⟩ := cut
  have nonnegative := moved_nonneg n going
  omega

-- A cut stream is cut for the rest of the loop too.
theorem Cut.later (cut : Cut missing results) (legal : Legal missing results) :
    0 ≤ results 0 ∧ Cut (missing - results 0) (later results) := by
  have waiting := cut.waits
  obtain ⟨n,going,less,ended⟩ := id cut
  cases n with
  | zero =>
    have stays := (legal 0 (by simp) less).2 ended
    refine ⟨Int.le_of_eq ended.symm,0,by simp,?_,stays⟩
    rw [ended,moved]
    omega
  | succ n =>
    have positive := going 0 (Nat.succ_pos n)
    exact ⟨Int.le_of_lt positive,(cut_later positive).mp cut⟩

-- A state machine that is in such a loop: it counts up until the size is reached, and
-- then goes on.
structure Transfers (step : σ → Int → Option σ) (size : Int) (again : Int → σ) (next gone : σ) : Prop where
  step : ∀ bytes result, 0 ≤ bytes → bytes < size → step (again bytes) result = some (transfer size bytes result again next gone)
  onward : ∀ bytes, again bytes ≠ next
  away : ∀ bytes, again bytes ≠ gone

-- The state after n calls with the given results.
def stateAfter (step : σ → Int → Option σ) (s : σ) (results : Nat → Int) : Nat → Option σ
  | 0 => some s
  | n + 1 => (stateAfter step s results n).bind fun middle => step middle (results n)

theorem stateAfter_later {step : σ → Int → Option σ} (stepped : step s (results 0) = some middle) (n : Nat) :
    stateAfter step s results (n + 1) = stateAfter step middle (later results) n := by
  induction n with
  | zero =>
    rw [stateAfter,stateAfter,stateAfter,Option.bind_some,stepped]
  | succ n ih =>
    rw [stateAfter,ih,stateAfter]
    rfl

-- The loop is over after n calls: all bytes were moved, or a call failed.
def Over (step : σ → Int → Option σ) (s : σ) (missing : Int) (results : Nat → Int) (next gone : σ) (n : Nat) : Prop :=
  (moved results n = missing ∧ stateAfter step s results n = some next) ∨
    ((∃ k < n, results k < 0) ∧ stateAfter step s results n = some gone)

variable {step : σ → Int → Option σ} {again : Int → σ} {next gone : σ} {size bytes : Int} {results : Nat → Int}

theorem Transfers.again_step (loop : Transfers step size again next gone) (nonnegative : 0 ≤ bytes) (inside : bytes < size)
    (positive : 0 ≤ result) (short : bytes + result < size) : step (again bytes) result = some (again (bytes + result)) := by
  rw [loop.step bytes result nonnegative inside,transfer,if_neg (Int.not_lt.mpr positive),if_pos short]

-- A call that moves something but not all leaves the rest of the loop.
theorem over_later (loop : Transfers step size again next gone) (nonnegative : 0 ≤ bytes) (inside : bytes < size)
    (positive : 0 ≤ results 0) (short : bytes + results 0 < size) (n : Nat) :
    Over step (again bytes) (size - bytes) results next gone (n + 1) ↔
      Over step (again (bytes + results 0)) (size - (bytes + results 0)) (later results) next gone n := by
  have stepped := loop.again_step nonnegative inside positive short
  have failed : (∃ k < n + 1, results k < 0) ↔ ∃ k < n, later results k < 0 := by
    constructor
    · rintro ⟨k,below,negative⟩
      cases k with
      | zero => omega
      | succ k => exact ⟨k,Nat.lt_of_succ_lt_succ below,negative⟩
    · rintro ⟨k,below,negative⟩
      exact ⟨k + 1,Nat.succ_lt_succ below,negative⟩
  unfold Over
  rw [stateAfter_later stepped,moved_succ,failed]
  constructor
  · rintro (⟨all,onward⟩ | gone)
    · exact .inl ⟨by omega,onward⟩
    · exact .inr gone
  · rintro (⟨all,onward⟩ | gone)
    · exact .inl ⟨by omega,onward⟩
    · exact .inr gone

-- Every call moves a byte at least, or fails; what is missing bounds the calls.
theorem transfers_end (loop : Transfers step size again next gone) (nonnegative : 0 ≤ bytes) (inside : bytes < size)
    (legal : Legal (size - bytes) results) (whole : ¬Cut (size - bytes) results) :
    ∃ n, Over step (again bytes) (size - bytes) results next gone n := by
  induction missing : (size - bytes).toNat using Nat.strongRecOn generalizing bytes results with
  | ind missing_ ih =>
    have stepped := loop.step bytes (results 0) nonnegative inside
    rw [transfer] at stepped
    rcases Int.lt_trichotomy (results 0) 0 with negative | zero | positive
    · rw [if_pos negative] at stepped
      refine ⟨1,.inr ⟨⟨0,Nat.zero_lt_one,negative⟩,?_⟩⟩
      rw [stateAfter_later stepped,stateAfter]
    · exact absurd ⟨0,by simp,by rw [moved]; omega,zero⟩ whole
    · have bound := (legal 0 (by simp) (by rw [moved]; omega)).1
      rw [moved] at bound
      by_cases short : bytes + results 0 < size
      · have rest : size - bytes - results 0 = size - (bytes + results 0) := by omega
        have shorter := legal.later (Int.le_of_lt positive)
        have intact : ¬Cut (size - bytes - results 0) (later results) := fun cut => whole ((cut_later positive).mpr cut)
        rw [rest] at shorter intact
        obtain ⟨n,ended⟩ := ih (size - (bytes + results 0)).toNat (by omega) (by omega) short shorter intact rfl
        exact ⟨n + 1,(over_later loop nonnegative inside (Int.le_of_lt positive) short n).mpr ended⟩
      · rw [if_neg (Int.not_lt.mpr (Int.le_of_lt positive)),if_neg short] at stepped
        refine ⟨1,.inl ⟨?_,?_⟩⟩
        · rw [moved,moved]
          omega
        · rw [stateAfter_later stepped,stateAfter]

-- Without the missing bytes the loop goes round for ever.
theorem cut_stays (loop : Transfers step size again next gone) (nonnegative : 0 ≤ bytes) (inside : bytes < size)
    (legal : Legal (size - bytes) results) (cut : Cut (size - bytes) results) (n : Nat) :
    ∃ held, held < size ∧ stateAfter step (again bytes) results n = some (again held) := by
  induction n generalizing bytes results with
  | zero => exact ⟨bytes,inside,rfl⟩
  | succ n ih =>
    obtain ⟨positive,rest⟩ := cut.later legal
    have shorter := legal.later positive
    have waiting := rest.waits
    have same : size - bytes - results 0 = size - (bytes + results 0) := by omega
    rw [same] at rest shorter
    rw [stateAfter_later (loop.again_step nonnegative inside positive (by omega))]
    exact ih (by omega) (by omega) shorter rest

theorem transfers_end_iff (loop : Transfers step size again next gone) (nonnegative : 0 ≤ bytes) (inside : bytes < size)
    (legal : Legal (size - bytes) results) :
    (∃ n, Over step (again bytes) (size - bytes) results next gone n) ↔ ¬Cut (size - bytes) results := by
  constructor
  · rintro ⟨n,ended⟩ cut
    obtain ⟨held,_,stays⟩ := cut_stays loop nonnegative inside legal cut n
    rcases ended with ⟨_,onward⟩ | ⟨_,away⟩
    · rw [stays] at onward
      exact loop.onward held (Option.some.inj onward)
    · rw [stays] at away
      exact loop.away held (Option.some.inj away)
  · exact transfers_end loop nonnegative inside legal

end DbosScheduler.Transfer
