import Mathlib.Data.List.Basic

namespace DbosScheduler.Machine

-- A system is an executable partial step: from a state and one scheduled action
-- to the next state and what an observer sees of it. `none` means the action is
-- not enabled. Nothing below assumes fairness or that a run ever ends.
abbrev Advance (σ α ω : Type) := σ → α → Option (σ × List ω)

-- One taken step with both of its end states, so that statements about a step
-- never have to recompute where it started.
structure Move (σ α ω : Type) where
  before : σ
  action : α
  after : σ
  seen : List ω

variable {σ α ω : Type} {advance : Advance σ α ω}

inductive Runs (advance : Advance σ α ω) (origin : σ) : List (Move σ α ω) → σ → Prop where
  | nil : Runs advance origin [] origin
  | step : Runs advance origin earlier middle → advance middle action = some (after,seen) →
      Runs advance origin (earlier ++ [⟨middle,action,after,seen⟩]) after

def observed (moves : List (Move σ α ω)) : List ω := moves.flatMap Move.seen

@[simp] theorem observed_nil : observed ([] : List (Move σ α ω)) = [] := rfl

@[simp] theorem observed_append (left right : List (Move σ α ω)) :
    observed (left ++ right) = observed left ++ observed right := by
  simp [observed]

@[simp] theorem observed_single (move : Move σ α ω) : observed [move] = move.seen := by
  simp [observed]

-- The general rule: a relation between the past observations and the state that
-- holds at the origin and across every guarded step holds at the end of the run.
theorem Runs.history (path : Runs advance origin moves last) (Past : List ω → σ → Prop)
    (guard : σ → α → Prop) (met : ∀ move ∈ moves, guard move.before move.action)
    (start : Past [] origin)
    (keeps : ∀ past s action next seen, Past past s → guard s action →
      advance s action = some (next,seen) → Past (past ++ seen) next) :
    Past (observed moves) last := by
  induction path with
  | nil => exact start
  | @step earlier middle action after seen prior stepped ih =>
    have now : guard middle action := met ⟨middle,action,after,seen⟩ (by simp)
    have before := ih fun move member => met move (List.mem_append_left _ member)
    rw [observed_append,observed_single]
    exact keeps _ _ _ _ _ before now stepped

theorem Runs.past (path : Runs advance origin moves last) (Past : List ω → σ → Prop)
    (start : Past [] origin)
    (keeps : ∀ past s action next seen, Past past s → advance s action = some (next,seen) →
      Past (past ++ seen) next) : Past (observed moves) last :=
  path.history Past (fun _ _ => True) (fun _ _ => trivial) start
    fun past s action next seen holds _ stepped => keeps past s action next seen holds stepped

theorem Runs.guarded (path : Runs advance origin moves last) (Inv : σ → Prop) (guard : σ → α → Prop)
    (met : ∀ move ∈ moves, guard move.before move.action) (start : Inv origin)
    (keeps : ∀ s action next seen, Inv s → guard s action → advance s action = some (next,seen) →
      Inv next) : Inv last :=
  path.history (fun _ s => Inv s) guard met start fun _ s action next seen => keeps s action next seen

theorem Runs.invariant (path : Runs advance origin moves last) (Inv : σ → Prop) (start : Inv origin)
    (keeps : ∀ s action next seen, Inv s → advance s action = some (next,seen) → Inv next) :
    Inv last :=
  path.past (fun _ s => Inv s) start fun _ s action next seen => keeps s action next seen

theorem Runs.append (left : Runs advance origin earlier middle) (right : Runs advance middle later last) :
    Runs advance origin (earlier ++ later) last := by
  induction right with
  | nil => rwa [List.append_nil]
  | @step past state action after seen _ taken ih =>
    rw [← List.append_assoc]
    exact .step ih taken

-- Every step of a run starts in a state that the run had reached before.
theorem Runs.split (path : Runs advance origin moves last) (cut : moves = earlier ++ move :: later) :
    Runs advance origin earlier move.before ∧
      advance move.before move.action = some (move.after,move.seen) ∧
      Runs advance origin (earlier ++ [move]) move.after := by
  induction path generalizing later with
  | nil => simp at cut
  | @step past middle action after seen prior stepped ih =>
    rcases later.eq_nil_or_concat with rfl | ⟨rest,final,rfl⟩
    · obtain ⟨rfl,rfl⟩ := List.append_inj' cut rfl |>.imp_right List.singleton_inj.mp
      exact ⟨prior,stepped,.step prior stepped⟩
    · have shorter : past = earlier ++ move :: rest := by
        have cut' : past ++ [⟨middle,action,after,seen⟩] = (earlier ++ move :: rest) ++ [final] := by
          simpa using cut
        exact (List.append_inj' cut' rfl).1
      exact ih shorter

theorem Runs.stepped (path : Runs advance origin moves last) (member : move ∈ moves) :
    (∃ earlier, (∃ later, moves = earlier ++ move :: later) ∧ Runs advance origin earlier move.before) ∧
      advance move.before move.action = some (move.after,move.seen) := by
  obtain ⟨earlier,later,cut⟩ := List.append_of_mem member
  have parts := path.split cut
  exact ⟨⟨earlier,⟨later,cut⟩,parts.1⟩,parts.2.1⟩

-- What no step makes smaller is at its largest at the end.
theorem Runs.grows (path : Runs advance origin moves last) (size : σ → Nat)
    (keeps : ∀ s action next seen, advance s action = some (next,seen) → size s ≤ size next) :
    ∀ move ∈ moves, size move.before ≤ size last := by
  induction path with
  | nil => simp
  | @step earlier middle action after seen prior stepped ih =>
    have final := keeps middle action after seen stepped
    intro move member
    rcases List.mem_append.mp member with old | new
    · exact Nat.le_trans (ih move old) final
    · rw [List.mem_singleton.mp new]
      exact final

-- Where a step that takes one off the measure is always there, the system can be run to
-- the end of the measure.
theorem Runs.exhausts (advance : Advance σ α ω) (Inv : σ → Prop) (Good : Move σ α ω → Prop) (measure : σ → Nat)
    (able : ∀ s, Inv s → 0 < measure s → ∃ action next seen, advance s action = some (next,seen) ∧ Inv next ∧
      measure next + 1 = measure s ∧ Good ⟨s,action,next,seen⟩) (s : σ) (start : Inv s) :
    ∃ moves last, Runs advance s moves last ∧ Inv last ∧ measure last = 0 ∧ moves.length = measure s ∧
      ∀ move ∈ moves, Good move := by
  induction left : measure s generalizing s with
  | zero => exact ⟨[],s,.nil,start,left,rfl,by simp⟩
  | succ n ih =>
    obtain ⟨action,next,seen,stepped,kept,less,good⟩ := able s start (by omega)
    obtain ⟨moves,last,path,ends,none,count,all⟩ := ih next kept (by omega)
    refine ⟨⟨s,action,next,seen⟩ :: moves,last,(Runs.step .nil stepped).append path,ends,none,by simp [count],?_⟩
    intro move member
    rcases List.mem_cons.mp member with rfl | later
    · exact good
    · exact all move later

-- The same where a step may take off more than one.
theorem Runs.descends (advance : Advance σ α ω) (Inv : σ → Prop) (Good : Move σ α ω → Prop) (measure : σ → Nat)
    (able : ∀ s, Inv s → 0 < measure s → ∃ action next seen, advance s action = some (next,seen) ∧ Inv next ∧
      measure next < measure s ∧ Good ⟨s,action,next,seen⟩) (s : σ) (start : Inv s) :
    ∃ moves last, Runs advance s moves last ∧ Inv last ∧ measure last = 0 ∧ moves.length ≤ measure s ∧
      ∀ move ∈ moves, Good move := by
  induction left : measure s using Nat.strongRecOn generalizing s with
  | ind n ih =>
    by_cases done : measure s = 0
    · exact ⟨[],s,.nil,start,done,by simp,by simp⟩
    · obtain ⟨action,next,seen,stepped,kept,less,good⟩ := able s start (by omega)
      obtain ⟨moves,last,path,ends,none,count,all⟩ := ih (measure next) (by omega) next kept rfl
      refine ⟨⟨s,action,next,seen⟩ :: moves,last,(Runs.step .nil stepped).append path,ends,none,?_,?_⟩
      · rw [List.length_cons]
        omega
      · intro move member
        rcases List.mem_cons.mp member with rfl | later
        · exact good
        · exact all move later

-- The executable form, for concrete schedules.
def run (advance : Advance σ α ω) (s : σ) : List α → Option (List (Move σ α ω) × σ)
  | [] => some ([],s)
  | action :: rest => do
    let (next,seen) ← advance s action
    let (moves,last) ← run advance next rest
    return (⟨s,action,next,seen⟩ :: moves,last)

theorem run_sound (accepted : run advance s actions = some (moves,last)) : Runs advance s moves last := by
  induction actions generalizing s moves with
  | nil =>
    simp only [run,Option.some.injEq,Prod.mk.injEq] at accepted
    obtain ⟨rfl,rfl⟩ := accepted
    exact .nil
  | cons action rest ih =>
    simp only [run] at accepted
    obtain ⟨⟨next,seen⟩,first,accepted⟩ := Option.bind_eq_some_iff.mp accepted
    obtain ⟨⟨tail,final⟩,others,accepted⟩ := Option.bind_eq_some_iff.mp accepted
    cases accepted
    exact (Runs.step Runs.nil first).append (ih others)

-- A decidable check on the outcome of a schedule yields a run with that outcome.
theorem run_reaches (advance : Advance σ α ω) (s : σ) (check : List (Move σ α ω) → σ → Bool) (actions : List α)
    (accepted : ((run advance s actions).map fun result => check result.1 result.2) = some true) :
    ∃ moves last, Runs advance s moves last ∧ check moves last = true := by
  obtain ⟨⟨moves,last⟩,ran,checked⟩ := Option.map_eq_some_iff.mp accepted
  exact ⟨moves,last,run_sound ran,checked⟩

end DbosScheduler.Machine
