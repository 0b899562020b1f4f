import DbosScheduler.Scheduler.Probing
import DbosScheduler.Scheduler.ScanTask

namespace DbosScheduler.Scheduler
open Client Sql Table Triangular

-- What becomes of a failed invocation: in the functions that return a worker id, and
-- in setup, which reports its own success.

-- A worker id that is returned was in a reply, and a failure is a negative result.
structure Honest (ended : Option Int) (heard : List Response) : Prop where
  committed : ∀ w, ended = some w → 0 ≤ w → ∃ reply, some reply ∈ heard ∧ getInt64 reply = w
  reported : none ∈ heard → ∃ w, ended = some w ∧ w < 0

variable {db : Database} {choose : Nat → Choice}

theorem Honest.none (ended : Option Int) (lost : ended = none) : Honest ended [] := by
  subst lost
  exact ⟨by simp,by simp⟩

theorem Honest.failed (negative : w < 0) (heard : List Response) : Honest (some w) heard := by
  refine ⟨fun v same real => ?_,fun _ => ⟨w,rfl,negative⟩⟩
  cases same
  omega

theorem Honest.found (reply : Reply) : Honest (some (getInt64 reply)) [some reply] := by
  refine ⟨fun w same _ => ?_,by simp⟩
  cases same
  exact ⟨reply,by simp,rfl⟩

-- setup() looks at the outcome of its inserts and not at that of its truncations.
def Manned (cfg : Config) (db : Database) : Prop := db.worker.Perm ((List.range cfg.numWorkers).map (workerRow cfg))

theorem leftover_nil {rows : List α} {choice : Choice} : leftover choice rows = [] ↔ choice.fault = false ∨ rows = [] := by
  cases fault : choice.fault with
  | true => simp [leftover,fault]
  | false => simp [leftover,fault]

theorem leftover_perm {rows added : List α} {choice : Choice} :
    (leftover choice rows ++ added).Perm added ↔ choice.fault = false ∨ rows = [] := by
  rw [← leftover_nil]
  constructor
  · intro same
    have size := same.length_eq
    rw [List.length_append] at size
    exact List.length_eq_zero_iff.mp (by omega)
  · intro nothing
    rw [nothing,List.nil_append]

theorem setup_fresh_iff (cfg : Config) (db : Database) (choices : List Choice) (after : Database) :
    (solo invoke db (PartitionedFIFOScheduler.setup cfg) choices = some (after,some true) →
      ∃ first others, choices = first :: others ∧ (Manned cfg after ↔ first.fault = false ∨ db.worker = [])) ∧
    (solo invoke db (PartitionedLocalFIFOScheduler.setup cfg) choices = some (after,some true) →
      ∃ first second others, choices = first :: second :: others ∧
        (Manned cfg after ∧ after.task = [] ↔
          (first.fault = false ∨ db.worker = []) ∧ (second.fault = false ∨ db.task = []))) ∧
    (solo invoke db (SinglePartitionedFIFOTaskScheduler.setup cfg) choices = some (after,some true) →
      ∃ first second others, choices = first :: second :: others ∧
        (Manned cfg after ∧ after.task = [] ↔
          (first.fault = false ∨ db.worker = []) ∧ (second.fault = false ∨ db.task = []))) := by
  have both : solo invoke db (SinglePartitionedFIFOTaskScheduler.setup cfg) choices = some (after,some true) →
      ∃ first second others, choices = first :: second :: others ∧
        (Manned cfg after ∧ after.task = [] ↔
          (first.fault = false ∨ db.worker = []) ∧ (second.fault = false ∨ db.task = [])) := by
    intro ran
    obtain ⟨first,second,others,rfl,rfl⟩ := setup_adds ran
    exact ⟨first,second,others,rfl,and_congr leftover_perm leftover_nil⟩
  refine ⟨fun ran => ?_,both,both⟩
  obtain ⟨first,others,rfl,rfl⟩ := setup_readds ran
  exact ⟨first,others,rfl,leftover_perm⟩

-- Worker 0 of an earlier run is still there, and so is its task: the truncations fail.
def earlierRun : Database := {Database.empty with worker:=[⟨0,5,0,0,""⟩],task:=[⟨7,0,1,0⟩]}

theorem setup_fresh_iff_cleared : ∃ after,
    solo invoke earlierRun (PartitionedLocalFIFOScheduler.setup ⟨1,0,2,1⟩) [{},{},{}] = some (after,some true) ∧
      Manned ⟨1,0,2,1⟩ after ∧ after.task = [] := by
  have ran : solo invoke earlierRun (PartitionedLocalFIFOScheduler.setup ⟨1,0,2,1⟩) [{},{},{}] =
      some ({Database.empty with worker:=[⟨0,2,0,0,""⟩]},some true) := by decide +kernel
  obtain ⟨first,second,others,same,exact_⟩ := (setup_fresh_iff ⟨1,0,2,1⟩ earlierRun _ _).2.1 ran
  cases same
  exact ⟨_,ran,exact_.mpr ⟨.inl rfl,.inl rfl⟩⟩

theorem setup_keeps_leftovers :
    solo invoke earlierRun (PartitionedFIFOScheduler.setup ⟨1,0,2,1⟩) [{fault:=true},{}] =
      some ({earlierRun with worker:=[⟨0,5,0,0,""⟩,⟨0,2,0,0,""⟩]},some true) ∧
    solo invoke earlierRun (PartitionedLocalFIFOScheduler.setup ⟨1,0,2,1⟩) [{fault:=true},{fault:=true},{}] =
      some ({earlierRun with worker:=[⟨0,5,0,0,""⟩,⟨0,2,0,0,""⟩]},some true) ∧
    solo invoke earlierRun (SinglePartitionedFIFOTaskScheduler.setup ⟨1,0,2,1⟩) [{fault:=true},{fault:=true},{}] =
      some ({earlierRun with worker:=[⟨0,5,0,0,""⟩,⟨0,2,0,0,""⟩]},some true) ∧
    ¬Manned ⟨1,0,2,1⟩ {earlierRun with worker:=[⟨0,5,0,0,""⟩,⟨0,2,0,0,""⟩]} := by
  refine ⟨by decide +kernel,by decide +kernel,by decide +kernel,fun manned => ?_⟩
  exact absurd manned.length_eq (by decide)

end DbosScheduler.Scheduler
