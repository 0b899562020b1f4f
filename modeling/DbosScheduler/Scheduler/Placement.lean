import DbosScheduler.Scheduler.Setup
import DbosScheduler.Sql.Commits

namespace DbosScheduler.Scheduler
open Client Machine Sql Table

def Exactly (n : Nat) (partitions : List Int) : Prop := ∀ p, p ∈ partitions ↔ ∃ i < n, p = (i : Int)

theorem Exactly.append (left : Exactly (min partitions m) first) (right : Exactly (min partitions n) second) :
    Exactly (min partitions (max m n)) (first ++ second) := by
  intro p
  rw [List.mem_append,left,right]
  constructor
  · intro given
    rcases given with ⟨i,inside,same⟩ | ⟨i,inside,same⟩
    · exact ⟨i,by omega,same⟩
    · exact ⟨i,by omega,same⟩
  · intro given
    obtain ⟨i,inside,same⟩ := given
    by_cases short : i < m
    · exact .inl ⟨i,by omega,same⟩
    · exact .inr ⟨i,by omega,same⟩

variable {db after prepared : Database} {call : Call} {choice : Choice} {answer : Reply} {cfg : Config}

-- The scheduling calls of each scheduler, with whatever the random generator and the
-- task counter return.
def PartitionedFIFOScheduler.Calls (cfg : Config) (prog : Program Bool) : Prop :=
  ∃ rand, prog = schedule cfg rand ∨ prog = asyncSchedule cfg rand

def PartitionedLocalFIFOScheduler.Calls (cfg : Config) (prog : Program Bool) : Prop :=
  ∃ rand taskID, prog = schedule cfg rand taskID ∨ prog = asyncSchedule cfg rand taskID

def SinglePartitionedFIFOTaskScheduler.Calls (cfg : Config) (prog : Program Bool) : Prop :=
  ∃ rand taskID, prog = schedule cfg rand taskID ∨ prog = asyncSchedule cfg rand taskID

def PartitionedFIFOTaskScheduler.Calls (cfg : Config) (prog : Program Bool) : Prop :=
  ∃ rand single, prog = schedule cfg rand single

def PartitionedScanTask.Calls (cfg : Config) (prog : Program Bool) : Prop :=
  ∃ rand single, prog = schedule cfg rand single

end DbosScheduler.Scheduler
