import Mathlib.Algebra.Ring.Int.Defs
import DbosScheduler.FifoTask.System

namespace DbosScheduler.FifoTask
open Machine Client Sql Scheduler Table

variable {cfg : Config} {db after : Database} {s next last : State} {task : TaskRow} {row : WorkerRow}

def assigned (db : Database) : Nat := db.task.countP fun task => decide (0 ≤ task.workerID)
def consumed (cfg : Config) (db : Database) : Int := (db.worker.map fun row => cfg.workerCapacity - row.capacity).sum

theorem Taken.consumed (cfg : Config) (taken : Taken db after task row) : consumed cfg after = consumed cfg db + 1 := by
  obtain ⟨left,right,before,behind⟩ := taken.charged
  simp only [FifoTask.consumed,before,behind,List.map_append,List.map_cons,List.sum_append,List.sum_cons]
  omega

theorem Taken.assigned (taken : Taken db after task row) (worker : 0 ≤ row.workerID) :
    assigned after + (if 0 ≤ task.workerID then 1 else 0) = assigned db + 1 := by
  obtain ⟨left,right,before,behind⟩ := taken.placed
  simp only [FifoTask.assigned,before,behind,List.countP_append,List.countP_cons,worker,decide_true,if_true]
  by_cases already : 0 ≤ task.workerID
  · simp [already]
  · simp [already]
    omega

-- One worker with two units of capacity and a single task.
def oneTask : Config := ⟨1,1,2,1⟩

-- The filter a poll worker uses: PKey = w % P, WorkerID = w, State = PENDING.
def Visible (cfg : Config) (db : Database) : Prop :=
  ∀ task ∈ db.task, 0 ≤ task.workerID → task.state = pending →
    task.pkey = task.workerID % cfg.partitions ∧
    ∀ choice topk, (db.task.length : Int) ≤ topk → ∃ ids after,
      WorkerSelectTask.run choice (task.workerID % cfg.partitions) task.workerID topk db = some (ids,after) ∧
        task.taskID ∈ ids

-- The step assigns no task to a worker of another partition.
def Local (s : State) (action : Action) : Prop :=
  ∀ task row, s.assigns action = some (task,row) → task.pkey = row.pkey

def Copartitioned (cfg : Config) (db : Database) : Prop :=
  ∀ task ∈ db.task, 0 ≤ task.workerID → task.pkey = task.workerID % cfg.partitions

theorem Copartitioned.visible (together : Copartitioned cfg db) : Visible cfg db := by
  intro task member owned waiting
  have here := together task member owned
  refine ⟨here,fun choice topk enough => ?_⟩
  have listed : task ∈ db.task.filter (pendingOf (task.workerID % cfg.partitions) task.workerID) := by
    simp [pendingOf,member,here,waiting]
  have size : (db.task.filter (pendingOf (task.workerID % cfg.partitions) task.workerID)).length ≤ topk.toNat := by
    have := List.length_filter_le (pendingOf (task.workerID % cfg.partitions) task.workerID) db.task
    omega
  have positive : ¬topk < 0 := by omega
  simp only [WorkerSelectTask.run,positive,if_false]
  exact ⟨_,_,rfl,List.mem_map_of_mem (limit_all listed size)⟩

-- Two partitions, one worker in partition 0, and two tasks.
def twoPartitions : Config := ⟨2,2,1,1⟩

end DbosScheduler.FifoTask
