import DbosScheduler.Scheduler.Clients

namespace DbosScheduler.FifoTask
open Client Sql Scheduler Table

-- The single-partition loop of selectTaskWorker is an optimisation: whatever it does,
-- SelectTaskWorker might have done on its own.

-- There is a task, and somewhere a worker for it.
def Assignable (db : Database) : Prop := db.task ≠ [] ∧ ∃ row ∈ db.worker, 0 < row.capacity

-- How a call may end, compared with SelectTaskWorker on the same tables.
structure Refined (db : Database) (ended : Database × Option Bool) : Prop where
  assigns : ended.2 = some true ↔ Assignable db
  simulated : ended.2 = some true → ∃ choice, SelectTaskWorker.run choice db = some (success,ended.1)
  unchanged : ended.2 ≠ some true → ended = (db,some false)

variable {db after : Database}

theorem selectTaskWorker_success (ran : SelectTaskWorker.run choice db = some (result,after)) :
    result = success ↔ Assignable db := by
  cases taskFound : SelectTaskWorker.selectTask choice db with
  | none =>
    have empty : db.task = [] := limitOne_none.mp taskFound
    simp only [SelectTaskWorker.run,taskFound,Option.some.injEq,Prod.mk.injEq] at ran
    exact iff_of_false (by rw [← ran.1]; decide) fun both => both.1 empty
  | some task =>
    have filled : db.task ≠ [] := List.ne_nil_of_mem (limitOne_mem taskFound)
    cases found : SelectTaskWorker.selectWorker choice db with
    | none =>
      have nobody : ∀ row ∈ db.worker, ¬0 < row.capacity := by simpa using limitOne_none.mp found
      simp only [SelectTaskWorker.run,taskFound,found,Option.some.injEq,Prod.mk.injEq] at ran
      refine iff_of_false (by rw [← ran.1]; decide) ?_
      rintro ⟨_,row,member,capacity⟩
      exact nobody row member capacity
    | some row =>
      have kept : row ∈ db.worker ∧ 0 < row.capacity := by simpa using limitOne_mem found
      rw [SelectTaskWorker.run_found taskFound found] at ran
      split at ran
      · cases ran
        exact iff_of_true rfl ⟨filled,row,kept⟩
      · cases ran

-- Where the ids are unique the conditions on PKey in the fast path say nothing more.
theorem partitioned_simulated (workers : (db.worker.map WorkerRow.workerID).Nodup) (tasks : (db.task.map TaskRow.taskID).Nodup)
    (ran : SelectPartitionedTaskWorker.run choice pkey db = some (success,after)) :
    Assignable db ∧ ∃ other, SelectTaskWorker.run other db = some (success,after) := by
  rcases SelectPartitionedTaskWorker.run_cases ran with ⟨failed,_⟩ | ⟨task,row,taskFound,found,fit,_,rfl⟩
  · exact absurd rfl failed
  · have kept : task ∈ db.task ∧ task.pkey = pkey := by simpa using limitOne_mem taskFound
    obtain ⟨member,here,capacity⟩ := selectWorker_some found
    refine ⟨⟨List.ne_nil_of_mem kept.1,row,member,capacity⟩,?_⟩
    have available : row ∈ db.worker.filter fun row => decide (0 < row.capacity) := by simp [member,capacity]
    obtain ⟨i,workerChosen⟩ := limitOne_complete available
    obtain ⟨j,taskChosen⟩ := limitOne_complete kept.1
    refine ⟨{worker:=i,task:=j},?_⟩
    have nextTask : SelectTaskWorker.selectTask {worker:=i,task:=j} db = some task := taskChosen
    have nextWorker : SelectTaskWorker.selectWorker {worker:=i,task:=j} db = some row := workerChosen
    have sameWorker : ∀ old ∈ db.worker, (old.workerID == row.workerID) = ofWorker row.pkey row.workerID old := by
      intro old present
      rw [Bool.eq_iff_iff,ofWorker_iff,beq_iff_eq]
      exact ⟨fun same => by rw [key_unique workers present member same]; exact ⟨rfl,rfl⟩,And.right⟩
    have sameTask : ∀ old ∈ db.task, (old.taskID == task.taskID) = (old.pkey == pkey && old.taskID == task.taskID) := by
      intro old present
      rw [Bool.eq_iff_iff,Bool.and_eq_true,beq_iff_eq,beq_iff_eq]
      exact ⟨fun same => by rw [key_unique tasks present kept.1 same]; exact ⟨kept.2,rfl⟩,And.right⟩
    rw [SelectTaskWorker.run_found nextTask nextWorker,if_pos fit,update_agrees _ sameWorker,update_agrees _ sameTask]
    rfl

theorem fallback_refined (choose : Nat → Choice)
    (healthy : none ∉ replies invoke db PartitionedFIFOTaskScheduler.fallback choose) :
    Refined db (drive invoke db PartitionedFIFOTaskScheduler.fallback choose) := by
  cases served : invoke db ⟨.selectTaskWorker,[]⟩ (choose 0) with
  | mk after response =>
    rcases invoke_cases .selectTaskWorker rfl served with ⟨rfl,_⟩ | ⟨answer,rfl,committed⟩
    · simp [PartitionedFIFOTaskScheduler.fallback,replies,served] at healthy
    · obtain ⟨result,ran,rfl⟩ := reply_some committed
      have ended : drive invoke db PartitionedFIFOTaskScheduler.fallback choose = (after,some (result == success)) := by
        simp [PartitionedFIFOTaskScheduler.fallback,drive,served,getInt64]
      rw [ended]
      have verdict := selectTaskWorker_success ran
      refine ⟨by simpa using verdict,fun done => ?_,fun failed => ?_⟩
      · have same : result = success := by simpa using done
        exact ⟨choose 0,same ▸ ran⟩
      · have other : result ≠ success := by simpa using failed
        rcases SelectTaskWorker.run_cases ran with ⟨_,rfl⟩ | ⟨_,_,_,_,_,done,_⟩
        · simp [other]
        · exact absurd done other

-- Every exit of the loop: a success in one partition, no worker, no partition left.
theorem probes_refined (workers : (db.worker.map WorkerRow.workerID).Nodup) (tasks : (db.task.map TaskRow.taskID).Nodup)
    (n : Nat) (counts : List Nat) (pkey : Nat) (choose : Nat → Choice)
    (healthy : none ∉ replies invoke db (PartitionedFIFOTaskScheduler.probes n counts pkey) choose) :
    Refined db (drive invoke db (PartitionedFIFOTaskScheduler.probes n counts pkey) choose) := by
  induction counts generalizing pkey choose with
  | nil => exact fallback_refined choose healthy
  | cons count counts ih =>
    cases served : invoke db ⟨.selectPartitionedTaskWorker,[.int pkey]⟩ (choose 0) with
    | mk after response =>
      rcases invoke_cases (.selectPartitionedTaskWorker pkey) rfl served with ⟨rfl,_⟩ | ⟨answer,rfl,committed⟩
      · simp [PartitionedFIFOTaskScheduler.probes,replies,served] at healthy
      · obtain ⟨result,ran,rfl⟩ := reply_some committed
        by_cases done : result = success
        · subst done
          obtain ⟨assignable,simulated⟩ := partitioned_simulated workers tasks ran
          simp only [PartitionedFIFOTaskScheduler.probes,drive,served,getInt64,if_true]
          exact ⟨iff_of_true rfl assignable,fun _ => simulated,fun failed => absurd rfl failed⟩
        · rcases SelectPartitionedTaskWorker.run_cases ran with ⟨_,rfl⟩ | ⟨_,_,_,_,_,same,_⟩
          · by_cases leaves : result = noWorker
            · simp only [PartitionedFIFOTaskScheduler.probes,drive,replies,served,getInt64,leaves,if_true,List.mem_cons,
                not_or] at healthy ⊢
              exact fallback_refined _ healthy.2
            · simp only [PartitionedFIFOTaskScheduler.probes,drive,replies,served,getInt64,done,leaves,if_false,
                List.mem_cons,not_or] at healthy ⊢
              exact ih _ _ healthy.2
          · exact absurd same done

theorem fast_path_refines (cfg : Config) (partitions : 1 ≤ cfg.partitions) (workers : 1 ≤ cfg.numWorkers)
    (tasks : 1 ≤ cfg.numTasks) (db : Database) (workerIDs : (db.worker.map WorkerRow.workerID).Nodup)
    (taskIDs : (db.task.map TaskRow.taskID).Nodup) (rand : Nat) (single : Bool) (choose : Nat → Choice)
    (healthy : none ∉ replies invoke db (PartitionedFIFOTaskScheduler.selectTaskWorker cfg rand single) choose) :
    Refined db (drive invoke db (PartitionedFIFOTaskScheduler.selectTaskWorker cfg rand single) choose) ∧
      ∀ choice result after, SelectTaskWorker.run choice db = some (result,after) →
        ((drive invoke db (PartitionedFIFOTaskScheduler.selectTaskWorker cfg rand single) choose).2 = some true ↔
          result = success) := by
  have active : min cfg.partitions (max cfg.numWorkers cfg.numTasks) ≠ 0 := by omega
  have refined : Refined db (drive invoke db (PartitionedFIFOTaskScheduler.selectTaskWorker cfg rand single) choose) := by
    simp only [PartitionedFIFOTaskScheduler.selectTaskWorker,randBelow,active,if_false] at healthy ⊢
    cases single with
    | true => exact probes_refined workerIDs taskIDs _ _ _ choose healthy
    | false => exact fallback_refined choose healthy
  exact ⟨refined,fun choice result after ran => refined.assigns.trans (selectTaskWorker_success ran).symm⟩

-- The task and the worker are in different partitions: the loop leaves at the second
-- one, and the fallback joins the two.
def apart : Database := {Database.empty with worker:=[⟨0,1,0,0,""⟩],task:=[⟨1,-1,1,1⟩]}

theorem fast_path_refines_apart :
    (drive invoke apart (PartitionedFIFOTaskScheduler.selectTaskWorker ⟨2,2,1,1⟩ 0 true) fun _ => {}).2 = some true ∧
      Refined apart (drive invoke apart (PartitionedFIFOTaskScheduler.selectTaskWorker ⟨2,2,1,1⟩ 0 true) fun _ => {}) := by
  refine ⟨by decide +kernel,(fast_path_refines ⟨2,2,1,1⟩ (by decide) (by decide) (by decide) apart (by decide) (by decide)
    0 true (fun _ => {}) (by decide +kernel)).1⟩

end DbosScheduler.FifoTask
