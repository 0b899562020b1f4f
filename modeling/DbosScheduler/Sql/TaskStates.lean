import DbosScheduler.Sql.Commits

namespace DbosScheduler.Sql
open Table

-- The procedures that move a task on: PENDING to RUNNING when a worker fetches it,
-- and to COMPLETE by one of two procedures that were written independently.
variable {db after : Database} {choice : Choice}

-- Only pending rows are picked, so the update, which does not look at the state, marks
-- no other row.
theorem markRunning_picked {picked : List TaskRow} (unique : (db.task.map TaskRow.key).Nodup)
    (within : picked.Subperm (db.task.filter (pendingOf pkey workerID))) :
    markRunning pkey workerID (picked.map TaskRow.taskID) db.task = db.task.map fun row =>
      if row.pkey = pkey ∧ row.workerID = workerID ∧ row.state = pending ∧ row.taskID ∈ picked.map TaskRow.taskID then
        {row with state:=running}
      else row := by
  apply List.map_congr_left
  intro row member
  cases hit : marked pkey workerID (picked.map TaskRow.taskID) row with
  | true =>
    obtain ⟨here,named,listed⟩ := marked_iff.mp hit
    have waiting := (marked_pending unique member within hit).2
    simp only [if_true]
    rw [if_pos ⟨here,named,waiting,listed⟩]
  | false =>
    have other : ¬(row.pkey = pkey ∧ row.workerID = workerID ∧ row.state = pending ∧
        row.taskID ∈ picked.map TaskRow.taskID) := by
      intro all
      have chosen := marked_iff.mpr ⟨all.1,all.2.1,all.2.2.2⟩
      rw [hit] at chosen
      cases chosen
    rw [if_neg other]
    rfl

theorem worker_select_batch (choice : Choice) (pkey workerID topk : Int) (db : Database) (enough : 0 ≤ topk)
    (unique : (db.task.map TaskRow.key).Nodup) : ∃ ids after,
    WorkerSelectTask.run choice pkey workerID topk db = some (ids,after) ∧ ids.Nodup ∧
      (ids.length : Int) = min topk (db.task.countP (pendingOf pkey workerID) : Nat) ∧
      (∀ taskID ∈ ids, ⟨taskID,workerID,pending,pkey⟩ ∈ db.task) ∧
      after = {db with task:=db.task.map fun row =>
        if row.pkey = pkey ∧ row.workerID = workerID ∧ row.state = pending ∧ row.taskID ∈ ids then
          {row with state:=running}
        else row} := by
  obtain ⟨ids,after,ran⟩ : ∃ ids after, WorkerSelectTask.run choice pkey workerID topk db = some (ids,after) := by
    unfold WorkerSelectTask.run
    rw [if_neg (by omega)]
    exact ⟨_,_,rfl⟩
  obtain ⟨_,picked,within,size,rfl,rfl⟩ := WorkerSelectTask.run_some ran
  refine ⟨_,_,ran,picked_ids_nodup unique within,?_,?_,?_⟩
  · rw [List.length_map,size,List.countP_eq_length_filter]
    omega
  · intro taskID listed
    obtain ⟨row,chosen,rfl⟩ := List.mem_map.mp listed
    obtain ⟨member,waiting⟩ := List.mem_filter.mp (within.subset chosen)
    simp only [pendingOf,Bool.and_eq_true,beq_iff_eq] at waiting
    have whole : row = ⟨row.taskID,workerID,pending,pkey⟩ := by
      rw [← waiting.1.1,← waiting.1.2,← show row.state = pending from waiting.2]
    rwa [← whole]
  · rw [markRunning_picked unique within]

-- Any batch of the right size can be the one: the choices leave no answer of LIMIT out.
theorem WorkerSelectTask.any_batch {picked : List TaskRow} (enough : 0 ≤ topk)
    (within : picked.Subperm (db.task.filter (pendingOf pkey workerID)))
    (size : picked.length = min topk.toNat (db.task.filter (pendingOf pkey workerID)).length) :
    ∃ rows after, WorkerSelectTask.run {choice with rows:=rows} pkey workerID topk db = some (picked.map TaskRow.taskID,after) := by
  obtain ⟨rows,produced⟩ := limit_complete picked within size
  have accepted : ¬topk < 0 := by omega
  simp only [WorkerSelectTask.run,accepted,if_false]
  rw [← produced]
  exact ⟨rows,_,rfl⟩

def twoPartitions : Database :=
  {Database.empty with task:=[⟨4,1,1,0⟩,⟨4,1,1,1⟩,⟨5,1,1,0⟩,⟨6,2,1,0⟩]}

theorem worker_select_batch_one : ∃ ids after,
    WorkerSelectTask.run {} 0 1 1 twoPartitions = some (ids,after) ∧ ids.Nodup ∧ (ids.length : Int) = 1 ∧
      after.task = [⟨4,1,2,0⟩,⟨4,1,1,1⟩,⟨5,1,1,0⟩,⟨6,2,1,0⟩] := by
  obtain ⟨ids,after,ran,distinct,size,_,_⟩ := worker_select_batch {} 0 1 1 twoPartitions (by decide) (by decide)
  refine ⟨ids,after,ran,distinct,size.trans (by decide),?_⟩
  cases ran
  decide

theorem FinishWorkerTask.run_found (found : FinishWorkerTask.getCapacity choice pkey workerID db = some row)
    (fits : integer (row.capacity + 1) = true) (real : taskID ≠ -1) :
    FinishWorkerTask.run choice workerID taskID pkey db = some (0,{db with
      worker:=setCapacity (row.capacity + 1) pkey workerID db.worker
      task:=(update (fun task => task.pkey == pkey && task.taskID == taskID) (fun task => {task with state:=3}) db.task)}) := by
  simp [FinishWorkerTask.run,found,Database.updateCapacity,fits,real,FinishWorkerTask.updateState]

theorem FinishWorkerTask.getCapacity_found (registered : ∃ row ∈ db.worker, row.key = (pkey,workerID)) :
    ∃ row, FinishWorkerTask.getCapacity choice pkey workerID db = some row := by
  obtain ⟨row,member,key⟩ := registered
  refine Option.ne_none_iff_exists'.mp fun nobody => ?_
  have empty := List.filter_eq_nil_iff.mp (limitOne_none.mp nobody) row member
  exact empty (ofWorker_iff.mpr (Prod.mk.inj key))

theorem setCapacity_level (level : ∀ other ∈ db.worker, ofWorker pkey workerID other = true → capacity = other.capacity) :
    setCapacity (capacity + 1) pkey workerID db.worker = (db.finish pkey workerID taskID).worker := by
  apply update_same
  intro other present hit
  rw [level other present hit]

theorem complete_assigned (assigned : ∀ task ∈ db.task, task.pkey = pkey → task.taskID = taskID → task.workerID = workerID) :
    update (fun task => task.pkey == pkey && task.taskID == taskID) (fun task => {task with state:=3}) db.task =
      (db.finish pkey workerID taskID).task := by
  apply update_agrees
  intro task present
  by_cases same : task.pkey = pkey ∧ task.taskID = taskID
  · simp [completed,same,assigned task present same.1 same.2]
  · simp [completed,same]

-- One procedure reads a row and writes the sum into all rows of the worker, the other
-- lets every row count for itself.
theorem completions_agree (choice : Choice) (pkey workerID taskID : Int) (db : Database) (typed : Typed db)
    (real : taskID ≠ -1) (registered : ∃ row ∈ db.worker, row.key = (pkey,workerID))
    (level : ∀ left ∈ db.worker, ∀ right ∈ db.worker, left.key = (pkey,workerID) → right.key = (pkey,workerID) →
      left.capacity = right.capacity)
    (below : ∀ row ∈ db.worker, row.key = (pkey,workerID) → row.capacity < 2147483647)
    (assigned : ∀ task ∈ db.task, task.pkey = pkey → task.taskID = taskID → task.workerID = workerID) :
    ∃ after, FinishWorkerTask.run choice workerID taskID pkey db = some (0,after) ∧
      WorkerUpdateTask.run pkey workerID taskID TaskState.complete.code db = some (0,after) := by
  have fits : ∀ row ∈ db.worker, row.key = (pkey,workerID) → integer (row.capacity + 1) = true := by
    intro row member mine
    have range := (typed.parts member).2.1
    have room := below row member mine
    simp only [integer,Bool.and_eq_true,decide_eq_true_eq] at range ⊢
    omega
  have mine : ∀ {row : WorkerRow}, ofWorker pkey workerID row = true → row.key = (pkey,workerID) := by
    intro row chosen
    obtain ⟨rfl,rfl⟩ := ofWorker_iff.mp chosen
    rfl
  obtain ⟨row,found⟩ : ∃ row, FinishWorkerTask.getCapacity choice pkey workerID db = some row :=
    FinishWorkerTask.getCapacity_found registered
  obtain ⟨member,chosen⟩ := List.mem_filter.mp (limitOne_mem found)
  have workers : setCapacity (row.capacity + 1) pkey workerID db.worker = (db.finish pkey workerID taskID).worker :=
    setCapacity_level fun other present hit => level row member other present (mine chosen) (mine hit)
  refine ⟨db.finish pkey workerID taskID,?_,?_⟩
  · rw [FinishWorkerTask.run_found found (fits row member (mine chosen)) real,workers,complete_assigned assigned]
    rfl
  · obtain ⟨⟨code,after⟩,ran⟩ := Option.isSome_iff_exists.mp (WorkerUpdateTask.commits.mpr fits)
    obtain ⟨rfl,rfl⟩ := finish_of_run ran
    exact ran

def twoShards : Database := {Database.empty with worker:=[⟨3,0,5,1,""⟩,⟨3,0,6,1,""⟩]}

theorem completions_agree_shards : ∃ after, FinishWorkerTask.run {} 3 8 1 twoShards = some (0,after) ∧
    WorkerUpdateTask.run 1 3 8 3 twoShards = some (0,after) ∧ after.worker = [⟨3,1,5,1,""⟩,⟨3,1,6,1,""⟩] := by
  have typed : Typed twoShards := by simp [Typed,twoShards,WorkerRow.legal,integer,varchar]
  obtain ⟨after,finished,updated⟩ := completions_agree {} 1 3 8 twoShards typed (by decide) (by decide) (by decide)
    (by decide) (by decide)
  refine ⟨after,finished,updated,?_⟩
  cases finished
  decide

end DbosScheduler.Sql
