import DbosScheduler.Lib.Slots
import DbosScheduler.Worker.Shutdown

namespace DbosScheduler.Worker
open Sql Table

-- How far the threads of a worker are from having nothing in hand. A task costs less with
-- every hand-over, from the batch over the queue and an executor to its report.
def Dispatcher.load : Dispatcher → Nat
  | .pushing rows => 9 * rows.length + 1
  | .counting rows => 9 * rows.length + 2
  | .polling | .stopped => 0

def Executor.load : Executor → Nat
  | .executing _ => 4
  | .reported => 2
  | .finished => 1
  | .waiting | .stopped => 0

def PollWorker.load (w : PollWorker) : Nat :=
  w.dispatcher.load + 5 * w.taskQueue.length + Slots.load Executor.load w.executors

-- A worker that nobody has told to stop, and whose process lives.
structure Up (w : PollWorker) : Prop where
  stopDispatch : w.stopDispatch = false
  stop : w.stop = false
  aborted : w.aborted = false

-- The threads that were started are there, unless they were told to stop.
structure Manned (me : Identity) (w : PollWorker) : Prop where
  executors : w.executors.length = me.numExecutors
  dispatcher : w.dispatcher = .stopped → w.stopDispatch = true
  stopped : .stopped ∈ w.executors → w.stop = true

def pendingTasks (db : Database) : Nat := db.task.countP fun task => task.state == pending

variable {me : Identity} {past seen : List Event} {db after : Database} {w next : PollWorker}

theorem start_manned (me : Identity) : Manned me (PollWorker.start me) := by
  refine ⟨List.length_replicate,by simp [PollWorker.start],?_⟩
  intro member
  cases List.eq_of_mem_replicate member

-- endServing only ever raises the two flags.
theorem endServing_flags (stepped : endServing w = some next) :
    (w.stopDispatch = true → next.stopDispatch = true) ∧ (w.stop = true → next.stop = true) := by
  unfold endServing at stepped
  split at stepped
  · cases stepped
  · split at stepped
    · cases stepped
      exact ⟨fun _ => rfl,id⟩
    · split at stepped <;> cases stepped
      exact ⟨id,id⟩
    · split at stepped <;> cases stepped
      exact ⟨id,id⟩
    · cases stepped
      exact ⟨id,fun _ => rfl⟩
    · split at stepped <;> cases stepped
      exact ⟨id,id⟩
    · cases stepped

theorem Manned.executor (manned : Manned me w) (execId : Nat) (new : Executor)
    (told : new = .stopped → w.stop = true) : Manned me (w.setExecutor execId new) := by
  refine ⟨by rw [← manned.executors]; exact List.length_set,manned.dispatcher,?_⟩
  intro member
  rcases List.mem_or_eq_of_mem_set member with there | rfl
  · exact manned.stopped there
  · exact told rfl

theorem Manned.step (manned : Manned me w) (moves : Moves w next seen) : Manned me next := by
  cases moves with
  | returned | failed | pushed | counted => exact ⟨manned.executors,by simp,manned.stopped⟩
  | tested =>
    refine ⟨manned.executors,?_,manned.stopped⟩
    intro stopped
    by_contra up
    simp [up] at stopped
  | @popped execId taskId rest =>
    have same : Manned me {w with taskQueue:=rest} := ⟨manned.executors,manned.dispatcher,manned.stopped⟩
    exact same.executor execId (.executing taskId) (by simp)
  | aborted => exact ⟨manned.executors,manned.dispatcher,manned.stopped⟩
  | reported => exact manned.executor _ .reported (by simp)
  | @finished execId =>
    have same : Manned me {w with totalFinishedTasks:=w.totalFinishedTasks+1} :=
      ⟨manned.executors,manned.dispatcher,manned.stopped⟩
    exact same.executor execId .finished (by simp)
  | looped =>
    apply manned.executor
    intro stopped
    by_contra up
    simp [up] at stopped
  | ending stepped =>
    obtain ⟨dispatcher,_,executors⟩ := endServing_frame stepped
    obtain ⟨first,second⟩ := endServing_flags stepped
    refine ⟨executors ▸ manned.executors,?_,?_⟩
    · intro stopped
      exact first (manned.dispatcher (dispatcher ▸ stopped))
    · intro member
      exact second (manned.stopped (executors ▸ member))

-- A hand-out takes its rows from the pending ones, and a completion from the running ones.
theorem pendingTasks_handOut {picked : List TaskRow} (keyed : Keyed db)
    (within : picked.Subperm (db.task.filter (pendingOf pkey workerID))) :
    pendingTasks {db with task:=markRunning pkey workerID (picked.map TaskRow.taskID) db.task} + picked.length = pendingTasks db := by
  have hits (row : TaskRow) : row ∈ db.task.filter (marked pkey workerID (picked.map TaskRow.taskID)) ↔ row ∈ picked := by
    rw [List.mem_filter]
    constructor
    · intro both
      exact (marked_pending keyed.task both.1 within both.2).1
    · intro chosen
      obtain ⟨member,waiting⟩ := List.mem_filter.mp (within.subset chosen)
      simp only [pendingOf,Bool.and_eq_true,beq_iff_eq] at waiting
      exact ⟨member,marked_iff.mpr ⟨waiting.1.1,waiting.1.2,List.mem_map_of_mem chosen⟩⟩
  have size : db.task.countP (marked pkey workerID (picked.map TaskRow.taskID)) = picked.length := by
    rw [List.countP_eq_length_filter]
    apply List.Perm.length_eq
    rw [List.perm_ext_iff_of_nodup (keyed.task.of_map.filter _) (picked_ids_nodup keyed.task within).of_map]
    exact hits
  rw [← size]
  apply countP_update_out
  · intro row member hit
    exact beq_iff_eq.mpr (marked_pending keyed.task member within hit).2
  · intro row _ _
    rfl

theorem pendingTasks_finish (keyed : Keyed db) (present : ⟨taskID,workerID,running,pkey⟩ ∈ db.task) :
    pendingTasks (db.finish pkey workerID taskID) = pendingTasks db := by
  apply countP_update
  intro row member hit
  have same : row = ⟨taskID,workerID,running,pkey⟩ := by
    obtain ⟨here,named,owner⟩ := completed_iff.mp hit
    exact key_unique keyed.task member present (by simp [TaskRow.key,here,named])
  rw [same]
  rfl

theorem load_setExecutor {old : Executor} (now : w.executors[execId]? = some old) (new : Executor) :
    (w.setExecutor execId new).load + old.load = w.load + new.load := by
  have moved := Slots.load_set Executor.load now new
  simp only [PollWorker.load,PollWorker.setExecutor]
  omega

-- A worker with no load waits for its next poll, and has nothing in hand.
theorem idle_worker (idle : w.load = 0) : (w.dispatcher ≠ .stopped → w.dispatcher = .polling) ∧
    w.dispatcher.rows ++ w.taskQueue ++ w.held = [] := by
  simp only [PollWorker.load] at idle
  have queue : w.taskQueue = [] := List.length_eq_zero_iff.mp (by omega)
  have held : w.held = [] := by
    apply List.filterMap_eq_nil_iff.mpr
    intro executor member
    have zero : executor.load = 0 := by
      have none_ : (w.executors.map Executor.load).sum = 0 := by
        simp only [Slots.load] at idle
        omega
      exact List.sum_eq_zero_iff_forall_eq_nat.mp none_ _ (List.mem_map_of_mem member)
    cases executor with
    | executing => cases zero
    | waiting | reported | finished | stopped => rfl
  cases at_ : w.dispatcher with
  | pushing rows => simp [at_,Dispatcher.load] at idle
  | counting rows => simp [at_,Dispatcher.load] at idle
  | polling => simp [queue,held,Dispatcher.rows]
  | stopped => simp [queue,held,Dispatcher.rows]

-- Where the dispatcher has nothing but to poll, the load is with the executors or in their queue.
theorem idle_dispatcher (manned : Manned me w) (staffed : 0 < me.numExecutors) (polling : w.dispatcher = .polling)
    (busy : 0 < w.load) : ∃ (execId : Nat) (old : Executor), w.executors[execId]? = some old ∧ (old ≠ .waiting ∨ w.taskQueue ≠ []) := by
  by_cases queued : w.taskQueue = []
  · by_contra none_
    have waiting : ∀ executor ∈ w.executors, executor.load = 0 := by
      intro executor member
      obtain ⟨execId,now⟩ := List.getElem?_of_mem member
      by_contra loaded
      refine none_ ⟨execId,executor,now,.inl ?_⟩
      rintro rfl
      exact loaded rfl
    have zero := Slots.load_zero waiting
    simp [PollWorker.load,polling,queued,zero,Dispatcher.load] at busy
  · have first : 0 < w.executors.length := by rw [manned.executors]; exact staffed
    exact ⟨0,w.executors[0],List.getElem?_eq_getElem first,.inr queued⟩

-- Whatever the dispatcher is at, except for polling, it can do without the database.
theorem dispatcher_moves (up : Up w) (manned : Manned me w) (busy : w.dispatcher ≠ .polling) (db : Database) :
    ∃ next seen, dispatch me {} db w = some (db,next,seen) ∧ Up next ∧ next.load < w.load := by
  obtain ⟨stopDispatch,stop,aborted⟩ := up
  unfold dispatch
  rw [if_neg (by simp [aborted])]
  cases at_ : w.dispatcher with
  | polling => exact absurd at_ busy
  | stopped =>
    rw [manned.dispatcher at_] at stopDispatch
    cases stopDispatch
  | counting rows =>
    refine ⟨_,_,rfl,⟨stopDispatch,stop,aborted⟩,?_⟩
    simp only [PollWorker.load,Dispatcher.load,at_]
    omega
  | pushing rows =>
    cases rows with
    | nil =>
      refine ⟨_,_,rfl,⟨stopDispatch,stop,aborted⟩,?_⟩
      simp only [PollWorker.load,at_,stopDispatch,Bool.false_eq_true,if_false,Dispatcher.load]
      omega
    | cons taskId rows =>
      refine ⟨_,_,rfl,⟨stopDispatch,stop,aborted⟩,?_⟩
      simp only [PollWorker.load,at_,Dispatcher.load,List.length_append,List.length_cons,List.length_nil]
      omega

theorem executor_moves {old : Executor} (up : Up w) (manned : Manned me w) (now : w.executors[execId]? = some old)
    (busy : old ≠ .waiting ∨ w.taskQueue ≠ [])
    (commits : ∀ taskId, old = .executing taskId →
      ∃ after reply, invoke db (updateRequest me taskId) {} = (after,some reply) ∧ pendingTasks after = pendingTasks db) :
    ∃ after next seen, execute me execId {} db w = some (after,next,seen) ∧ Up next ∧ next.load < w.load ∧
      pendingTasks after = pendingTasks db := by
  obtain ⟨stopDispatch,stop,aborted⟩ := up
  cases old with
  | stopped =>
    rw [manned.stopped (List.mem_of_getElem? now)] at stop
    cases stop
  | waiting =>
    cases queued : w.taskQueue with
    | nil => simp [queued] at busy
    | cons taskId rest =>
      have stepped : execute me execId {} db w =
          some (db,{w with taskQueue:=rest}.setExecutor execId (.executing taskId),[.popped execId taskId]) := by
        simp [execute,aborted,now,stop,queued]
      refine ⟨_,_,_,stepped,⟨stopDispatch,stop,aborted⟩,?_,rfl⟩
      have moved : ({w with taskQueue:=rest}.setExecutor execId (.executing taskId)).load + 0 =
          ({w with taskQueue:=rest} : PollWorker).load + 4 := load_setExecutor (w:={w with taskQueue:=rest}) now _
      have shorter : w.load = ({w with taskQueue:=rest} : PollWorker).load + 5 := by
        simp only [PollWorker.load,queued,List.length_cons]
        omega
      omega
  | executing taskId =>
    obtain ⟨after,reply,ran,same⟩ := commits taskId rfl
    have stepped : execute me execId {} db w = some (after,w.setExecutor execId .reported,[.reported execId taskId]) := by
      simp [execute,aborted,now,ran]
    refine ⟨_,_,_,stepped,⟨stopDispatch,stop,aborted⟩,?_,same⟩
    have moved : (w.setExecutor execId .reported).load + 4 = w.load + 2 := load_setExecutor now _
    omega
  | reported =>
    have stepped : execute me execId {} db w =
        some (db,{w with totalFinishedTasks:=w.totalFinishedTasks+1}.setExecutor execId .finished,[]) := by
      simp [execute,aborted,now]
    refine ⟨_,_,_,stepped,⟨stopDispatch,stop,aborted⟩,?_,rfl⟩
    have moved : ({w with totalFinishedTasks:=w.totalFinishedTasks+1}.setExecutor execId .finished).load + 2 = w.load + 1 :=
      load_setExecutor now _
    omega
  | finished =>
    have stepped : execute me execId {} db w = some (db,w.setExecutor execId .waiting,[]) := by
      simp [execute,aborted,now,stop]
    refine ⟨_,_,_,stepped,⟨stopDispatch,stop,aborted⟩,?_,rfl⟩
    have moved : (w.setExecutor execId .waiting).load + 1 = w.load + 0 := load_setExecutor now _
    omega

-- A poll that finds pending rows takes them out of the database and into the worker, where
-- they cost less.
theorem poll_moves (up : Up w) (polling : w.dispatcher = .polling) (asking : 0 < me.topk) (keyed : Keyed db)
    (waits : ⟨taskID,me.workerId,pending,me.pkey⟩ ∈ db.task) :
    ∃ after next seen, dispatch me {} db w = some (after,next,seen) ∧ Up next ∧
      11 * pendingTasks after + next.load < 11 * pendingTasks db + w.load := by
  obtain ⟨stopDispatch,stop,aborted⟩ := up
  obtain ⟨⟨ids,after⟩,ran⟩ : ∃ result, WorkerSelectTask.run {} me.pkey me.workerId me.topk db = some result := by
    unfold WorkerSelectTask.run
    rw [if_neg (by omega)]
    exact ⟨_,rfl⟩
  obtain ⟨_,picked,within,count,rfl,rfl⟩ := WorkerSelectTask.run_some ran
  have fewer := pendingTasks_handOut keyed within
  have some_ : 0 < picked.length := by
    have member : ⟨taskID,me.workerId,pending,me.pkey⟩ ∈ db.task.filter (pendingOf me.pkey me.workerId) :=
      List.mem_filter.mpr ⟨waits,by simp [pendingOf]⟩
    have filled := List.length_pos_of_mem member
    omega
  have answered : invoke db (selectRequest me) {} = (_,some (.column (picked.map TaskRow.taskID))) :=
    invoke_ran (.workerSelectTask me.pkey me.workerId me.topk) rfl rfl (by simp [Call.run,reply,ran]; rfl)
  unfold dispatch
  rw [if_neg (by simp [aborted]),polling]
  simp only [answered]
  refine ⟨_,_,_,rfl,⟨stopDispatch,stop,aborted⟩,?_⟩
  simp only [PollWorker.load,polling,Dispatcher.load,List.length_map]
  omega

end DbosScheduler.Worker
