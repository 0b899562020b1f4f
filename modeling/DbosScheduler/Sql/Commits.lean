import DbosScheduler.Lib.Machine
import DbosScheduler.Sql.Ledger

namespace DbosScheduler.Sql
open Machine Table

-- The database as all its clients share it: anybody may commit any call with any
-- arguments at any time. An aborted call leaves no trace and is no step.
def commit : Advance Database (Call × Choice) (Call × Reply)
  | db,(call,choice) => (call.run choice db).map fun result => (result.2,[(call,result.1)])

-- The column types of the Worker table.
def Typed (db : Database) : Prop := ∀ row ∈ db.worker, row.legal = true

-- The rows that a registration adds to the two tables of the workers.
def Call.registration : Call → Option WorkerRow
  | .insertWorker workerID capacity pkey url => some ⟨workerID,capacity,0,pkey,url⟩
  | .insertSparkWorker workerID capacity workerData pkey url => some ⟨workerID,capacity,workerData,pkey,url⟩
  | _ => none

def Call.location : Call → List DataLocationRow
  | .insertSparkWorker _ _ workerData pkey _ => [⟨workerData,pkey⟩]
  | _ => []

-- The value that a statement writes into a Capacity column: one less than what
-- some row with capacity left had, or one more than what some row had. The row
-- that is read need not be the row that is written.
def Booked (db : Database) (value : Int) : Prop :=
  ∃ row ∈ db.worker, (0 < row.capacity ∧ value = row.capacity - 1) ∨
    (integer (row.capacity + 1) = true ∧ value = row.capacity + 1)

inductive WorkerChange (call : Call) (db : Database) : List WorkerRow → List DataLocationRow → Prop where
  | same : call.registration = none → WorkerChange call db db.worker db.dataLocation
  | emptied : call = .truncateWorkerTable → WorkerChange call db [] []
  | added : call.registration = some row → row.legal = true →
      WorkerChange call db (db.worker ++ [row]) (db.dataLocation ++ call.location)
  | rewritten {selects : WorkerRow → Bool} {value : WorkerRow → Int} : call.registration = none →
      (∀ row ∈ db.worker, selects row = true → Booked db (value row)) →
      WorkerChange call db (update selects (fun row => {row with capacity:=value row}) db.worker) db.dataLocation

inductive MessageChange (call : Call) (db : Database) (answer : Reply) : List MessageRow → Prop where
  | same : (∀ row : MessageRow, call ≠ .sendMessage row.receiverID row.senderID row.messageID row.data) →
      (∀ receiverID, call ≠ .receiveMessage receiverID) → MessageChange call db answer db.message
  | sent {row : MessageRow} : call = .sendMessage row.receiverID row.senderID row.messageID row.data →
      MessageChange call db answer (db.message ++ [row])
  | received {receiverID : Int} {rows : List MessageRow} : call = .receiveMessage receiverID →
      rows.Perm (db.message.filter fun row => row.receiverID == receiverID) →
      answer = .messages (rows.map fun row => (row.senderID,row.messageID,row.data)) →
      MessageChange call db answer (db.message.filter fun row => !(row.receiverID == receiverID))

-- What a committed call did to the tables whose rows several procedures write.
structure Effect (call : Call) (db : Database) (answer : Reply) (after : Database) : Prop where
  worker : WorkerChange call db after.worker after.dataLocation
  message : MessageChange call db answer after.message

variable {db after : Database} {call : Call} {choice : Choice} {answer : Reply}

theorem insertMessage_some {row : MessageRow} (inserted : db.insertMessage row = some after) :
    after = {db with message:=db.message ++ [row]} := by
  unfold Database.insertMessage at inserted
  split at inserted
  · exact (Option.some.inj inserted).symm
  · cases inserted

-- The two procedures that write messages; no other touches the Message table.
def Call.mails : Call → Bool
  | .sendMessage _ _ _ _ | .receiveMessage _ => true
  | _ => false

theorem unmailed (silent : call.mails = false) : MessageChange call db answer db.message := by
  refine .same ?_ ?_
  · intro row is
    rw [is] at silent
    cases silent
  · intro receiverID is
    rw [is] at silent
    cases silent

-- The statements that take one unit from a row that was read.
theorem booked_charge (member : row ∈ db.worker) (capacity : 0 < row.capacity) : Booked db (row.capacity - 1) :=
  ⟨row,member,.inl ⟨capacity,rfl⟩⟩

theorem charged (free : Free db pkey row) (unregistered : call.registration = none) :
    WorkerChange call db (db.charge row).worker db.dataLocation :=
  .rewritten unregistered fun _ _ _ => booked_charge free.1 free.2.2

theorem run_effect (ran : call.run choice db = some (answer,after)) : Effect call db answer after := by
  cases call with
  | insertTask taskID workerID state pkey =>
    obtain ⟨_,inserted,_⟩ := reply_some ran
    obtain ⟨middle,added,ended⟩ := Option.bind_eq_some_iff.mp inserted
    cases ended
    obtain ⟨_,rfl⟩ := insertTask_some added
    exact ⟨.same rfl,unmailed rfl⟩
  | insertWorker workerID capacity pkey url =>
    obtain ⟨_,inserted,_⟩ := reply_some ran
    obtain ⟨middle,added,ended⟩ := Option.bind_eq_some_iff.mp inserted
    cases ended
    obtain ⟨legal,rfl⟩ := insertWorker_some added
    refine ⟨?_,unmailed rfl⟩
    have change : WorkerChange (.insertWorker workerID capacity pkey url) db _ _ := .added rfl legal
    simpa [Call.location] using change
  | insertSparkWorker workerID capacity workerData pkey url =>
    obtain ⟨_,inserted,_⟩ := reply_some ran
    obtain ⟨middle,added,inserted⟩ := Option.bind_eq_some_iff.mp inserted
    obtain ⟨final,located,ended⟩ := Option.bind_eq_some_iff.mp inserted
    cases ended
    obtain ⟨legal,rfl⟩ := insertWorker_some added
    rw [insertData_some located]
    exact ⟨.added rfl legal,unmailed rfl⟩
  | selectTaskWorker =>
    obtain ⟨_,chosen,_⟩ := reply_some ran
    rcases SelectTaskWorker.run_cases chosen with ⟨_,rfl⟩ | ⟨_,row,_,found,_,_,rfl⟩
    · exact ⟨.same rfl,unmailed rfl⟩
    · have kept : row ∈ db.worker ∧ 0 < row.capacity := by simpa using limitOne_mem found
      exact ⟨.rewritten rfl fun _ _ _ => booked_charge kept.1 kept.2,unmailed rfl⟩
  | selectWorker pkey =>
    obtain ⟨_,chosen,_⟩ := reply_some ran
    rcases SelectWorker.run_cases chosen with ⟨_,rfl,_⟩ | ⟨row,free,_,rfl⟩
    · exact ⟨.same rfl,unmailed rfl⟩
    · exact ⟨charged free rfl,unmailed rfl⟩
  | selectOrderedWorker pkey taskID =>
    obtain ⟨_,chosen,_⟩ := reply_some ran
    rcases SelectOrderedWorker.run_cases chosen with ⟨_,rfl,_⟩ | ⟨row,free,_,_,_,rfl⟩
    · exact ⟨.same rfl,unmailed rfl⟩
    · exact ⟨charged free rfl,unmailed rfl⟩
  | selectPartitionedTaskWorker pkey =>
    obtain ⟨_,chosen,_⟩ := reply_some ran
    rcases SelectPartitionedTaskWorker.run_cases chosen with ⟨_,rfl⟩ | ⟨_,row,_,found,_,_,rfl⟩
    · exact ⟨.same rfl,unmailed rfl⟩
    · exact ⟨charged (selectWorker_some found) rfl,unmailed rfl⟩
  | selectSinglePartitionedTaskWorker pkey taskID =>
    obtain ⟨_,chosen,_⟩ := reply_some ran
    rcases SelectSinglePartitionedTaskWorker.run_cases chosen with ⟨_,rfl,_⟩ | ⟨row,free,_,_,rfl⟩
    · exact ⟨.same rfl,unmailed rfl⟩
    · exact ⟨charged free rfl,unmailed rfl⟩
  | selectSparkWorker pkey targetData =>
    obtain ⟨_,chosen,_⟩ := reply_some ran
    rcases SelectSparkWorker.run_cases chosen with ⟨_,_,rfl⟩ | ⟨row,_,free,_,_,rfl⟩
    · exact ⟨.same rfl,unmailed rfl⟩
    · exact ⟨charged free rfl,unmailed rfl⟩
  | truncateTaskTable =>
    cases ran
    exact ⟨.same rfl,unmailed rfl⟩
  | truncateWorkerTable =>
    cases ran
    exact ⟨.emptied rfl,unmailed rfl⟩
  | finishWorkerTask workerID taskID pkey =>
    obtain ⟨_,chosen,_⟩ := reply_some ran
    rcases FinishWorkerTask.run_cases chosen with ⟨_,rfl,_⟩ | ⟨row,member,_,bounded,_,same⟩
    · exact ⟨.same rfl,unmailed rfl⟩
    · rw [same]
      exact ⟨.rewritten rfl fun _ _ _ => ⟨row,member,.inr ⟨bounded,rfl⟩⟩,unmailed rfl⟩
  | scanPartitionedTaskWorker pkey =>
    obtain ⟨_,chosen,_⟩ := reply_some ran
    unfold ScanPartitionedTaskWorker.run at chosen
    split at chosen <;> cases chosen <;> exact ⟨.same rfl,unmailed rfl⟩
  | scanTaskWorker =>
    obtain ⟨_,chosen,_⟩ := reply_some ran
    unfold ScanTaskWorker.run at chosen
    split at chosen <;> cases chosen <;> exact ⟨.same rfl,unmailed rfl⟩
  | workerSelectTask pkey workerID topk =>
    obtain ⟨_,chosen,_⟩ := reply_some ran
    obtain ⟨_,_,_,_,_,rfl⟩ := WorkerSelectTask.run_some chosen
    exact ⟨.same rfl,unmailed rfl⟩
  | workerUpdateTask pkey workerID taskID taskState =>
    obtain ⟨_,chosen,_⟩ := reply_some ran
    rcases WorkerUpdateTask.run_cases chosen with ⟨_,same⟩ | ⟨_,bounded,same⟩
    · rw [same]
      exact ⟨.same rfl,unmailed rfl⟩
    · rw [same]
      exact ⟨.rewritten rfl fun row member mine => ⟨row,member,.inr ⟨bounded row member mine,rfl⟩⟩,unmailed rfl⟩
  | pushTask pkey taskID =>
    obtain ⟨_,chosen,_⟩ := reply_some ran
    rcases PushTask.run_cases chosen with ⟨_,rfl,_⟩ | ⟨row,free,_,_,rfl⟩
    · exact ⟨.same rfl,unmailed rfl⟩
    · exact ⟨charged free rfl,unmailed rfl⟩
  | selectDataShardPartition dataShard =>
    cases ran
    exact ⟨.same rfl,unmailed rfl⟩
  | sendMessage receiverID senderID messageID data =>
    obtain ⟨_,chosen,_⟩ := reply_some ran
    obtain ⟨middle,added,ended⟩ := Option.bind_eq_some_iff.mp chosen
    cases ended
    rw [insertMessage_some added]
    exact ⟨.same rfl,.sent rfl⟩
  | receiveMessage receiverID =>
    obtain ⟨_,chosen,rfl⟩ := reply_some ran
    obtain ⟨rows,all,rfl,rfl⟩ := ReceiveMessage.run_some chosen
    exact ⟨.same rfl,.received rfl all rfl⟩
  | broadcastMessage msg =>
    obtain ⟨_,chosen,_⟩ := reply_some ran
    unfold BroadcastMessage.run at chosen
    split at chosen <;> cases chosen
    exact ⟨.same rfl,unmailed rfl⟩

theorem WorkerChange.keys {rows : List WorkerRow} (change : WorkerChange call db rows places)
    (unregistered : call.registration = none) :
    rows.map WorkerRow.key = db.worker.map WorkerRow.key ∨ (call = .truncateWorkerTable ∧ rows = []) := by
  cases change with
  | same => exact .inl rfl
  | emptied named => exact .inr ⟨named,rfl⟩
  | added registered =>
    rw [unregistered] at registered
    cases registered
  | rewritten => exact .inl (map_update WorkerRow.key (by intro row _; rfl) _)

theorem WorkerChange.typed {rows : List WorkerRow} (change : WorkerChange call db rows places) (typed : Typed db) :
    ∀ row ∈ rows, row.legal = true := by
  cases change with
  | same => exact typed
  | emptied => simp
  | added _ legal =>
    intro row member
    rcases List.mem_append.mp member with old | new
    · exact typed row old
    · exact List.mem_singleton.mp new ▸ legal
  | rewritten _ booked =>
    intro row member
    obtain ⟨old,present,rfl⟩ := mem_update.mp member
    have legal := typed old present
    split
    · rename_i hit
      obtain ⟨source,there,given⟩ := booked old present hit
      have bounds := typed source there
      simp only [WorkerRow.legal,Bool.and_eq_true] at legal bounds ⊢
      refine ⟨⟨⟨⟨legal.1.1.1.1,?_⟩,legal.1.1.2⟩,legal.1.2⟩,legal.2⟩
      rcases given with ⟨capacity,value⟩ | ⟨bounded,value⟩
      · have range := bounds.1.1.1.2
        simp only [integer,Bool.and_eq_true,decide_eq_true_eq] at range ⊢
        omega
      · rw [value]
        exact bounded
    · exact legal

-- Nobody can book a negative value, so no row ever holds one: neither uniqueness
-- of the ids nor agreement between the rows of one worker plays a part.
theorem WorkerChange.nonNegative {rows : List WorkerRow} (change : WorkerChange call db rows places)
    (sound : NonNegative db) (legal : ∀ row, call.registration = some row → 0 ≤ row.capacity) :
    ∀ row ∈ rows, 0 ≤ row.capacity := by
  cases change with
  | same => exact sound
  | emptied => simp
  | added registered =>
    intro row member
    rcases List.mem_append.mp member with old | new
    · exact sound row old
    · rw [List.mem_singleton.mp new]
      exact legal _ registered
  | rewritten _ booked =>
    intro row member
    obtain ⟨old,present,rfl⟩ := mem_update.mp member
    split
    · rename_i hit
      obtain ⟨source,there,given⟩ := booked old present hit
      have low := sound source there
      rcases given with ⟨capacity,value⟩ | ⟨_,value⟩
      · simp only [value]
        omega
      · simp only [value]
        omega
    · exact sound old present

-- When the scheduling procedures commit: on tables that hold what their columns can
-- hold, and with a task id that is a legal INTEGER and not in use.
section Committing
variable {pkey taskID : Int} {row : WorkerRow}

def Unused (db : Database) (taskID : Int) : Prop := ∀ row ∈ db.task, row.taskID ≠ taskID

theorem Typed.parts (typed : Typed db) (member : row ∈ db.worker) : integer row.workerID = true ∧
    integer row.capacity = true ∧ integer row.pkey = true ∧ varchar 512 row.url = true := by
  have legal := typed row member
  simp only [WorkerRow.legal,Bool.and_eq_true] at legal
  exact ⟨legal.1.1.1.1,legal.1.1.1.2,legal.1.2,legal.2⟩

theorem Typed.charge (typed : Typed db) (member : row ∈ db.worker) (capacity : 0 < row.capacity) :
    integer (row.capacity - 1) = true := by
  have range := (typed.parts member).2.1
  simp only [integer,Bool.and_eq_true,decide_eq_true_eq] at range ⊢
  omega

-- The insert and the update of the three procedures that record the task they place.
theorem assign_commits (typed : Typed db) (free : Free db pkey row) (legal : integer taskID = true)
    (coded : integer state = true) (unused : Unused db taskID) : ∃ middle,
    db.insertTask ⟨taskID,row.workerID,state,pkey⟩ = some middle ∧
      middle.updateCapacity (row.capacity - 1) pkey row.workerID = some (db.assign taskID state row) := by
  obtain ⟨member,rfl,capacity⟩ := free
  obtain ⟨named,_,placed,_⟩ := typed.parts member
  have apart : (db.task.any fun old => old.pkey == row.pkey && old.taskID == taskID) = false := by
    rw [List.any_eq_false]
    intro old present same
    simp only [Bool.and_eq_true,beq_iff_eq] at same
    exact unused old present same.2
  refine ⟨{db with task:=db.task ++ [⟨taskID,row.workerID,state,row.pkey⟩]},?_,?_⟩
  · simp [Database.insertTask,legal,named,coded,placed,apart]
  · simp [Database.updateCapacity,typed.charge member capacity,Database.assign,Database.charge]

theorem SelectWorker.commits (typed : Typed db) (choice : Choice) (pkey : Int) :
    ∃ result after, SelectWorker.run choice pkey db = some (result,after) := by
  unfold SelectWorker.run
  split
  · exact ⟨_,_,rfl⟩
  · rename_i row found
    obtain ⟨member,_,capacity⟩ := selectWorker_some found
    simp [Database.updateCapacity,typed.charge member capacity]

theorem SelectSinglePartitionedTaskWorker.commits (typed : Typed db) (legal : integer taskID = true)
    (unused : Unused db taskID) (choice : Choice) (pkey : Int) :
    ∃ result after, SelectSinglePartitionedTaskWorker.run choice pkey taskID db = some (result,after) := by
  unfold SelectSinglePartitionedTaskWorker.run
  split
  · exact ⟨_,_,rfl⟩
  · rename_i row found
    obtain ⟨middle,inserted,updated⟩ := assign_commits typed (selectWorker_some found) legal (by decide : integer 1 = true) unused
    simp [inserted,updated]

theorem SelectOrderedWorker.commits (typed : Typed db) (legal : integer taskID = true) (unused : Unused db taskID)
    (choice : Choice) (pkey : Int) : ∃ result after, SelectOrderedWorker.run choice pkey taskID db = some (result,after) := by
  unfold SelectOrderedWorker.run
  split
  · exact ⟨_,_,rfl⟩
  · rename_i row found
    have free : Free db pkey row := by simpa [Free] using (mem_largest.mp (limitOne_mem found)).1
    obtain ⟨middle,inserted,updated⟩ := assign_commits typed free legal (by decide : integer 1 = true) unused
    simp [inserted,updated]

theorem PushTask.commits (typed : Typed db) (legal : integer taskID = true) (unused : Unused db taskID)
    (choice : Choice) (pkey : Int) : ∃ result after, PushTask.run choice pkey taskID db = some (result,after) := by
  unfold PushTask.run
  split
  · exact ⟨_,_,rfl⟩
  · rename_i row found
    have free := selectWorker_some found
    obtain ⟨middle,inserted,updated⟩ := assign_commits typed free legal (by decide : integer 2 = true) unused
    obtain ⟨_,_,placed,sized⟩ := typed.parts free.1
    rw [free.2.1] at placed
    simp [inserted,updated,Database.insertTaskAssign,legal,placed,sized]

end Committing

theorem commit_some {action : Call × Choice} (stepped : commit db action = some (after,seen)) :
    ∃ answer, action.1.run action.2 db = some (answer,after) ∧ seen = [(action.1,answer)] := by
  simp only [commit,Option.map_eq_some_iff] at stepped
  obtain ⟨⟨answer,next⟩,ran,same⟩ := stepped
  cases same
  exact ⟨answer,ran,rfl⟩

theorem capacity_never_negative {moves : List (Move Database (Call × Choice) (Call × Reply))} {last : Database}
    (path : Runs commit db moves last) (empty : db.worker = [])
    (funded : ∀ move ∈ moves, ∀ row, move.action.1.registration = some row → 0 ≤ row.capacity) :
    NonNegative last := by
  refine path.guarded NonNegative (fun _ action => ∀ row, action.1.registration = some row → 0 ≤ row.capacity)
    funded (by simp [NonNegative,empty]) ?_
  intro s action next seen sound legal stepped
  obtain ⟨answer,ran,_⟩ := commit_some stepped
  exact (run_effect ran).worker.nonNegative sound legal

-- Two rows of one worker with different capacities and a completion that repeats.
theorem capacity_never_negative_shared : ∃ moves last, Runs commit Database.empty moves last ∧
    last.worker.map WorkerRow.capacity = [2,2] ∧ NonNegative last := by
  obtain ⟨moves,last,path,checked⟩ := run_reaches commit Database.empty
    (fun moves last => decide (last.worker.map WorkerRow.capacity = [2,2]) &&
      moves.all fun move => move.action.1.registration.all fun (row : WorkerRow) => decide (0 ≤ row.capacity))
    [(.insertWorker 4 1 0 "",{}),(.insertWorker 4 3 0 "",{}),(.selectWorker 0,{}),(.finishWorkerTask 4 9 0,{}),
      (.finishWorkerTask 4 9 0,{})] (by decide)
  rw [Bool.and_eq_true] at checked
  refine ⟨moves,last,path,of_decide_eq_true checked.1,capacity_never_negative path rfl ?_⟩
  intro move member row registered
  have funded := List.all_eq_true.mp checked.2 move member
  rw [registered] at funded
  exact of_decide_eq_true funded

end DbosScheduler.Sql
