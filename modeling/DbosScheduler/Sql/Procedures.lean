import Mathlib.Data.List.Dedup
import DbosScheduler.Sql.Schema

namespace DbosScheduler.Sql
open Table

-- Status codes of the procedures.
abbrev success : Int := 0
abbrev noTask : Int := -1
abbrev noWorker : Int := -2

-- A procedure call ends with its result and the tables after it. `none` is an
-- abort, after which the tables are as they were.

def InsertTask.run (taskID workerID state pkey : Int) (db : Database) : Option (Int × Database) := do
  let db ← db.insertTask ⟨taskID,workerID,state,pkey⟩
  return (0,db)

def InsertWorker.run (workerID capacity pkey : Int) (url : String) (db : Database) : Option (Int × Database) := do
  let db ← db.insertWorker ⟨workerID,capacity,0,pkey,url⟩
  return (0,db)

def InsertSparkWorker.run (workerID capacity workerData pkey : Int) (url : String) (db : Database) :
    Option (Int × Database) := do
  let db ← db.insertWorker ⟨workerID,capacity,workerData,pkey,url⟩
  let db ← db.insertData ⟨workerData,pkey⟩
  return (0,db)

def SelectWorker.run (choice : Choice) (pkey : Int) (db : Database) : Option (Int × Database) :=
  match selectWorker choice pkey db with
  | none => some (-1,db)
  | some row => do
    let db ← db.updateCapacity (row.capacity - 1) pkey row.workerID
    return (row.workerID,db)

-- SELECT .. WHERE PKey=? AND Capacity > 0 ORDER BY Capacity DESC LIMIT 1
def SelectOrderedWorker.selectWorker (choice : Choice) (pkey : Int) (db : Database) : Option WorkerRow :=
  limitOne choice.worker (largest WorkerRow.capacity (db.worker.filter (available pkey)))

def SelectOrderedWorker.run (choice : Choice) (pkey taskID : Int) (db : Database) : Option (Int × Database) :=
  match SelectOrderedWorker.selectWorker choice pkey db with
  | none => some (-1,db)
  | some row => do
    let db ← db.insertTask ⟨taskID,row.workerID,1,pkey⟩
    let db ← db.updateCapacity (row.capacity - 1) pkey row.workerID
    return (row.workerID,db)

-- SELECT TaskID FROM Task WHERE PKey=? LIMIT 1
def SelectPartitionedTaskWorker.selectTask (choice : Choice) (pkey : Int) (db : Database) : Option TaskRow :=
  limitOne choice.task (db.task.filter fun row => row.pkey == pkey)

-- UPDATE Task SET WorkerID=? WHERE PKey=? AND TaskID=?
def SelectPartitionedTaskWorker.updateTask (workerID pkey taskID : Int) (db : Database) : Option Database :=
  if integer workerID then
    some {db with task:=(update (fun row => row.pkey == pkey && row.taskID == taskID)
      (fun row => {row with workerID:=workerID}) db.task)}
  else none

def SelectPartitionedTaskWorker.run (choice : Choice) (pkey : Int) (db : Database) : Option (Int × Database) :=
  match SelectPartitionedTaskWorker.selectTask choice pkey db with
  | none => some (noTask,db)
  | some task =>
    match selectWorker choice pkey db with
    | none => some (noWorker,db)
    | some row => do
      let db ← db.updateCapacity (row.capacity - 1) pkey row.workerID
      let db ← SelectPartitionedTaskWorker.updateTask row.workerID pkey task.taskID db
      return (0,db)

def SelectSinglePartitionedTaskWorker.run (choice : Choice) (pkey taskID : Int) (db : Database) :
    Option (Int × Database) :=
  match selectWorker choice pkey db with
  | none => some (noWorker,db)
  | some row => do
    let db ← db.insertTask ⟨taskID,row.workerID,1,pkey⟩
    let db ← db.updateCapacity (row.capacity - 1) pkey row.workerID
    return (success,db)

-- SELECT .. WHERE PKey=? AND Capacity > 0 AND DataShards=? LIMIT 1
def SelectSparkWorker.selectWorker (choice : Choice) (pkey targetData : Int) (db : Database) : Option WorkerRow :=
  limitOne choice.worker (db.worker.filter fun row => available pkey row && row.dataShards == targetData)

def SelectSparkWorker.run (choice : Choice) (pkey targetData : Int) (db : Database) : Option (Int × Database) :=
  match SelectSparkWorker.selectWorker choice pkey targetData db with
  | none => some (-1,db)
  | some row => do
    let db ← db.updateCapacity (row.capacity - 1) pkey row.workerID
    return (row.workerID,db)

-- SELECT WorkerID, Capacity FROM Worker WHERE Capacity > 0 LIMIT 1
def SelectTaskWorker.selectWorker (choice : Choice) (db : Database) : Option WorkerRow :=
  limitOne choice.worker (db.worker.filter fun row => decide (0 < row.capacity))

-- SELECT TaskID FROM Task LIMIT 1
def SelectTaskWorker.selectTask (choice : Choice) (db : Database) : Option TaskRow :=
  limitOne choice.task db.task

-- UPDATE Worker SET Capacity=? WHERE WorkerID=?
def SelectTaskWorker.updateCapacity (capacity workerID : Int) (db : Database) : Option Database :=
  if integer capacity then
    some {db with worker:=(update (fun row => row.workerID == workerID)
      (fun row => {row with capacity:=capacity}) db.worker)}
  else none

-- UPDATE Task SET WorkerID=? WHERE TaskID=?
def SelectTaskWorker.updateTask (workerID taskID : Int) (db : Database) : Option Database :=
  if integer workerID then
    some {db with task:=(update (fun row => row.taskID == taskID)
      (fun row => {row with workerID:=workerID}) db.task)}
  else none

def SelectTaskWorker.run (choice : Choice) (db : Database) : Option (Int × Database) :=
  match SelectTaskWorker.selectTask choice db with
  | none => some (noTask,db)
  | some task =>
    match SelectTaskWorker.selectWorker choice db with
    | none => some (noWorker,db)
    | some row => do
      let db ← SelectTaskWorker.updateCapacity (row.capacity - 1) row.workerID db
      let db ← SelectTaskWorker.updateTask row.workerID task.taskID db
      return (success,db)

def TruncateTaskTable.run (db : Database) : Option (Int × Database) := some (0,{db with task:=[]})

def TruncateWorkerTable.run (db : Database) : Option (Int × Database) := some (0,{db with worker:=[],dataLocation:=[]})

-- The capacity query has no LIMIT; the procedure reads whichever row comes first.
def FinishWorkerTask.getCapacity (choice : Choice) (pkey workerID : Int) (db : Database) : Option WorkerRow :=
  limitOne choice.worker (db.worker.filter (ofWorker pkey workerID))

-- UPDATE Task SET State=3 WHERE PKey=? AND taskID=?
def FinishWorkerTask.updateState (pkey taskID : Int) (db : Database) : Database :=
  {db with task:=(update (fun row => row.pkey == pkey && row.taskID == taskID)
    (fun row => {row with state:=3}) db.task)}

def FinishWorkerTask.run (choice : Choice) (workerID taskID pkey : Int) (db : Database) : Option (Int × Database) :=
  match FinishWorkerTask.getCapacity choice pkey workerID db with
  | none => some (-1,db)
  | some row => do
    let db ← db.updateCapacity (row.capacity + 1) pkey workerID
    return (0,if taskID ≠ -1 then FinishWorkerTask.updateState pkey taskID db else db)

-- SELECT WorkerID, COUNT(*) .. GROUP BY WorkerID, ORDER BY the count DESC LIMIT 1
def mostTasks (choice : Choice) (rows : List TaskRow) : Option Int :=
  limitOne choice.worker (largest (fun workerID => (rows.countP fun row => row.workerID == workerID : Nat))
    (rows.map TaskRow.workerID).dedup)

def ScanPartitionedTaskWorker.run (choice : Choice) (pkey : Int) (db : Database) : Option (Int × Database) :=
  match mostTasks choice (db.task.filter fun row => decide (0 ≤ row.workerID) && row.pkey == pkey) with
  | none => some (noWorker,db)
  | some workerID => some (workerID,db)

def ScanTaskWorker.run (choice : Choice) (db : Database) : Option (Int × Database) :=
  match mostTasks choice (db.task.filter fun row => decide (0 ≤ row.workerID)) with
  | none => some (noWorker,db)
  | some workerID => some (workerID,db)

-- SELECT TaskID FROM Task WHERE PKey=? AND WorkerID=? AND State=1 LIMIT ?
def pendingOf (pkey workerID : Int) (row : TaskRow) : Bool :=
  row.pkey == pkey && row.workerID == workerID && row.state == 1

def WorkerSelectTask.selectPendingTasks (choice : Choice) (pkey workerID : Int) (topk : Nat) (db : Database) :
    List TaskRow :=
  limit topk choice.rows (db.task.filter (pendingOf pkey workerID))

-- UPDATE Task SET State=2 WHERE PKey=? AND TaskID=? AND WorkerID=?
def WorkerSelectTask.updateTaskRunning (pkey taskID workerID : Int) (db : Database) : Database :=
  {db with task:=(update (fun row => row.pkey == pkey && row.taskID == taskID && row.workerID == workerID)
    (fun row => {row with state:=2}) db.task)}

-- A negative LIMIT is refused by the engine.
def WorkerSelectTask.run (choice : Choice) (pkey workerID topk : Int) (db : Database) : Option (List Int × Database) :=
  if topk < 0 then none else
  let ids := (WorkerSelectTask.selectPendingTasks choice pkey workerID topk.toNat db).map TaskRow.taskID
  some (ids,ids.foldl (fun db taskID => WorkerSelectTask.updateTaskRunning pkey taskID workerID db) db)

-- UPDATE Task SET State=? WHERE PKey=? AND TaskID=? AND WorkerID=?
def WorkerUpdateTask.updateTask (state pkey taskID workerID : Int) (db : Database) : Option Database :=
  if integer state then
    some {db with task:=(update (fun row => row.pkey == pkey && row.taskID == taskID && row.workerID == workerID)
      (fun row => {row with state:=state}) db.task)}
  else none

-- UPDATE Worker SET Capacity=Capacity+1 WHERE PKey=? AND WorkerID=?
def WorkerUpdateTask.updateCapacity (pkey workerID : Int) (db : Database) : Option Database :=
  if db.worker.all fun row => !ofWorker pkey workerID row || integer (row.capacity + 1) then
    some {db with worker:=(update (ofWorker pkey workerID)
      (fun row => {row with capacity:=row.capacity+1}) db.worker)}
  else none

def WorkerUpdateTask.run (pkey workerID taskID taskState : Int) (db : Database) : Option (Int × Database) := do
  let db ← WorkerUpdateTask.updateTask taskState pkey taskID workerID db
  if taskState = 3 then
    let db ← WorkerUpdateTask.updateCapacity pkey workerID db
    return (success,db)
  else return (success,db)

def PushTask.run (choice : Choice) (pkey taskID : Int) (db : Database) : Option (Int × Database) :=
  match selectWorker choice pkey db with
  | none => some (noWorker,db)
  | some row => do
    let db ← db.insertTask ⟨taskID,row.workerID,2,pkey⟩
    let db ← db.updateCapacity (row.capacity - 1) pkey row.workerID
    let db ← db.insertTaskAssign ⟨taskID,row.url,pkey⟩
    return (success,db)

-- SELECT DISTINCT PKey FROM DataLocation WHERE DataShard=?, in any order
def SelectDataShardPartition.run (choice : Choice) (dataShard : Int) (db : Database) : Option (List Int × Database) :=
  let found := ((db.dataLocation.filter fun row => row.dataShard == dataShard).map DataLocationRow.pkey).dedup
  some (limit found.length choice.rows found,db)

def SendMessage.run (receiverID senderID messageID : Int) (data : String) (db : Database) : Option (Int × Database) := do
  let db ← db.insertMessage ⟨receiverID,senderID,messageID,data⟩
  return (success,db)

def ReceiveMessage.run (choice : Choice) (receiverID : Int) (db : Database) :
    Option (List (Int × Int × String) × Database) :=
  let found := db.message.filter fun row => row.receiverID == receiverID
  let rows := (limit found.length choice.rows found).map fun row => (row.senderID,row.messageID,row.data)
  if rows.length < 1 then some (rows,db)
  else some (rows,{db with message:=db.message.filter fun row => !(row.receiverID == receiverID)})

def BroadcastMessage.run (msg : Int) (db : Database) : Option (Int × Database) :=
  if integer msg then some (success,{db with broadcast:=db.broadcast ++ [msg]}) else none

-- The procedures of load_procedures.sql and a call of one of them with the
-- arguments of its `run` method.
inductive Procedure where
  | insertTask | insertWorker | insertSparkWorker | selectTaskWorker | selectWorker | selectOrderedWorker
  | selectPartitionedTaskWorker | selectSinglePartitionedTaskWorker | selectSparkWorker | truncateTaskTable
  | truncateWorkerTable | finishWorkerTask | scanPartitionedTaskWorker | scanTaskWorker | workerSelectTask
  | workerUpdateTask | pushTask | selectDataShardPartition | sendMessage | receiveMessage | broadcastMessage
  deriving Repr, DecidableEq

inductive Call where
  | insertTask (taskID workerID state pkey : Int)
  | insertWorker (workerID capacity pkey : Int) (url : String)
  | insertSparkWorker (workerID capacity workerData pkey : Int) (url : String)
  | selectTaskWorker
  | selectWorker (pkey : Int)
  | selectOrderedWorker (pkey taskID : Int)
  | selectPartitionedTaskWorker (pkey : Int)
  | selectSinglePartitionedTaskWorker (pkey taskID : Int)
  | selectSparkWorker (pkey targetData : Int)
  | truncateTaskTable
  | truncateWorkerTable
  | finishWorkerTask (workerID taskID pkey : Int)
  | scanPartitionedTaskWorker (pkey : Int)
  | scanTaskWorker
  | workerSelectTask (pkey workerID topk : Int)
  | workerUpdateTask (pkey workerID taskID taskState : Int)
  | pushTask (pkey taskID : Int)
  | selectDataShardPartition (dataShard : Int)
  | sendMessage (receiverID senderID messageID : Int) (data : String)
  | receiveMessage (receiverID : Int)
  | broadcastMessage (msg : Int)
  deriving Repr, DecidableEq

-- What comes back: one BIGINT, one column of integers, or message rows.
inductive Reply where
  | long (value : Int)
  | column (values : List Int)
  | messages (rows : List (Int × Int × String))
  deriving Repr, DecidableEq

def reply (wrap : α → Reply) (ended : Option (α × Database)) : Option (Reply × Database) :=
  ended.map fun result => (wrap result.1,result.2)

def Call.run (choice : Choice) (db : Database) : Call → Option (Reply × Database)
  | .insertTask taskID workerID state pkey => reply .long (InsertTask.run taskID workerID state pkey db)
  | .insertWorker workerID capacity pkey url => reply .long (InsertWorker.run workerID capacity pkey url db)
  | .insertSparkWorker workerID capacity workerData pkey url =>
    reply .long (InsertSparkWorker.run workerID capacity workerData pkey url db)
  | .selectTaskWorker => reply .long (SelectTaskWorker.run choice db)
  | .selectWorker pkey => reply .long (SelectWorker.run choice pkey db)
  | .selectOrderedWorker pkey taskID => reply .long (SelectOrderedWorker.run choice pkey taskID db)
  | .selectPartitionedTaskWorker pkey => reply .long (SelectPartitionedTaskWorker.run choice pkey db)
  | .selectSinglePartitionedTaskWorker pkey taskID =>
    reply .long (SelectSinglePartitionedTaskWorker.run choice pkey taskID db)
  | .selectSparkWorker pkey targetData => reply .long (SelectSparkWorker.run choice pkey targetData db)
  | .truncateTaskTable => reply .long (TruncateTaskTable.run db)
  | .truncateWorkerTable => reply .long (TruncateWorkerTable.run db)
  | .finishWorkerTask workerID taskID pkey => reply .long (FinishWorkerTask.run choice workerID taskID pkey db)
  | .scanPartitionedTaskWorker pkey => reply .long (ScanPartitionedTaskWorker.run choice pkey db)
  | .scanTaskWorker => reply .long (ScanTaskWorker.run choice db)
  | .workerSelectTask pkey workerID topk => reply .column (WorkerSelectTask.run choice pkey workerID topk db)
  | .workerUpdateTask pkey workerID taskID taskState =>
    reply .long (WorkerUpdateTask.run pkey workerID taskID taskState db)
  | .pushTask pkey taskID => reply .long (PushTask.run choice pkey taskID db)
  | .selectDataShardPartition dataShard => reply .column (SelectDataShardPartition.run choice dataShard db)
  | .sendMessage receiverID senderID messageID data =>
    reply .long (SendMessage.run receiverID senderID messageID data db)
  | .receiveMessage receiverID => reply .messages (ReceiveMessage.run choice receiverID db)
  | .broadcastMessage msg => reply .long (BroadcastMessage.run msg db)

-- What a client sends: a procedure name and positional parameters. Nothing else
-- binds the two sides; a parameter list that does not fit is refused.
inductive Param where
  | int (value : Int)
  | string (text : String)
  deriving Repr, DecidableEq

structure Request where
  procedure : Procedure
  params : List Param
  deriving Repr, DecidableEq

def Request.call : Request → Option Call
  | ⟨.insertTask,[.int taskID,.int workerID,.int state,.int pkey]⟩ => some (.insertTask taskID workerID state pkey)
  | ⟨.insertWorker,[.int workerID,.int capacity,.int pkey,.string url]⟩ =>
    some (.insertWorker workerID capacity pkey url)
  | ⟨.insertSparkWorker,[.int workerID,.int capacity,.int workerData,.int pkey,.string url]⟩ =>
    some (.insertSparkWorker workerID capacity workerData pkey url)
  | ⟨.selectTaskWorker,[]⟩ => some .selectTaskWorker
  | ⟨.selectWorker,[.int pkey]⟩ => some (.selectWorker pkey)
  | ⟨.selectOrderedWorker,[.int pkey,.int taskID]⟩ => some (.selectOrderedWorker pkey taskID)
  | ⟨.selectPartitionedTaskWorker,[.int pkey]⟩ => some (.selectPartitionedTaskWorker pkey)
  | ⟨.selectSinglePartitionedTaskWorker,[.int pkey,.int taskID]⟩ =>
    some (.selectSinglePartitionedTaskWorker pkey taskID)
  | ⟨.selectSparkWorker,[.int pkey,.int targetData]⟩ => some (.selectSparkWorker pkey targetData)
  | ⟨.truncateTaskTable,[]⟩ => some .truncateTaskTable
  | ⟨.truncateWorkerTable,[]⟩ => some .truncateWorkerTable
  | ⟨.finishWorkerTask,[.int workerID,.int taskID,.int pkey]⟩ => some (.finishWorkerTask workerID taskID pkey)
  | ⟨.scanPartitionedTaskWorker,[.int pkey]⟩ => some (.scanPartitionedTaskWorker pkey)
  | ⟨.scanTaskWorker,[]⟩ => some .scanTaskWorker
  | ⟨.workerSelectTask,[.int pkey,.int workerID,.int topk]⟩ => some (.workerSelectTask pkey workerID topk)
  | ⟨.workerUpdateTask,[.int pkey,.int workerID,.int taskID,.int taskState]⟩ =>
    some (.workerUpdateTask pkey workerID taskID taskState)
  | ⟨.pushTask,[.int pkey,.int taskID]⟩ => some (.pushTask pkey taskID)
  | ⟨.selectDataShardPartition,[.int dataShard]⟩ => some (.selectDataShardPartition dataShard)
  | ⟨.sendMessage,[.int receiverID,.int senderID,.int messageID,.string data]⟩ =>
    some (.sendMessage receiverID senderID messageID data)
  | ⟨.receiveMessage,[.int receiverID]⟩ => some (.receiveMessage receiverID)
  | ⟨.broadcastMessage,[.int msg]⟩ => some (.broadcastMessage msg)
  | _ => none

-- InvocationResponse: `none` is r.failure(), with everything rolled back.
abbrev Response := Option Reply

def Call.execute (call : Call) (choice : Choice) (db : Database) : Database × Response :=
  if choice.fault then (db,none) else
  match call.run choice db with
  | none => (db,none)
  | some (reply,after) => (after,some reply)

def invoke (db : Database) (request : Request) (choice : Choice) : Database × Response :=
  match request.call with
  | none => (db,none)
  | some call => call.execute choice db

end DbosScheduler.Sql
