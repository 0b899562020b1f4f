import DbosScheduler.Lib.Table

namespace DbosScheduler.Sql
open Table

-- WorkerManager::TaskState. The State column itself is a plain INTEGER: the
-- procedures store whatever number they are called with.
inductive TaskState where
  | unknown | pending | running | complete
  deriving Repr, DecidableEq

def TaskState.code : TaskState → Int
  | .unknown => 0
  | .pending => 1
  | .running => 2
  | .complete => 3

abbrev pending : Int := 1
abbrev running : Int := 2
abbrev complete : Int := 3

structure WorkerRow where
  workerID : Int
  capacity : Int
  dataShards : Int
  pkey : Int
  url : String
  deriving Repr, DecidableEq

structure TaskRow where
  taskID : Int
  workerID : Int
  state : Int
  pkey : Int
  deriving Repr, DecidableEq

structure DataLocationRow where
  dataShard : Int
  pkey : Int
  deriving Repr, DecidableEq

-- One row of the export stream. A stream only grows: rows are handed to the
-- exporter in the background and never read back by a procedure.
structure TaskAssignRow where
  taskID : Int
  url : String
  pkey : Int
  deriving Repr, DecidableEq

structure MessageRow where
  receiverID : Int
  senderID : Int
  messageID : Int
  data : String
  deriving Repr, DecidableEq

structure Database where
  worker : List WorkerRow
  task : List TaskRow
  dataLocation : List DataLocationRow
  taskAssign : List TaskAssignRow
  message : List MessageRow
  broadcast : List Int
  deriving Repr, DecidableEq

def Database.empty : Database := ⟨[],[],[],[],[],[]⟩

-- INTEGER and BIGINT NOT NULL: the smallest machine value stands for NULL.
def integer (value : Int) : Bool := -2147483648 < value && value ≤ 2147483647
def bigint (value : Int) : Bool := -9223372036854775808 < value && value ≤ 9223372036854775807
def varchar (size : Nat) (text : String) : Bool := text.length ≤ size

-- Statements. `none` is a constraint violation, which aborts the transaction.
namespace Database

def insertWorker (row : WorkerRow) (db : Database) : Option Database :=
  if integer row.workerID && integer row.capacity && integer row.dataShards && integer row.pkey &&
      varchar 512 row.url then
    some {db with worker:=db.worker ++ [row]}
  else none

def insertData (row : DataLocationRow) (db : Database) : Option Database :=
  if integer row.dataShard && integer row.pkey then
    some {db with dataLocation:=db.dataLocation ++ [row]}
  else none

-- taskIDIndex is ASSUMEUNIQUE: it is enforced inside one partition only. Keys
-- that share a physical partition may be refused as well; that refusal is one of
-- the failures an invocation may always meet.
def insertTask (row : TaskRow) (db : Database) : Option Database :=
  if integer row.taskID && integer row.workerID && integer row.state && integer row.pkey &&
      !(db.task.any fun old => old.pkey == row.pkey && old.taskID == row.taskID) then
    some {db with task:=db.task ++ [row]}
  else none

def insertTaskAssign (row : TaskAssignRow) (db : Database) : Option Database :=
  if integer row.taskID && varchar 512 row.url && integer row.pkey then
    some {db with taskAssign:=db.taskAssign ++ [row]}
  else none

def insertMessage (row : MessageRow) (db : Database) : Option Database :=
  if integer row.receiverID && integer row.senderID && bigint row.messageID && varchar 1048576 row.data then
    some {db with message:=db.message ++ [row]}
  else none

end Database

def ofWorker (pkey workerID : Int) (row : WorkerRow) : Bool := row.pkey == pkey && row.workerID == workerID
def available (pkey : Int) (row : WorkerRow) : Bool := row.pkey == pkey && decide (0 < row.capacity)

-- UPDATE Worker SET Capacity=? WHERE PKey=? AND WorkerID=?
def setCapacity (capacity pkey workerID : Int) : List WorkerRow → List WorkerRow :=
  update (ofWorker pkey workerID) fun row => {row with capacity:=capacity}

def Database.updateCapacity (capacity pkey workerID : Int) (db : Database) : Option Database :=
  if integer capacity then some {db with worker:=setCapacity capacity pkey workerID db.worker} else none

-- What the engine and the network are free to decide during one invocation:
-- that it fails (and then nothing of it stays), and which of the matching rows
-- the SELECTs of the procedure return.
structure Choice where
  fault : Bool := false
  worker : Nat := 0
  task : Nat := 0
  rows : List Nat := []
  deriving Repr, DecidableEq

-- SELECT .. FROM Worker WHERE PKey=? AND Capacity > 0 LIMIT 1
def selectWorker (choice : Choice) (pkey : Int) (db : Database) : Option WorkerRow :=
  limitOne choice.worker (db.worker.filter (available pkey))

@[simp] theorem ofWorker_iff {row : WorkerRow} :
    ofWorker pkey workerID row = true ↔ row.pkey = pkey ∧ row.workerID = workerID := by
  simp [ofWorker]

@[simp] theorem available_iff {row : WorkerRow} : available pkey row = true ↔ row.pkey = pkey ∧ 0 < row.capacity := by
  simp [available]

-- The key columns of the two tables.
def WorkerRow.key (row : WorkerRow) : Int × Int := (row.pkey,row.workerID)
def TaskRow.key (row : TaskRow) : Int × Int := (row.pkey,row.taskID)

theorem selectWorker_some (found : selectWorker choice pkey db = some row) :
    row ∈ db.worker ∧ row.pkey = pkey ∧ 0 < row.capacity := by
  simpa using limitOne_mem found

theorem selectWorker_none :
    selectWorker choice pkey db = none ↔ ∀ row ∈ db.worker, row.pkey = pkey → row.capacity ≤ 0 := by
  simp only [selectWorker,limitOne_none,List.filter_eq_nil_iff,available_iff,not_and,Int.not_lt]

theorem insertTask_some {db : Database} (inserted : db.insertTask row = some after) :
    (∀ old ∈ db.task, old.key ≠ row.key) ∧ after = {db with task:=db.task ++ [row]} := by
  unfold Database.insertTask at inserted
  split at inserted
  · rename_i allowed
    cases inserted
    refine ⟨?_,rfl⟩
    intro old member same
    simp only [TaskRow.key,Prod.mk.injEq] at same
    simp only [Bool.and_eq_true,Bool.not_eq_true',List.any_eq_false] at allowed
    exact allowed.2 old member (by simp [same])
  · cases inserted

def WorkerRow.legal (row : WorkerRow) : Bool :=
  integer row.workerID && integer row.capacity && integer row.dataShards && integer row.pkey && varchar 512 row.url

theorem insertWorker_some {db : Database} {row : WorkerRow} (inserted : db.insertWorker row = some after) :
    row.legal = true ∧ after = {db with worker:=db.worker ++ [row]} := by
  unfold Database.insertWorker at inserted
  split at inserted
  · rename_i legal
    exact ⟨legal,(Option.some.inj inserted).symm⟩
  · cases inserted

theorem insertData_some {db : Database} {row : DataLocationRow} (inserted : db.insertData row = some after) :
    after = {db with dataLocation:=db.dataLocation ++ [row]} := by
  unfold Database.insertData at inserted
  split at inserted
  · exact (Option.some.inj inserted).symm
  · cases inserted

theorem updateCapacity_some {db : Database} (updated : db.updateCapacity capacity pkey workerID = some after) :
    after = {db with worker:=setCapacity capacity pkey workerID db.worker} := by
  unfold Database.updateCapacity at updated
  split at updated
  · exact (Option.some.inj updated).symm
  · cases updated

theorem updateCapacity_legal {db : Database} (updated : db.updateCapacity capacity pkey workerID = some after) :
    integer capacity = true := by
  unfold Database.updateCapacity at updated
  split at updated
  · assumption
  · cases updated

@[simp] theorem setCapacity_keys (rows : List WorkerRow) :
    (setCapacity capacity pkey workerID rows).map WorkerRow.key = rows.map WorkerRow.key := by
  apply map_update
  intro row _
  rfl

theorem setCapacity_unique (unique : (rows.map WorkerRow.key).Nodup) (member : row ∈ rows) :
    ∃ left right, rows = left ++ row :: right ∧ (∀ other ∈ left ++ right, other.key ≠ row.key) ∧
      ∀ capacity, setCapacity capacity row.pkey row.workerID rows = left ++ {row with capacity:=capacity} :: right := by
  have selects : ∀ other ∈ rows, ofWorker row.pkey row.workerID other = true ↔ other.key = row.key := by
    simp [WorkerRow.key]
  obtain ⟨left,right,cut,others,changed⟩ := update_unique unique member selects
  exact ⟨left,right,cut,others,fun capacity => changed _⟩

end DbosScheduler.Sql
