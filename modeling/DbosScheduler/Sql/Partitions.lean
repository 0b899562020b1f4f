import DbosScheduler.Lib.Sites
import DbosScheduler.Sql.Procedures

namespace DbosScheduler.Sql
open Table Sites

-- The PARTITION ON clauses of load_procedures.sql: by which parameter a call is sent to
-- one partition. A procedure without the clause runs on all of them at once.
def Procedure.partitionParameter : Procedure → Option Nat
  | .insertWorker | .finishWorkerTask => some 2
  | .selectWorker | .selectOrderedWorker | .selectPartitionedTaskWorker | .selectSinglePartitionedTaskWorker
  | .selectSparkWorker | .scanPartitionedTaskWorker | .workerSelectTask | .workerUpdateTask | .pushTask
  | .sendMessage | .receiveMessage => some 0
  | _ => none

def Request.partitionKey (request : Request) : Option Int :=
  match request.procedure.partitionParameter.bind fun k => request.params[k]? with
  | some (.int key) => some key
  | _ => none

-- The PARTITION TABLE clauses: where a row lives. DataLocation and Broadcast have none, so
-- that every partition has all of them.
section
variable {ι : Type} [DecidableEq ι] (place : Int → ι)

def Database.fragment (p : ι) (db : Database) : Database :=
  {db with
    worker:=db.worker.filter fun row => place row.pkey = p
    task:=db.task.filter fun row => place row.pkey = p
    taskAssign:=db.taskAssign.filter fun row => place row.pkey = p
    message:=db.message.filter fun row => place row.receiverID = p}

-- A transaction that is at home in one partition: run on the rows there, it has the same
-- result, and the rows of the others are as before.
structure LocalRun (p : ι) (run : Database → Option (α × Database)) : Prop where
  own : ∀ db, run (db.fragment place p) = (run db).map fun result => (result.1,result.2.fragment place p)
  others : ∀ db a after q, q ≠ p → run db = some (a,after) → after.fragment place q = db.fragment place q

structure LocalStep (p : ι) (step : Database → Option Database) : Prop where
  own : ∀ db, step (db.fragment place p) = (step db).map fun after => after.fragment place p
  others : ∀ db after q, q ≠ p → step db = some after → after.fragment place q = db.fragment place q

variable {place} {p q : ι}

theorem LocalRun.done (a : α) : LocalRun place p fun db => some (a,db) := by
  refine ⟨fun db => rfl,?_⟩
  intro db a after q _ same
  cases same
  rfl

theorem LocalRun.abort : LocalRun place p fun _ => (none : Option (α × Database)) := by
  refine ⟨fun db => rfl,?_⟩
  intro db a after q _ same
  cases same

theorem LocalRun.congr {run other : Database → Option (α × Database)} (law : LocalRun place p other)
    (same : ∀ db, run db = other db) : LocalRun place p run := by
  have equal : run = other := funext same
  rw [equal]
  exact law

theorem LocalStep.bind {step : Database → Option Database} {run : Database → Option (α × Database)}
    (first : LocalStep place p step) (second : LocalRun place p run) : LocalRun place p fun db => (step db).bind run := by
  constructor
  · intro db
    rw [first.own]
    cases step db with
    | none => rfl
    | some middle => exact second.own middle
  · intro db a after q other ran
    obtain ⟨middle,stepped,ran⟩ := Option.bind_eq_some_iff.mp ran
    rw [second.others middle a after q other ran,first.others db middle q other stepped]

-- The rows that a statement finds are all in the partition of its key.
theorem LocalRun.read {β : Type} (read : Database → β) {run : β → Database → Option (α × Database)}
    (same : ∀ db, read (db.fragment place p) = read db) (each : ∀ found, LocalRun place p (run found)) :
    LocalRun place p fun db => run (read db) db := by
  constructor
  · intro db
    rw [same]
    exact (each (read db)).own db
  · intro db a after q other ran
    exact (each (read db)).others db a after q other ran

theorem LocalRun.found {β : Type} {select : Database → Option β} {run : β → Database → Option (α × Database)}
    (same : ∀ db, select (db.fragment place p) = select db) (empty : α) (each : ∀ row, LocalRun place p (run row)) :
    LocalRun place p fun db => match select db with
      | none => some (empty,db)
      | some row => run row db := by
  constructor
  · intro db
    rw [same]
    cases select db with
    | none => rfl
    | some row => exact (each row).own db
  · intro db a after q other ran
    cases found : select db with
    | none =>
      rw [found] at ran
      cases ran
      rfl
    | some row =>
      rw [found] at ran
      exact (each row).others db a after q other ran

theorem filter_within {rows : List α} {selects inside : α → Bool} (within : ∀ row, selects row = true → inside row = true) :
    (rows.filter inside).filter selects = rows.filter selects := by
  rw [List.filter_filter]
  apply List.filter_congr
  intro row _
  cases chosen : selects row with
  | true => simp [within row chosen]
  | false => simp

theorem filter_update {rows : List α} {selects inside : α → Bool} {change : α → α}
    (kept : ∀ row, selects row = true → inside (change row) = inside row) :
    (update selects change rows).filter inside = update selects change (rows.filter inside) := by
  rw [update,List.filter_map,update]
  congr 1
  apply List.filter_congr
  intro row _
  by_cases chosen : selects row = true
  · simp [chosen,kept row chosen]
  · simp [chosen]

-- The statements, by the table they change.
theorem LocalStep.guarded {test : Database → Bool} {step : Database → Database}
    (same : ∀ db, test (db.fragment place p) = test db) (own : ∀ db, step (db.fragment place p) = (step db).fragment place p)
    (others : ∀ db q, q ≠ p → (step db).fragment place q = db.fragment place q) :
    LocalStep place p fun db => if test db then some (step db) else none := by
  constructor
  · intro db
    rw [same]
    split
    · rw [own]
      rfl
    · rfl
  · intro db after q other stepped
    split at stepped <;> cases stepped
    exact others db q other

theorem update_here {rows : List α} {key : α → Int} {selects : α → Bool} {change : α → α}
    (kept : ∀ row, key (change row) = key row) :
    ((update selects change rows).filter fun row => place (key row) = q) =
      update selects change (rows.filter fun row => place (key row) = q) :=
  filter_update fun row _ => by rw [kept]

theorem update_there {rows : List α} {key : α → Int} {selects : α → Bool} {change : α → α}
    (kept : ∀ row, key (change row) = key row) (within : ∀ row, selects row = true → place (key row) = p) (other : q ≠ p) :
    ((update selects change rows).filter fun row => place (key row) = q) = rows.filter fun row => place (key row) = q := by
  rw [update_here kept]
  apply update_nothing
  intro row member
  have there : place (key row) = q := by simpa using (List.mem_filter.mp member).2
  cases chosen : selects row with
  | true => exact absurd (there.symm.trans (within row chosen)) other
  | false => rfl

theorem updateCapacity_local (home : place pkey = p) (capacity workerID : Int) :
    LocalStep place p (Database.updateCapacity capacity pkey workerID) := by
  have kept (row : WorkerRow) : ({row with capacity:=capacity} : WorkerRow).pkey = row.pkey := rfl
  have within (row : WorkerRow) (chosen : ofWorker pkey workerID row = true) : place row.pkey = p := by
    rw [(ofWorker_iff.mp chosen).1,home]
  refine .guarded (fun _ => rfl) ?_ ?_
  · intro db
    simp only [Database.fragment,setCapacity,update_here kept]
  · intro db q other
    simp only [Database.fragment,setCapacity,update_there kept within other]

theorem updateTask_local {selects : TaskRow → Bool} {change : TaskRow → TaskRow} (test : Bool)
    (kept : ∀ row, (change row).pkey = row.pkey) (within : ∀ row, selects row = true → place row.pkey = p) :
    LocalStep place p fun db => if test then some {db with task:=update selects change db.task} else none := by
  refine .guarded (fun _ => rfl) ?_ ?_
  · intro db
    simp only [Database.fragment,update_here kept]
  · intro db q other
    simp only [Database.fragment,update_there kept within other]

theorem assignTask_local (home : place pkey = p) (workerID taskID : Int) :
    LocalStep place p (SelectPartitionedTaskWorker.updateTask workerID pkey taskID) :=
  updateTask_local _ (fun _ => rfl) (by simp_all)

theorem finishState_local (home : place pkey = p) (taskID : Int) :
    LocalStep place p fun db => some (FinishWorkerTask.updateState pkey taskID db) :=
  updateTask_local true (fun _ => rfl) (by simp_all)

theorem setState_local (home : place pkey = p) (state taskID workerID : Int) :
    LocalStep place p (WorkerUpdateTask.updateTask state pkey taskID workerID) :=
  updateTask_local _ (fun _ => rfl) (by simp_all)

theorem running_local (home : place pkey = p) (taskID workerID : Int) :
    LocalStep place p fun db => some (WorkerSelectTask.updateTaskRunning pkey taskID workerID db) :=
  updateTask_local true (fun _ => rfl) (by simp_all)

theorem creditWorker_local (home : place pkey = p) (workerID : Int) :
    LocalStep place p (WorkerUpdateTask.updateCapacity pkey workerID) := by
  have kept (row : WorkerRow) : ({row with capacity:=row.capacity+1} : WorkerRow).pkey = row.pkey := rfl
  have within (row : WorkerRow) (chosen : ofWorker pkey workerID row = true) : place row.pkey = p := by
    rw [(ofWorker_iff.mp chosen).1,home]
  refine .guarded ?_ ?_ ?_
  · intro db
    rw [Database.fragment,List.all_filter]
    congr 1
    funext row
    cases chosen : ofWorker pkey workerID row with
    | true => simp [within row chosen]
    | false => simp
  · intro db
    simp only [Database.fragment,update_here kept]
  · intro db q other
    simp only [Database.fragment,update_there kept within other]

theorem insertWorker_local (row : WorkerRow) (home : place row.pkey = p) : LocalStep place p (Database.insertWorker row) := by
  refine .guarded (fun _ => rfl) ?_ ?_
  · intro db
    simp [Database.fragment,home]
  · intro db q other
    simp [Database.fragment,home,Ne.symm other]

theorem insertTask_local (row : TaskRow) (home : place row.pkey = p) : LocalStep place p (Database.insertTask row) := by
  refine .guarded ?_ ?_ ?_
  · intro db
    have same : ((db.fragment place p).task.any fun old => old.pkey == row.pkey && old.taskID == row.taskID) =
        db.task.any fun old => old.pkey == row.pkey && old.taskID == row.taskID := by
      rw [Database.fragment,List.any_filter]
      congr 1
      funext old
      by_cases equal : old.pkey = row.pkey
      · simp [equal,home]
      · simp [equal]
    rw [same]
  · intro db
    simp [Database.fragment,home]
  · intro db q other
    simp [Database.fragment,home,Ne.symm other]

theorem insertTaskAssign_local (row : TaskAssignRow) (home : place row.pkey = p) :
    LocalStep place p (Database.insertTaskAssign row) := by
  refine .guarded (fun _ => rfl) ?_ ?_
  · intro db
    simp [Database.fragment,home]
  · intro db q other
    simp [Database.fragment,home,Ne.symm other]

theorem insertMessage_local (row : MessageRow) (home : place row.receiverID = p) :
    LocalStep place p (Database.insertMessage row) := by
  refine .guarded (fun _ => rfl) ?_ ?_
  · intro db
    simp [Database.fragment,home]
  · intro db q other
    simp [Database.fragment,home,Ne.symm other]

theorem deleteMessages_local (home : place receiverID = p) : LocalStep place p fun db =>
    some {db with message:=db.message.filter fun row => !(row.receiverID == receiverID)} := by
  have law : LocalStep place p fun db => if (fun _ : Database => true) db then
      some {db with message:=db.message.filter fun row => !(row.receiverID == receiverID)} else none := by
    refine .guarded (fun _ => rfl) ?_ ?_
    · intro db
      simp only [Database.fragment,List.filter_filter,Bool.and_comm]
    · intro db q other
      simp only [Database.fragment]
      congr 1
      rw [List.filter_filter]
      apply List.filter_congr
      intro row _
      by_cases mine : row.receiverID = receiverID
      · simp [mine,home,Ne.symm other]
      · simp [mine]
  exact law

-- The reads.
theorem available_local (home : place pkey = p) (db : Database) :
    (db.fragment place p).worker.filter (available pkey) = db.worker.filter (available pkey) :=
  filter_within fun row chosen => by simp [(available_iff.mp chosen).1,home]

theorem selectWorker_local (home : place pkey = p) (choice : Choice) (db : Database) :
    selectWorker choice pkey (db.fragment place p) = selectWorker choice pkey db := by
  rw [selectWorker,available_local home,selectWorker]

theorem selectOrdered_local (home : place pkey = p) (choice : Choice) (db : Database) :
    SelectOrderedWorker.selectWorker choice pkey (db.fragment place p) = SelectOrderedWorker.selectWorker choice pkey db := by
  rw [SelectOrderedWorker.selectWorker,available_local home,SelectOrderedWorker.selectWorker]

theorem selectSpark_local (home : place pkey = p) (choice : Choice) (targetData : Int) (db : Database) :
    SelectSparkWorker.selectWorker choice pkey targetData (db.fragment place p) =
      SelectSparkWorker.selectWorker choice pkey targetData db := by
  have within (row : WorkerRow) (chosen : (available pkey row && row.dataShards == targetData) = true) :
      decide (place row.pkey = p) = true := by
    simp [(available_iff.mp (Bool.and_eq_true_iff.mp chosen).1).1,home]
  simp only [SelectSparkWorker.selectWorker,Database.fragment,filter_within within]

theorem getCapacity_local (home : place pkey = p) (choice : Choice) (workerID : Int) (db : Database) :
    FinishWorkerTask.getCapacity choice pkey workerID (db.fragment place p) =
      FinishWorkerTask.getCapacity choice pkey workerID db := by
  have within (row : WorkerRow) (chosen : ofWorker pkey workerID row = true) : decide (place row.pkey = p) = true := by
    simp [(ofWorker_iff.mp chosen).1,home]
  simp only [FinishWorkerTask.getCapacity,Database.fragment,filter_within within]

-- The SELECTs on Task differ in what else they ask, but all ask for the PKey.
theorem taskFilter_local (home : place pkey = p) {selects : TaskRow → Bool}
    (keyed : ∀ row, selects row = true → row.pkey = pkey) (db : Database) :
    (db.fragment place p).task.filter selects = db.task.filter selects :=
  filter_within fun row chosen => by simp [keyed row chosen,home]

-- The procedures with a PARTITION ON clause, at the partition of that parameter.
theorem insertWorkerRun_local (home : place pkey = p) (workerID capacity : Int) (url : String) :
    LocalRun place p (InsertWorker.run workerID capacity pkey url) :=
  ((insertWorker_local ⟨workerID,capacity,0,pkey,url⟩ home).bind (.done 0)).congr fun _ => rfl

theorem selectWorkerRun_local (home : place pkey = p) (choice : Choice) : LocalRun place p (SelectWorker.run choice pkey) := by
  have law := LocalRun.found (selectWorker_local home choice) (-1) fun row =>
    (updateCapacity_local home (row.capacity-1) row.workerID).bind (.done row.workerID)
  apply law.congr
  intro db
  rw [SelectWorker.run]
  cases selectWorker choice pkey db <;> rfl

theorem selectOrderedWorker_local (home : place pkey = p) (choice : Choice) (taskID : Int) :
    LocalRun place p (SelectOrderedWorker.run choice pkey taskID) := by
  have law := LocalRun.found (selectOrdered_local home choice) (-1) fun row =>
    (insertTask_local ⟨taskID,row.workerID,1,pkey⟩ home).bind
      ((updateCapacity_local home (row.capacity-1) row.workerID).bind (.done row.workerID))
  apply law.congr
  intro db
  rw [SelectOrderedWorker.run]
  cases SelectOrderedWorker.selectWorker choice pkey db <;> rfl

theorem selectPartitionedTaskWorker_local (home : place pkey = p) (choice : Choice) :
    LocalRun place p (SelectPartitionedTaskWorker.run choice pkey) := by
  have task (db : Database) : SelectPartitionedTaskWorker.selectTask choice pkey (db.fragment place p) =
      SelectPartitionedTaskWorker.selectTask choice pkey db := by
    rw [SelectPartitionedTaskWorker.selectTask,taskFilter_local home (by simp),SelectPartitionedTaskWorker.selectTask]
  have law := LocalRun.found task noTask fun task =>
    LocalRun.found (selectWorker_local home choice) noWorker fun row =>
      (updateCapacity_local home (row.capacity-1) row.workerID).bind
        ((assignTask_local home row.workerID task.taskID).bind (.done 0))
  apply law.congr
  intro db
  rw [SelectPartitionedTaskWorker.run]
  cases SelectPartitionedTaskWorker.selectTask choice pkey db with
  | none => rfl
  | some task => cases selectWorker choice pkey db <;> rfl

theorem selectSinglePartitionedTaskWorker_local (home : place pkey = p) (choice : Choice) (taskID : Int) :
    LocalRun place p (SelectSinglePartitionedTaskWorker.run choice pkey taskID) := by
  have law := LocalRun.found (selectWorker_local home choice) noWorker fun row =>
    (insertTask_local ⟨taskID,row.workerID,1,pkey⟩ home).bind
      ((updateCapacity_local home (row.capacity-1) row.workerID).bind (.done success))
  apply law.congr
  intro db
  rw [SelectSinglePartitionedTaskWorker.run]
  cases selectWorker choice pkey db <;> rfl

theorem selectSparkWorker_local (home : place pkey = p) (choice : Choice) (targetData : Int) :
    LocalRun place p (SelectSparkWorker.run choice pkey targetData) := by
  have law := LocalRun.found (selectSpark_local home choice targetData) (-1) fun row =>
    (updateCapacity_local home (row.capacity-1) row.workerID).bind (.done row.workerID)
  apply law.congr
  intro db
  rw [SelectSparkWorker.run]
  cases SelectSparkWorker.selectWorker choice pkey targetData db <;> rfl

theorem finishWorkerTask_local (home : place pkey = p) (choice : Choice) (workerID taskID : Int) :
    LocalRun place p (FinishWorkerTask.run choice workerID taskID pkey) := by
  have finish : LocalRun place p fun db =>
      some ((0 : Int),if taskID ≠ -1 then FinishWorkerTask.updateState pkey taskID db else db) := by
    by_cases told : taskID ≠ -1
    · simp only [told,ne_eq,not_false_eq_true,if_true]
      exact ((finishState_local home taskID).bind (.done 0)).congr fun _ => rfl
    · simp only [told,if_false]
      exact .done 0
  have law := LocalRun.found (getCapacity_local home choice workerID) (-1) fun row =>
    (updateCapacity_local home (row.capacity+1) workerID).bind finish
  apply law.congr
  intro db
  rw [FinishWorkerTask.run]
  cases FinishWorkerTask.getCapacity choice pkey workerID db <;> rfl

theorem scanPartitionedTaskWorker_local (home : place pkey = p) (choice : Choice) :
    LocalRun place p (ScanPartitionedTaskWorker.run choice pkey) := by
  let select (db : Database) : Option Int :=
    mostTasks choice (db.task.filter fun row => decide (0 ≤ row.workerID) && row.pkey == pkey)
  have same (db : Database) : select (db.fragment place p) = select db :=
    congrArg (mostTasks choice) (taskFilter_local home (by simp) db)
  have law := LocalRun.found same noWorker fun workerID => LocalRun.done workerID
  apply law.congr
  intro db
  rw [ScanPartitionedTaskWorker.run]
  cases found : select db with
  | none =>
    dsimp only [select] at found
    rw [found]
  | some workerID =>
    dsimp only [select] at found
    rw [found]

theorem workerSelectTask_local (home : place pkey = p) (choice : Choice) (workerID topk : Int) :
    LocalRun place p (WorkerSelectTask.run choice pkey workerID topk) := by
  have keyed (row : TaskRow) (chosen : pendingOf pkey workerID row = true) : row.pkey = pkey := by
    simp only [pendingOf,Bool.and_eq_true,beq_iff_eq] at chosen
    exact chosen.1.1
  have each (told ids : List Int) : LocalRun place p fun db =>
      some (told,ids.foldl (fun db taskID => WorkerSelectTask.updateTaskRunning pkey taskID workerID db) db) := by
    induction ids with
    | nil => exact .done told
    | cons taskID rest ih => exact ((running_local home taskID workerID).bind ih).congr fun _ => rfl
  by_cases negative : topk < 0
  · apply LocalRun.abort.congr
    intro db
    rw [WorkerSelectTask.run,if_pos negative]
  · have law := LocalRun.read (fun db => db.task.filter (pendingOf pkey workerID)) (taskFilter_local home keyed)
      fun rows => let ids := (limit topk.toNat choice.rows rows).map TaskRow.taskID; each ids ids
    apply law.congr
    intro db
    rw [WorkerSelectTask.run,if_neg negative]
    rfl

theorem workerUpdateTask_local (home : place pkey = p) (workerID taskID taskState : Int) :
    LocalRun place p (WorkerUpdateTask.run pkey workerID taskID taskState) := by
  have credit : LocalRun place p fun db =>
      if taskState = 3 then (WorkerUpdateTask.updateCapacity pkey workerID db).bind fun db => some (success,db)
      else some (success,db) := by
    by_cases finished : taskState = 3
    · simp only [finished,if_true]
      exact (creditWorker_local home workerID).bind (.done success)
    · simp only [finished,if_false]
      exact .done success
  exact ((setState_local home taskState taskID workerID).bind credit).congr fun _ => rfl

theorem sendMessage_local (home : place receiverID = p) (senderID messageID : Int) (data : String) :
    LocalRun place p (SendMessage.run receiverID senderID messageID data) :=
  ((insertMessage_local ⟨receiverID,senderID,messageID,data⟩ home).bind (.done success)).congr fun _ => rfl

theorem receiveMessage_local (home : place receiverID = p) (choice : Choice) :
    LocalRun place p (ReceiveMessage.run choice receiverID) := by
  have same (db : Database) : ((db.fragment place p).message.filter fun row => row.receiverID == receiverID) =
      db.message.filter fun row => row.receiverID == receiverID :=
    filter_within fun row chosen => by simp_all
  have each (rows : List (Int × Int × String)) : LocalRun place p fun db =>
      if rows.length < 1 then some (rows,db)
      else some (rows,{db with message:=db.message.filter fun row => !(row.receiverID == receiverID)}) := by
    by_cases few : rows.length < 1
    · simp only [few,if_true]
      exact .done rows
    · simp only [few,if_false]
      exact ((deleteMessages_local home).bind (.done rows)).congr fun _ => rfl
  have law := LocalRun.read (fun db => db.message.filter fun row => row.receiverID == receiverID) same
    fun found => each ((limit found.length choice.rows found).map fun row => (row.senderID,row.messageID,row.data))
  exact law.congr fun _ => rfl

theorem pushTask_local (home : place pkey = p) (choice : Choice) (taskID : Int) :
    LocalRun place p (PushTask.run choice pkey taskID) := by
  have law := LocalRun.found (selectWorker_local home choice) noWorker fun row =>
    (insertTask_local ⟨taskID,row.workerID,2,pkey⟩ home).bind
      ((updateCapacity_local home (row.capacity-1) row.workerID).bind
        ((insertTaskAssign_local ⟨taskID,row.url,pkey⟩ home).bind (.done success)))
  apply law.congr
  intro db
  rw [PushTask.run]
  cases selectWorker choice pkey db <;> rfl

-- Whatever the procedure, the parameter that routes a call is the key its statements ask for.
def Call.partitionKey : Call → Option Int
  | .insertWorker _ _ pkey _ | .finishWorkerTask _ _ pkey => some pkey
  | .selectWorker pkey | .selectOrderedWorker pkey _ | .selectPartitionedTaskWorker pkey
  | .selectSinglePartitionedTaskWorker pkey _ | .selectSparkWorker pkey _ | .scanPartitionedTaskWorker pkey
  | .workerSelectTask pkey _ _ | .workerUpdateTask pkey _ _ _ | .pushTask pkey _ => some pkey
  | .sendMessage receiverID _ _ _ | .receiveMessage receiverID => some receiverID
  | _ => none

theorem partitionKey_call {request : Request} (called : request.call = some call) :
    request.partitionKey = call.partitionKey := by
  unfold Request.call at called
  split at called <;> cases called <;> rfl

theorem LocalRun.reply {run : Database → Option (α × Database)} (law : LocalRun place p run) (wrap : α → Reply) :
    LocalRun place p fun db => Sql.reply wrap (run db) := by
  constructor
  · intro db
    simp only [Sql.reply,law.own,Option.map_map]
    rfl
  · intro db a after q other ran
    obtain ⟨⟨value,last⟩,ended,same⟩ := Option.map_eq_some_iff.mp ran
    cases same
    exact law.others db value last q other ended

theorem callRun_local {call : Call} (routed : call.partitionKey = some key) (choice : Choice) :
    LocalRun place (place key) fun db => call.run choice db := by
  cases call <;> cases routed
  case insertWorker workerID capacity url => exact (insertWorkerRun_local rfl workerID capacity url).reply .long
  case selectWorker => exact (selectWorkerRun_local rfl choice).reply .long
  case selectOrderedWorker taskID => exact (selectOrderedWorker_local rfl choice taskID).reply .long
  case selectPartitionedTaskWorker => exact (selectPartitionedTaskWorker_local rfl choice).reply .long
  case selectSinglePartitionedTaskWorker taskID =>
    exact (selectSinglePartitionedTaskWorker_local rfl choice taskID).reply .long
  case selectSparkWorker targetData => exact (selectSparkWorker_local rfl choice targetData).reply .long
  case finishWorkerTask workerID taskID => exact (finishWorkerTask_local rfl choice workerID taskID).reply .long
  case scanPartitionedTaskWorker => exact (scanPartitionedTaskWorker_local rfl choice).reply .long
  case workerSelectTask workerID topk => exact (workerSelectTask_local rfl choice workerID topk).reply .column
  case workerUpdateTask workerID taskID taskState =>
    exact (workerUpdateTask_local rfl workerID taskID taskState).reply .long
  case pushTask taskID => exact (pushTask_local rfl choice taskID).reply .long
  case sendMessage senderID messageID data => exact (sendMessage_local rfl senderID messageID data).reply .long
  case receiveMessage => exact (receiveMessage_local rfl choice).reply .messages

theorem invoke_local {request : Request} (routed : request.partitionKey = some key) (choice : Choice) (db : Database) :
    invoke (db.fragment place (place key)) request choice =
        ((invoke db request choice).1.fragment place (place key),(invoke db request choice).2) ∧
      ∀ q, q ≠ place key → (invoke db request choice).1.fragment place q = db.fragment place q := by
  unfold invoke
  cases called : request.call with
  | none => exact ⟨rfl,fun _ _ => rfl⟩
  | some call =>
    rw [partitionKey_call called] at routed
    have law : LocalRun place (place key) fun db => call.run choice db := callRun_local routed choice
    simp only [Call.execute]
    by_cases fault : choice.fault = true
    · simp [fault]
    · simp only [fault,law.own db]
      cases ran : call.run choice db with
      | none => exact ⟨rfl,fun _ _ => rfl⟩
      | some result => exact ⟨rfl,fun q other => law.others db result.1 result.2 q other ran⟩

end

-- A call that the engine sends to one partition.
structure Visit where
  request : Request
  choice : Choice
  key : Int
  routed : request.partitionKey = some key

def Visit.step (visit : Visit) (db : Database) : Database × Response := invoke db visit.request visit.choice

section
variable {ι : Type} [DecidableEq ι] (place : Int → ι)

theorem visits_local : Local Visit.step Visit.step (Database.fragment place) fun visit => place visit.key where
  own visit db := by
    rw [Visit.step,Visit.step,(invoke_local visit.routed visit.choice db).1]
  reply visit db := by
    rw [Visit.step,Visit.step,(invoke_local visit.routed visit.choice db).1]
  others visit db i other := (invoke_local visit.routed visit.choice db).2 i other

-- Tables are unordered.
structure Database.SameRows (left right : Database) : Prop where
  worker : left.worker.Perm right.worker
  task : left.task.Perm right.task
  taskAssign : left.taskAssign.Perm right.taskAssign
  message : left.message.Perm right.message
  dataLocation : left.dataLocation = right.dataLocation
  broadcast : left.broadcast = right.broadcast

theorem Database.sameRows_of_fragments {left right : Database}
    (same : ∀ p, left.fragment place p = right.fragment place p) : left.SameRows right := by
  -- the replicated tables stand whole in any fragment
  have anywhere := same (place 0)
  simp only [Database.fragment,Database.mk.injEq] at anywhere
  refine ⟨?_,?_,?_,?_,anywhere.2.2.1,anywhere.2.2.2.2.2⟩
  · exact perm_of_pieces (fun row => place row.pkey) fun p => congrArg Database.worker (same p)
  · exact perm_of_pieces (fun row => place row.pkey) fun p => congrArg Database.task (same p)
  · exact perm_of_pieces (fun row => place row.pkey) fun p => congrArg Database.taskAssign (same p)
  · exact perm_of_pieces (fun row => place row.receiverID) fun p => congrArg Database.message (same p)

-- However the keys are hashed to partitions: a partition that has only its own rows and sees
-- only the calls routed to it answers each of them, and ends, as in the whole database; and
-- two serial orders of the calls that agree on every partition have the same answers and rows.
theorem partitions_independent (log other : List Visit) (db : Database) :
    (∀ p, (perform Visit.step log db).1.fragment place p =
          (perform Visit.step (log.filter fun visit => place visit.key = p) (db.fragment place p)).1 ∧
        ((perform Visit.step log db).2.filter fun entry => place entry.1.key = p) =
          (perform Visit.step (log.filter fun visit => place visit.key = p) (db.fragment place p)).2) ∧
      ((∀ p, (log.filter fun visit => place visit.key = p) = other.filter fun visit => place visit.key = p) →
        (perform Visit.step log db).1.SameRows (perform Visit.step other db).1 ∧
        ∀ p, ((perform Visit.step log db).2.filter fun entry => place entry.1.key = p) =
          (perform Visit.step other db).2.filter fun entry => place entry.1.key = p) := by
  have law := visits_local place
  refine ⟨law.at_site log db,?_⟩
  intro same
  have free := law.order_free db same
  exact ⟨Database.sameRows_of_fragments place fun p => (free p).1,fun p => (free p).2⟩

end

-- One worker in each of two partitions; a task is pushed to both, in either order.
theorem partitions_independent_two :
    let two : Database := {Database.empty with worker:=[⟨0,1,0,0,"w0"⟩,⟨1,1,0,1,"w1"⟩]}
    let even : Visit := ⟨⟨.pushTask,[.int 0,.int 7]⟩,{},0,rfl⟩
    let odd : Visit := ⟨⟨.pushTask,[.int 1,.int 8]⟩,{},1,rfl⟩
    (perform Visit.step [even,odd] two).1.SameRows (perform Visit.step [odd,even] two).1 := by
  intro two even odd
  have same (p : Int) : ([even,odd].filter fun visit => visit.key % 2 = p) = [odd,even].filter fun visit => visit.key % 2 = p := by
    by_cases left : (0 : Int) = p
    · simp [even,odd,← left]
    · simp [even,odd,List.filter_cons,left]
  exact ((partitions_independent (fun key => key % 2) [even,odd] [odd,even] two).2 same).1

end DbosScheduler.Sql
