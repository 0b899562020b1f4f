import DbosScheduler.Sql.Effects

namespace DbosScheduler.Sql
open Table
variable {db after : Database} {pkey workerID taskID state : Int}

-- The account between the two tables: what a worker has left plus what it still
-- owes is a constant of the worker. Every transaction is checked against it once.
def unfinishedOf (pkey workerID : Int) (row : TaskRow) : Bool :=
  row.pkey == pkey && row.workerID == workerID && (row.state == pending || row.state == running)

def unfinished (db : Database) (pkey workerID : Int) : Nat := db.task.countP (unfinishedOf pkey workerID)

structure Keyed (db : Database) : Prop where
  worker : (db.worker.map WorkerRow.key).Nodup
  task : (db.task.map TaskRow.key).Nodup

def Balanced (total : Int × Int → Int) (db : Database) : Prop :=
  ∀ row ∈ db.worker, row.capacity + unfinished db row.pkey row.workerID = total row.key

def NonNegative (db : Database) : Prop := ∀ row ∈ db.worker, 0 ≤ row.capacity

@[simp] theorem unfinishedOf_iff {row : TaskRow} : unfinishedOf pkey workerID row = true ↔
    row.pkey = pkey ∧ row.workerID = workerID ∧ (row.state = pending ∨ row.state = running) := by
  simp [unfinishedOf,and_assoc]

theorem Balanced.bounds (balanced : Balanced total db) (sound : NonNegative db) (member : row ∈ db.worker) :
    0 ≤ row.capacity ∧ row.capacity ≤ total row.key ∧ (unfinished db row.pkey row.workerID : Int) ≤ total row.key := by
  have account := balanced row member
  have low := sound row member
  omega

section Assign
variable {row other : WorkerRow}

theorem mem_charge (keyed : (db.worker.map WorkerRow.key).Nodup) (member : row ∈ db.worker)
    (found : other ∈ (db.charge row).worker) :
    other = {row with capacity:=row.capacity - 1} ∨ (other ∈ db.worker ∧ other.key ≠ row.key) := by
  obtain ⟨left,right,cut,others,changed⟩ := setCapacity_unique keyed member
  simp only [Database.charge,changed,List.mem_append,List.mem_cons] at found
  rcases found with before | rfl | after
  · exact .inr ⟨by simp [cut,before],others other (by simp [before])⟩
  · exact .inl rfl
  · exact .inr ⟨by simp [cut,after],others other (by simp [after])⟩

@[simp] theorem charge_keys (row : WorkerRow) (db : Database) :
    (db.charge row).worker.map WorkerRow.key = db.worker.map WorkerRow.key := setCapacity_keys _

@[simp] theorem assign_keys (row : WorkerRow) (db : Database) :
    (db.assign taskID state row).worker.map WorkerRow.key = db.worker.map WorkerRow.key := setCapacity_keys _

theorem Keyed.charge (keyed : Keyed db) (row : WorkerRow) : Keyed (db.charge row) :=
  ⟨by simpa using keyed.worker,keyed.task⟩

theorem Keyed.assign (keyed : Keyed db) (fresh : Fresh db row.pkey taskID) : Keyed (db.assign taskID state row) := by
  refine ⟨by simpa using keyed.worker,?_⟩
  have absent : (row.pkey,taskID) ∉ db.task.map TaskRow.key := by
    intro present
    obtain ⟨old,member,same⟩ := List.mem_map.mp present
    exact fresh old member same
  have joined : (db.task.map TaskRow.key ++ [(row.pkey,taskID)]).Nodup := by
    rw [List.nodup_append]
    refine ⟨keyed.task,by simp,?_⟩
    rintro key present _ single rfl
    exact absent (List.mem_singleton.mp single ▸ present)
  simpa [Database.assign,TaskRow.key] using joined

theorem unfinished_assign (counted : state = pending ∨ state = running) (db : Database) (pkey workerID : Int) :
    unfinished (db.assign taskID state row) pkey workerID =
      unfinished db pkey workerID + if row.key = (pkey,workerID) then 1 else 0 := by
  have step : unfinishedOf pkey workerID ⟨taskID,row.workerID,state,row.pkey⟩ = decide (row.key = (pkey,workerID)) := by
    rw [Bool.eq_iff_iff]
    simp [WorkerRow.key,counted]
  simp only [unfinished,Database.assign,List.countP_append,List.countP_cons,List.countP_nil,step]
  simp

theorem Balanced.assign (balanced : Balanced total db) (keyed : Keyed db) (free : Free db pkey row)
    (counted : state = pending ∨ state = running) : Balanced total (db.assign taskID state row) := by
  intro other found
  rw [unfinished_assign counted]
  rcases mem_charge keyed.worker free.1 found with rfl | ⟨member,apart⟩
  · have account := balanced row free.1
    simp only [WorkerRow.key,if_true] at account ⊢
    push_cast
    omega
  · have account := balanced other member
    have different : row.key ≠ (other.pkey,other.workerID) := fun same => apart same.symm
    simpa [different] using account

theorem NonNegative.charge (sound : NonNegative db) (keyed : (db.worker.map WorkerRow.key).Nodup)
    (free : Free db pkey row) : NonNegative (db.charge row) := by
  intro other found
  rcases mem_charge keyed free.1 found with rfl | ⟨member,_⟩
  · have := free.2.2
    simp only
    omega
  · exact sound other member

theorem NonNegative.assign (sound : NonNegative db) (keyed : Keyed db) (free : Free db pkey row) :
    NonNegative (db.assign taskID state row) :=
  sound.charge keyed.worker free

end Assign

section HandOut
variable {ids : List Int} {rows picked : List TaskRow} {row : TaskRow}

theorem mem_markRunning : row ∈ markRunning pkey workerID ids rows ↔
    (row ∈ rows ∧ marked pkey workerID ids row = false) ∨
      ∃ old ∈ rows, marked pkey workerID ids old = true ∧ row = {old with state:=2} := by
  rw [markRunning,mem_update]
  constructor
  · intro given
    obtain ⟨old,member,rfl⟩ := given
    cases chosen : marked pkey workerID ids old with
    | true => exact .inr ⟨old,member,chosen,by simp⟩
    | false => exact .inl ⟨by simpa using member,by simpa using chosen⟩
  · intro given
    rcases given with ⟨member,skipped⟩ | ⟨old,member,chosen,rfl⟩
    · exact ⟨row,member,by simp [skipped]⟩
    · exact ⟨old,member,by simp [chosen]⟩

@[simp] theorem markRunning_keys (rows : List TaskRow) :
    (markRunning pkey workerID ids rows).map TaskRow.key = rows.map TaskRow.key := by
  apply map_update
  intro row _
  rfl

-- Inside one partition an id names one row, so the rows that the updates hit
-- are the rows that the query returned.
theorem marked_pending (keyed : (rows.map TaskRow.key).Nodup) (member : row ∈ rows)
    (within : picked.Subperm (rows.filter (pendingOf pkey workerID)))
    (hit : marked pkey workerID (picked.map TaskRow.taskID) row = true) : row ∈ picked ∧ row.state = pending := by
  obtain ⟨here,named,listed⟩ := marked_iff.mp hit
  obtain ⟨source,chosen,same⟩ := List.mem_map.mp listed
  obtain ⟨inside,waiting⟩ := List.mem_filter.mp (within.subset chosen)
  simp only [pendingOf,Bool.and_eq_true,beq_iff_eq] at waiting
  have equal : source = row := key_unique keyed inside member (by simp [TaskRow.key,waiting.1.1,here,same])
  exact ⟨equal ▸ chosen,equal ▸ waiting.2⟩

-- The table after a hand-out, row by row.
theorem mem_handOut (keyed : (rows.map TaskRow.key).Nodup)
    (within : picked.Subperm (rows.filter (pendingOf pkey workerID))) :
    row ∈ markRunning pkey workerID (picked.map TaskRow.taskID) rows ↔
      (row ∈ rows ∧ row ∉ picked) ∨ ∃ old ∈ picked, row = {old with state:=2} := by
  have hits : ∀ old ∈ picked, old ∈ rows ∧ marked pkey workerID (picked.map TaskRow.taskID) old = true := by
    intro old chosen
    obtain ⟨member,waiting⟩ := List.mem_filter.mp (within.subset chosen)
    simp only [pendingOf,Bool.and_eq_true,beq_iff_eq] at waiting
    exact ⟨member,marked_iff.mpr ⟨waiting.1.1,waiting.1.2,List.mem_map_of_mem chosen⟩⟩
  rw [mem_markRunning]
  constructor
  · intro given
    rcases given with ⟨member,skipped⟩ | ⟨old,member,hit,rfl⟩
    · refine .inl ⟨member,fun chosen => ?_⟩
      rw [(hits row chosen).2] at skipped
      cases skipped
    · exact .inr ⟨old,(marked_pending keyed member within hit).1,rfl⟩
  · intro given
    rcases given with ⟨member,skipped⟩ | ⟨old,chosen,rfl⟩
    · refine .inl ⟨member,Bool.eq_false_iff.mpr fun hit => ?_⟩
      exact skipped (marked_pending keyed member within hit).1
    · exact .inr ⟨old,(hits old chosen).1,(hits old chosen).2,rfl⟩

theorem picked_ids_nodup (keyed : (rows.map TaskRow.key).Nodup)
    (within : picked.Subperm (rows.filter (pendingOf pkey workerID))) : (picked.map TaskRow.taskID).Nodup := by
  have distinct : (rows.filter (pendingOf pkey workerID)).Nodup := keyed.of_map.filter _
  have separate : picked.Nodup := by
    obtain ⟨exact,permuted,below⟩ := within
    exact permuted.nodup_iff.mp (distinct.sublist below)
  refine separate.map_on ?_
  intro left leftIn right rightIn same
  obtain ⟨leftRow,leftPending⟩ := List.mem_filter.mp (within.subset leftIn)
  obtain ⟨rightRow,rightPending⟩ := List.mem_filter.mp (within.subset rightIn)
  simp only [pendingOf,Bool.and_eq_true,beq_iff_eq] at leftPending rightPending
  exact key_unique keyed leftRow rightRow (by simp [TaskRow.key,leftPending.1.1,rightPending.1.1,same])

theorem Keyed.handOut (keyed : Keyed db) : Keyed {db with task:=markRunning pkey workerID ids db.task} :=
  ⟨keyed.worker,by simpa using keyed.task⟩

theorem Balanced.handOut (balanced : Balanced total db) (keyed : Keyed db)
    (within : picked.Subperm (db.task.filter (pendingOf pkey workerID))) :
    Balanced total {db with task:=markRunning pkey workerID (picked.map TaskRow.taskID) db.task} := by
  intro row member
  have same : unfinished {db with task:=markRunning pkey workerID (picked.map TaskRow.taskID) db.task}
      row.pkey row.workerID = unfinished db row.pkey row.workerID := by
    apply countP_update
    intro task present hit
    have before := (marked_pending keyed.task present within hit).2
    simp [unfinishedOf,before]
  rw [same]
  exact balanced row member

end HandOut

section Complete
variable {rows : List TaskRow} {row : TaskRow}

def completed (pkey taskID workerID : Int) (row : TaskRow) : Bool :=
  row.pkey == pkey && row.taskID == taskID && row.workerID == workerID

-- The tables after WorkerUpdateTask(pkey, workerID, taskID, COMPLETE).
def Database.finish (pkey workerID taskID : Int) (db : Database) : Database :=
  {db with
    worker:=(update (ofWorker pkey workerID) (fun row => {row with capacity:=row.capacity+1}) db.worker)
    task:=(update (completed pkey taskID workerID) (fun row => {row with state:=3}) db.task)}

@[simp] theorem completed_iff {row : TaskRow} : completed pkey taskID workerID row = true ↔
    row.pkey = pkey ∧ row.taskID = taskID ∧ row.workerID = workerID := by
  simp [completed,and_assoc]

-- The only way in which a completion aborts is that a credited row overflows.
theorem WorkerUpdateTask.run_complete : WorkerUpdateTask.run pkey workerID taskID complete db =
    if db.worker.all fun row => !ofWorker pkey workerID row || integer (row.capacity + 1) then
      some (success,db.finish pkey workerID taskID)
    else none := by
  have legal : integer complete = true := by decide
  simp only [WorkerUpdateTask.run,WorkerUpdateTask.updateTask,legal,if_true,Option.bind_eq_bind,Option.bind_some]
  unfold WorkerUpdateTask.updateCapacity
  split <;> rfl

theorem WorkerUpdateTask.commits : (WorkerUpdateTask.run pkey workerID taskID complete db).isSome = true ↔
    ∀ row ∈ db.worker, row.key = (pkey,workerID) → integer (row.capacity + 1) = true := by
  have test : (db.worker.all fun row => !ofWorker pkey workerID row || integer (row.capacity + 1)) = true ↔
      ∀ row ∈ db.worker, row.key = (pkey,workerID) → integer (row.capacity + 1) = true := by
    rw [List.all_eq_true]
    refine forall₂_congr fun row member => ?_
    by_cases mine : ofWorker pkey workerID row = true
    · simp [mine,WorkerRow.key,ofWorker_iff.mp mine]
    · have other : row.key ≠ (pkey,workerID) := fun same => mine (ofWorker_iff.mpr (Prod.mk.inj same))
      simp [mine,other]
  rw [← test,WorkerUpdateTask.run_complete]
  split <;> simp_all

theorem finish_of_run (ran : WorkerUpdateTask.run pkey workerID taskID complete db = some (result,after)) :
    result = success ∧ after = db.finish pkey workerID taskID := by
  rw [WorkerUpdateTask.run_complete] at ran
  split at ran
  · cases ran
    exact ⟨rfl,rfl⟩
  · cases ran

theorem Keyed.finish (keyed : Keyed db) : Keyed (db.finish pkey workerID taskID) := by
  refine ⟨?_,?_⟩
  · rw [Database.finish,map_update WorkerRow.key (by intro row _; rfl)]
    exact keyed.worker
  · rw [Database.finish,map_update TaskRow.key (by intro row _; rfl)]
    exact keyed.task

theorem finish_worker_keys : (db.finish pkey workerID taskID).worker.map WorkerRow.key = db.worker.map WorkerRow.key :=
  map_update WorkerRow.key (by intro row _; rfl) _

theorem NonNegative.finish (sound : NonNegative db) : NonNegative (db.finish pkey workerID taskID) := by
  intro row member
  obtain ⟨old,present,rfl⟩ := mem_update.mp member
  have low := sound old present
  split
  · simp only
    omega
  · exact low

-- With unique ids the update hits at most one row of the table.
theorem completed_unique (keyed : (rows.map TaskRow.key).Nodup) (member : row ∈ rows)
    (hit : completed pkey taskID workerID row = true) :
    ∃ left right, rows = left ++ row :: right ∧ (∀ other ∈ left ++ right, other.key ≠ row.key) ∧
      ∀ change, update (completed pkey taskID workerID) change rows = left ++ change row :: right := by
  obtain ⟨here,named,owner⟩ := completed_iff.mp hit
  apply update_unique keyed member
  intro other present
  constructor
  · intro also
    obtain ⟨there,title,_⟩ := completed_iff.mp also
    simp [TaskRow.key,here,named,there,title]
  · intro same
    rw [key_unique keyed present member same]
    exact hit

-- The table after a completion, row by row.
theorem mem_finish_task (keyed : Keyed db) (member : row ∈ db.task)
    (hit : completed pkey taskID workerID row = true) (found : TaskRow) :
    found ∈ (db.finish pkey workerID taskID).task ↔
      found = {row with state:=3} ∨ (found ∈ db.task ∧ found.key ≠ row.key) := by
  obtain ⟨left,right,cut,others,changed⟩ := completed_unique keyed.task member hit
  have present : found ∈ db.task ↔ found ∈ left ++ row :: right := by rw [cut]
  simp only [Database.finish,changed,present,List.mem_append,List.mem_cons]
  constructor
  · intro given
    rcases given with before | rfl | after
    · exact .inr ⟨.inl before,others found (by simp [before])⟩
    · exact .inl rfl
    · exact .inr ⟨.inr (.inr after),others found (by simp [after])⟩
  · intro given
    rcases given with rfl | ⟨before | rfl | after,apart⟩
    · exact .inr (.inl rfl)
    · exact .inl before
    · exact absurd rfl apart
    · exact .inr (.inr after)

theorem unfinished_finish (keyed : Keyed db) (member : row ∈ db.task)
    (hit : completed pkey taskID workerID row = true) (open_ : row.state = pending ∨ row.state = running)
    (otherKey otherID : Int) :
    unfinished (db.finish pkey workerID taskID) otherKey otherID +
      (if (otherKey,otherID) = (pkey,workerID) then 1 else 0) = unfinished db otherKey otherID := by
  obtain ⟨here,named,owner⟩ := completed_iff.mp hit
  obtain ⟨left,right,cut,_,changed⟩ := completed_unique keyed.task member hit
  have before : unfinishedOf otherKey otherID row = decide ((otherKey,otherID) = (pkey,workerID)) := by
    rw [Bool.eq_iff_iff]
    simp only [unfinishedOf_iff,here,owner,open_,and_true,decide_eq_true_eq,Prod.mk.injEq]
    omega
  have after : unfinishedOf otherKey otherID {row with state:=3} = false := by simp [unfinishedOf,pending,running]
  simp only [unfinished,Database.finish,changed]
  rw [cut]
  simp only [List.countP_append,List.countP_cons,before,after]
  split
  · simp_all
  · simp_all
    omega

theorem Balanced.finish (balanced : Balanced total db) (keyed : Keyed db) (member : row ∈ db.task)
    (hit : completed pkey taskID workerID row = true) (open_ : row.state = pending ∨ row.state = running) :
    Balanced total (db.finish pkey workerID taskID) := by
  intro other found
  obtain ⟨old,present,rfl⟩ := mem_update.mp found
  have account := balanced old present
  have moved := unfinished_finish keyed member hit open_ old.pkey old.workerID
  by_cases same : ofWorker pkey workerID old = true
  · obtain ⟨here,owner⟩ := ofWorker_iff.mp same
    simp only [same,if_true,here,owner,WorkerRow.key] at moved account ⊢
    push_cast [← moved] at account
    omega
  · have apart : ¬((old.pkey,old.workerID) = (pkey,workerID)) := by
      intro equal
      exact same (ofWorker_iff.mpr (by simpa using equal))
    simp only [apart,if_false,Nat.add_zero] at moved
    simpa [same,moved] using account

end Complete

section Changes

-- The transactions of a system in which every task is placed pending, handed to
-- its worker, and finished by it. `who` is the worker that the change is made by.
inductive Change (db : Database) : Option Int → Database → Prop where
  | none : Change db who db
  | placed {pkey taskID : Int} {row : WorkerRow} : Free db pkey row → Fresh db pkey taskID →
      Change db .none (db.assign taskID pending row)
  | handedOut {pkey workerID : Int} {picked : List TaskRow} :
      picked.Subperm (db.task.filter (pendingOf pkey workerID)) →
      Change db (some workerID) {db with task:=markRunning pkey workerID (picked.map TaskRow.taskID) db.task}
  | finished {pkey workerID taskID : Int} : ⟨taskID,workerID,running,pkey⟩ ∈ db.task →
      Change db (some workerID) (db.finish pkey workerID taskID)

-- The life of the rows: none disappears, its key and its worker never change,
-- and its state moves forward one step at a time. Rows are born pending.
def forward (old new : Int) : Prop := new = old ∨ (old = pending ∧ new = running) ∨ (old = running ∧ new = complete)

structure Progress (db after : Database) : Prop where
  kept : ∀ row ∈ db.task, ∃ state, forward row.state state ∧ {row with state:=state} ∈ after.task
  born : ∀ row ∈ after.task, (∃ old ∈ db.task, old.key = row.key) ∨ row.state = pending

variable {who : Option Int}

theorem Change.keys (change : Change db who after) : after.worker.map WorkerRow.key = db.worker.map WorkerRow.key := by
  cases change with
  | none => rfl
  | placed => simp
  | handedOut => rfl
  | finished => exact finish_worker_keys

theorem Change.keyed (change : Change db who after) (keyed : Keyed db) : Keyed after := by
  cases change with
  | none => exact keyed
  | placed free fresh => exact keyed.assign (free.2.1 ▸ fresh)
  | handedOut => exact keyed.handOut
  | finished => exact keyed.finish

theorem Change.nonNegative (change : Change db who after) (keyed : Keyed db) (sound : NonNegative db) :
    NonNegative after := by
  cases change with
  | none => exact sound
  | placed free => exact sound.assign keyed free
  | handedOut => exact sound
  | finished => exact sound.finish

theorem Change.balanced (change : Change db who after) (keyed : Keyed db) (balanced : Balanced total db) :
    Balanced total after := by
  cases change with
  | none => exact balanced
  | placed free => exact balanced.assign keyed free (.inl rfl)
  | handedOut within => exact balanced.handOut keyed within
  | finished member => exact balanced.finish keyed member (by simp) (.inr rfl)

theorem Change.progress (change : Change db who after) (keyed : Keyed db) : Progress db after := by
  cases change with
  | none => exact ⟨fun row member => ⟨row.state,.inl rfl,member⟩,fun row member => .inl ⟨row,member,rfl⟩⟩
  | placed =>
    refine ⟨fun row member => ⟨row.state,.inl rfl,List.mem_append_left _ member⟩,fun row member => ?_⟩
    rcases List.mem_append.mp member with old | new
    · exact .inl ⟨row,old,rfl⟩
    · cases List.mem_singleton.mp new
      exact .inr rfl
  | @handedOut pkey workerID picked within =>
    refine ⟨fun row member => ?_,fun row member => ?_⟩
    · by_cases chosen : row ∈ picked
      · obtain ⟨_,waiting⟩ := List.mem_filter.mp (within.subset chosen)
        simp only [pendingOf,Bool.and_eq_true,beq_iff_eq] at waiting
        exact ⟨running,.inr (.inl ⟨waiting.2,rfl⟩),(mem_handOut keyed.task within).mpr (.inr ⟨row,chosen,rfl⟩)⟩
      · exact ⟨row.state,.inl rfl,(mem_handOut keyed.task within).mpr (.inl ⟨member,chosen⟩)⟩
    · rcases (mem_handOut keyed.task within).mp member with ⟨old,_⟩ | ⟨old,chosen,rfl⟩
      · exact .inl ⟨row,old,rfl⟩
      · exact .inl ⟨old,(List.mem_filter.mp (within.subset chosen)).1,rfl⟩
  | @finished pkey workerID taskID present =>
    have table := mem_finish_task keyed present (completed_iff.mpr ⟨rfl,rfl,rfl⟩)
    refine ⟨fun row member => ?_,fun row member => ?_⟩
    · by_cases same : row.key = (pkey,taskID)
      · have equal := key_unique keyed.task member present same
        exact ⟨complete,.inr (.inr ⟨by rw [equal],rfl⟩),(table _).mpr (.inl (by rw [equal]))⟩
      · exact ⟨row.state,.inl rfl,(table _).mpr (.inr ⟨member,same⟩)⟩
    · rcases (table row).mp member with rfl | ⟨old,_⟩
      · exact .inl ⟨_,present,rfl⟩
      · exact .inl ⟨row,old,rfl⟩

-- A worker's started rows are touched by nobody else.
theorem Change.frame (change : Change db who after) (keyed : Keyed db) (other : who ≠ some workerID)
    (started : state = running ∨ state = complete) (pkey taskID : Int) :
    ⟨taskID,workerID,state,pkey⟩ ∈ after.task ↔ ⟨taskID,workerID,state,pkey⟩ ∈ db.task := by
  cases change with
  | none => rfl
  | placed =>
    simp only [Database.assign,List.mem_append,List.mem_singleton,TaskRow.mk.injEq]
    constructor
    · intro given
      rcases given with old | new
      · exact old
      · rcases started with rfl | rfl <;> exact absurd new.2.2.1 (by decide)
    · exact .inl
  | @handedOut place owner picked within =>
    have apart : owner ≠ workerID := fun same => other (by rw [same])
    have owned : ∀ row ∈ picked, row.workerID = owner := by
      intro row chosen
      obtain ⟨_,waiting⟩ := List.mem_filter.mp (within.subset chosen)
      simp only [pendingOf,Bool.and_eq_true,beq_iff_eq] at waiting
      exact waiting.1.2
    rw [mem_handOut keyed.task within]
    constructor
    · intro given
      rcases given with ⟨member,_⟩ | ⟨old,chosen,same⟩
      · exact member
      · exact absurd (by rw [← owned old chosen,← congrArg TaskRow.workerID same]) apart
    · intro member
      exact .inl ⟨member,fun chosen => apart (owned _ chosen).symm⟩
  | @finished place owner title present =>
    have apart : owner ≠ workerID := fun same => other (by rw [same])
    rw [mem_finish_task keyed present (completed_iff.mpr ⟨rfl,rfl,rfl⟩)]
    constructor
    · intro given
      rcases given with same | ⟨member,_⟩
      · exact absurd (congrArg TaskRow.workerID same).symm apart
      · exact member
    · intro member
      exact .inr ⟨member,fun same => apart (congrArg TaskRow.workerID (key_unique keyed.task member present same)).symm⟩

end Changes
end DbosScheduler.Sql
