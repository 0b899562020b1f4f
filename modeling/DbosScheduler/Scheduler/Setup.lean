import DbosScheduler.Scheduler.Clients

namespace DbosScheduler.Scheduler
open Client Sql Table

-- setup() and what it leaves in the tables. A failed truncation is only logged;
-- a failed insert ends the setup with false.
def truncate (procedure : Procedure) (rest : Program α) : Program α := .invoke ⟨procedure,[]⟩ fun _ => rest

-- One insert for each index. The requests compute index % partitions_, which is
-- where a process with no partitions dies.
def insertEach (partitions : Nat) (request : ι → Request) : List ι → Program Bool
  | [] => .done (some true)
  | i :: rest =>
    if partitions = 0 then .done none else
    .invoke (request i) fun response =>
      if response.isSome then insertEach partitions request rest else .done (some false)

def insertWorkers (cfg : Config) : Program Bool :=
  insertEach cfg.partitions
    (fun i : Nat => ⟨.insertWorker,[.int i,.int cfg.workerCapacity,.int (i % cfg.partitions : Nat),.string ""]⟩)
    (List.range cfg.numWorkers)

def insertTasks (cfg : Config) : Program Bool :=
  insertEach cfg.partitions (fun i : Nat => ⟨.insertTask,[.int i,.int (-1),.int 1,.int (i % cfg.partitions : Nat)]⟩)
    (List.range cfg.numTasks)

def SinglePartitionedFIFOTaskScheduler.setup (cfg : Config) : Program Bool :=
  truncate .truncateWorkerTable (truncate .truncateTaskTable (insertWorkers cfg))

-- The only setup that leaves the Task table alone.
def PartitionedFIFOScheduler.setup (cfg : Config) : Program Bool :=
  truncate .truncateWorkerTable (insertWorkers cfg)

def PartitionedLocalFIFOScheduler.setup (cfg : Config) : Program Bool :=
  truncate .truncateWorkerTable (truncate .truncateTaskTable (insertWorkers cfg))

def PartitionedFIFOTaskScheduler.setup (cfg : Config) : Program Bool :=
  truncate .truncateWorkerTable (truncate .truncateTaskTable ((insertWorkers cfg).bind fun ret =>
    match ret with
    | some true => insertTasks cfg
    | ended => .done ended))

-- workerID = taskID % numWorkers_ comes before workerID % partitions_.
def PartitionedScanTask.setup (cfg : Config) : Program Bool :=
  truncate .truncateTaskTable (insertEach (min cfg.partitions cfg.numWorkers)
    (fun i : Nat => ⟨.insertTask,[.int i,.int (i % cfg.numWorkers : Nat),.int 1,
      .int (i % cfg.numWorkers % cfg.partitions : Nat)]⟩) (List.range cfg.numTasks))

def workerRow (cfg : Config) (i : Nat) : WorkerRow := ⟨i,cfg.workerCapacity,0,(i % cfg.partitions : Nat),""⟩
def taskRow (cfg : Config) (i : Nat) : TaskRow := ⟨i,-1,1,(i % cfg.partitions : Nat)⟩

-- W workers and no task, or W workers and T tasks that nobody has yet.
def populated (cfg : Config) (db : Database) : Database :=
  {db with worker:=(List.range cfg.numWorkers).map (workerRow cfg),task:=[],dataLocation:=[]}

def supplied (cfg : Config) (db : Database) : Database :=
  {populated cfg db with task:=(List.range cfg.numTasks).map (taskRow cfg)}

theorem insertEach_grows {db : Database} (grow : ι → Database → Database)
    (adds : ∀ i db choice after reply, invoke db (request i) choice = (after,some reply) → after = grow i db)
    (ran : solo invoke db (insertEach partitions request ids) choices = some (after,some true)) :
    after = ids.foldl (fun db i => grow i db) db := by
  induction ids generalizing db choices with
  | nil =>
    cases choices with
    | nil =>
      cases ran
      rfl
    | cons => cases ran
  | cons i ids ih =>
    unfold insertEach at ran
    split at ran
    · cases choices <;> cases ran
    · obtain ⟨choice,rest,rfl,went⟩ := solo_invoke ran
      cases served : invoke db (request i) choice with
      | mk stored response =>
        rw [served] at went
        cases response with
        | none => cases rest <;> cases went
        | some reply =>
          rw [List.foldl_cons,← adds i db choice stored reply served]
          exact ih went

theorem insertEach_only {requests : ι → Request} (asks : ∀ i, good (requests i)) (ids : List ι) :
    (insertEach partitions requests ids).Only good := by
  induction ids with
  | nil => exact .done
  | cons i ids ih =>
    unfold insertEach
    split
    · exact .done
    · refine .invoke (asks i) fun response => ?_
      cases response with
      | none => exact .done
      | some reply => exact ih

theorem foldl_workerRow (ids : List Nat) (db : Database) :
    ids.foldl (fun db i => {db with worker:=db.worker ++ [workerRow cfg i]}) db =
      {db with worker:=db.worker ++ ids.map (workerRow cfg)} := by
  induction ids generalizing db with
  | nil => simp
  | cons i ids ih => simp [ih]

theorem foldl_task (row : Nat → TaskRow) (ids : List Nat) (db : Database) :
    ids.foldl (fun db i => {db with task:=db.task ++ [row i]}) db = {db with task:=db.task ++ ids.map row} := by
  induction ids generalizing db with
  | nil => simp
  | cons i ids ih => simp [ih]

theorem insertWorkers_populates {db : Database}
    (ran : solo invoke db (insertWorkers cfg) choices = some (after,some true)) :
    after = {db with worker:=db.worker ++ (List.range cfg.numWorkers).map (workerRow cfg)} := by
  rw [← foldl_workerRow]
  refine insertEach_grows (fun i db => {db with worker:=db.worker ++ [workerRow cfg i]}) ?_ ran
  intro i db choice after reply served
  rcases invoke_cases (.insertWorker i cfg.workerCapacity (i % cfg.partitions : Nat) "") rfl served with
    ⟨missing,_⟩ | ⟨answer,_,committed⟩
  · cases missing
  · obtain ⟨code,inserted,_⟩ := reply_some committed
    obtain ⟨middle,added,ended⟩ := Option.bind_eq_some_iff.mp inserted
    cases ended
    exact (insertWorker_some added).2

theorem insertEach_tasks {db : Database} {requests : Nat → Request} (row : Nat → TaskRow)
    (asks : ∀ i, (requests i).call = some (.insertTask (row i).taskID (row i).workerID (row i).state (row i).pkey))
    (ran : solo invoke db (insertEach partitions requests ids) choices = some (after,some true)) :
    after = {db with task:=db.task ++ ids.map row} := by
  rw [← foldl_task]
  refine insertEach_grows (fun i db => {db with task:=db.task ++ [row i]}) ?_ ran
  intro i db choice after reply served
  rcases invoke_cases _ (asks i) served with ⟨missing,_⟩ | ⟨answer,_,committed⟩
  · cases missing
  · obtain ⟨code,inserted,_⟩ := reply_some committed
    obtain ⟨middle,added,ended⟩ := Option.bind_eq_some_iff.mp inserted
    cases ended
    exact (insertTask_some added).2

theorem invoke_truncateWorkerTable (calm : choice.fault = false) (db : Database) :
    invoke db ⟨.truncateWorkerTable,[]⟩ choice = ({db with worker:=[],dataLocation:=[]},some (.long 0)) := by
  change Call.execute .truncateWorkerTable choice db = _
  rw [Call.execute,calm]
  rfl

theorem invoke_truncateTaskTable (calm : choice.fault = false) (db : Database) :
    invoke db ⟨.truncateTaskTable,[]⟩ choice = ({db with task:=[]},some (.long 0)) := by
  change Call.execute .truncateTaskTable choice db = _
  rw [Call.execute,calm]
  rfl

-- What a truncation leaves of a table: nothing, or all of it if the call failed.
def leftover (choice : Choice) (rows : List α) : List α := if choice.fault then rows else []

theorem truncateWorkerTable_leaves (choice : Choice) (db : Database) :
    (invoke db ⟨.truncateWorkerTable,[]⟩ choice).1 =
      {db with worker:=leftover choice db.worker,dataLocation:=leftover choice db.dataLocation} := by
  cases fault : choice.fault with
  | true => simp [invoke_fault fault,leftover,fault]
  | false => simp [invoke_truncateWorkerTable fault,leftover,fault]

theorem truncateTaskTable_leaves (choice : Choice) (db : Database) :
    (invoke db ⟨.truncateTaskTable,[]⟩ choice).1 = {db with task:=leftover choice db.task} := by
  cases fault : choice.fault with
  | true => simp [invoke_fault fault,leftover,fault]
  | false => simp [invoke_truncateTaskTable fault,leftover,fault]

theorem truncated {db : Database} {rest : Program α}
    (ran : solo invoke db (truncate .truncateWorkerTable (truncate .truncateTaskTable rest)) choices = some ended) :
    ∃ first second others, choices = first :: second :: others ∧
      solo invoke {db with
        worker:=leftover first db.worker
        task:=leftover second db.task
        dataLocation:=leftover first db.dataLocation} rest others = some ended := by
  obtain ⟨first,remaining,rfl,cleared⟩ := solo_invoke ran
  obtain ⟨second,others,rfl,inserting⟩ := solo_invoke cleared
  rw [truncateWorkerTable_leaves,truncateTaskTable_leaves] at inserting
  exact ⟨first,second,others,rfl,inserting⟩

-- A setup that returns true has inserted every row, whatever was left before.
theorem setup_adds {db : Database}
    (ran : solo invoke db (SinglePartitionedFIFOTaskScheduler.setup cfg) choices = some (after,some true)) :
    ∃ first second others, choices = first :: second :: others ∧
      after = {db with
        worker:=leftover first db.worker ++ (List.range cfg.numWorkers).map (workerRow cfg)
        task:=leftover second db.task
        dataLocation:=leftover first db.dataLocation} := by
  obtain ⟨first,second,others,rfl,inserting⟩ := truncated ran
  exact ⟨first,second,others,rfl,insertWorkers_populates inserting⟩

theorem setup_readds {db : Database}
    (ran : solo invoke db (PartitionedFIFOScheduler.setup cfg) choices = some (after,some true)) :
    ∃ first others, choices = first :: others ∧
      after = {db with
        worker:=leftover first db.worker ++ (List.range cfg.numWorkers).map (workerRow cfg)
        dataLocation:=leftover first db.dataLocation} := by
  obtain ⟨first,others,rfl,inserting⟩ := solo_invoke ran
  rw [truncateWorkerTable_leaves] at inserting
  exact ⟨first,others,rfl,insertWorkers_populates inserting⟩

theorem setup_stocks {db : Database}
    (ran : solo invoke db (PartitionedFIFOTaskScheduler.setup cfg) choices = some (after,some true)) :
    ∃ first second others, choices = first :: second :: others ∧
      after = {db with
        worker:=leftover first db.worker ++ (List.range cfg.numWorkers).map (workerRow cfg)
        task:=leftover second db.task ++ (List.range cfg.numTasks).map (taskRow cfg)
        dataLocation:=leftover first db.dataLocation} := by
  obtain ⟨first,second,others,rfl,inserting⟩ := truncated ran
  refine ⟨first,second,others,rfl,?_⟩
  obtain ⟨left,right,middle,result,_,workers,tasks⟩ := solo_bind _ inserting
  cases result with
  | none => cases right <;> cases tasks
  | some ret =>
    cases ret with
    | false => cases right <;> cases tasks
    | true => rw [insertEach_tasks (taskRow cfg) (fun _ => rfl) tasks,insertWorkers_populates workers]

def scanRow (cfg : Config) (i : Nat) : TaskRow := ⟨i,(i % cfg.numWorkers : Nat),1,(i % cfg.numWorkers % cfg.partitions : Nat)⟩

theorem setup_scans {db : Database}
    (ran : solo invoke db (PartitionedScanTask.setup cfg) choices = some (after,some true)) :
    ∃ first others, choices = first :: others ∧
      after = {db with task:=leftover first db.task ++ (List.range cfg.numTasks).map (scanRow cfg)} := by
  obtain ⟨first,others,rfl,inserting⟩ := solo_invoke ran
  rw [truncateTaskTable_leaves] at inserting
  exact ⟨first,others,rfl,insertEach_tasks (scanRow cfg) (fun _ => rfl) inserting⟩

theorem setup_populates {db : Database} (calm : ∀ choice ∈ choices, choice.fault = false)
    (ran : solo invoke db (SinglePartitionedFIFOTaskScheduler.setup cfg) choices = some (after,some true)) :
    after = populated cfg db := by
  obtain ⟨first,second,others,rfl,rfl⟩ := setup_adds ran
  simp [populated,leftover,calm first,calm second]

theorem setup_repopulates {db : Database} (calm : ∀ choice ∈ choices, choice.fault = false)
    (ran : solo invoke db (PartitionedFIFOScheduler.setup cfg) choices = some (after,some true)) :
    after = {populated cfg db with task:=db.task} := by
  obtain ⟨first,others,rfl,rfl⟩ := setup_readds ran
  simp [populated,leftover,calm first]

theorem setup_supplies {db : Database} (calm : ∀ choice ∈ choices, choice.fault = false)
    (ran : solo invoke db (PartitionedFIFOTaskScheduler.setup cfg) choices = some (after,some true)) :
    after = supplied cfg db := by
  obtain ⟨first,second,others,rfl,rfl⟩ := setup_stocks ran
  simp [supplied,populated,leftover,calm first,calm second]

-- The key columns of the Worker table as setup makes them. No transaction of
-- the schedulers or of the workers ever changes them.
def Roster (cfg : Config) (db : Database) : Prop :=
  db.worker.map WorkerRow.key = (List.range cfg.numWorkers).map fun i => (((i % cfg.partitions : Nat) : Int),(i : Int))

theorem populated_roster (cfg : Config) (db : Database) : Roster cfg (populated cfg db) := by
  simp only [Roster,populated,List.map_map]
  rfl

variable {cfg : Config} {db : Database}

theorem Roster.nodup (roster : Roster cfg db) : (db.worker.map WorkerRow.key).Nodup := by
  rw [roster]
  refine List.nodup_range.map ?_
  intro left right same
  exact Int.ofNat.inj (Prod.mk.inj same).2

theorem Roster.place (roster : Roster cfg db) (member : row ∈ db.worker) :
    ∃ i, i < cfg.numWorkers ∧ row.workerID = (i : Int) ∧ row.pkey = (i % cfg.partitions : Nat) := by
  have listed : row.key ∈ db.worker.map WorkerRow.key := List.mem_map_of_mem member
  rw [roster] at listed
  obtain ⟨i,inside,same⟩ := List.mem_map.mp listed
  exact ⟨i,List.mem_range.mp inside,(Prod.mk.inj same).2.symm,(Prod.mk.inj same).1.symm⟩

-- The worker id alone identifies a row, as the cross-partition updates rely on.
theorem Roster.named (roster : Roster cfg db) (left : first ∈ db.worker) (right : second ∈ db.worker) :
    first.workerID = second.workerID ↔ first.key = second.key := by
  obtain ⟨i,_,firstID,firstKey⟩ := roster.place left
  obtain ⟨j,_,secondID,secondKey⟩ := roster.place right
  constructor
  · intro same
    have equal : i = j := by
      rw [firstID,secondID] at same
      exact Int.ofNat.inj same
    simp [WorkerRow.key,firstID,firstKey,secondID,secondKey,equal]
  · intro same
    exact (Prod.mk.inj same).2

theorem Roster.row (roster : Roster cfg db) (registered : w < cfg.numWorkers) :
    ∃ row, db.worker.filter (fun row => row.workerID == (w : Int)) = [row] ∧
      row ∈ db.worker ∧ row.key = (((w % cfg.partitions : Nat) : Int),(w : Int)) := by
  have listed : (((w % cfg.partitions : Nat) : Int),(w : Int)) ∈ db.worker.map WorkerRow.key := by
    rw [roster]
    exact List.mem_map.mpr ⟨w,List.mem_range.mpr registered,rfl⟩
  obtain ⟨row,member,key⟩ := List.mem_map.mp listed
  refine ⟨row,filter_unique roster.nodup member ?_,member,key⟩
  intro other present
  rw [beq_iff_eq,← roster.named present member,show row.workerID = w from (Prod.mk.inj key).2]

end DbosScheduler.Scheduler
