import DbosScheduler.Scheduler.Setup

namespace DbosScheduler.FifoTask
open Machine Client Sql Scheduler Table

-- Any number of clients run PartitionedFIFOTaskScheduler::selectTaskWorker over
-- the tables that setup() filled. The tasks exist from the start: a successful
-- call only writes a worker id into a row and takes one unit of capacity.
structure State where
  db : Database
  clients : List (Program Bool)

inductive Action where
  | start (rand : Nat) (single : Bool)
  | client (i : Nat) (choice : Choice)
  deriving Repr, DecidableEq

-- A transaction with what the engine was free to decide in it.
structure Event where
  request : Request
  choice : Choice
  response : Response
  deriving Repr, DecidableEq

def advance (cfg : Config) : Advance State Action Event
  | s,.start rand single =>
    some ({s with clients:=s.clients ++ [PartitionedFIFOTaskScheduler.selectTaskWorker cfg rand single]},[])
  | s,.client i choice => do
    let (db,clients,request,response) ← serve invoke s.db s.clients i choice
    return (⟨db,clients⟩,[⟨request,choice,response⟩])

def State.start (cfg : Config) (db : Database) : State := ⟨supplied cfg db,[]⟩

def Event.succeeded (event : Event) : Bool := event.response == some (.long success)

-- The rows that the two LIMIT 1 queries of an assignment return.
def queried (request : Request) (choice : Choice) (db : Database) : Option (TaskRow × WorkerRow) :=
  match request.call with
  | some (.selectPartitionedTaskWorker pkey) => do
    let task ← SelectPartitionedTaskWorker.selectTask choice pkey db
    let row ← selectWorker choice pkey db
    return (task,row)
  | some .selectTaskWorker => do
    let task ← SelectTaskWorker.selectTask choice db
    let row ← SelectTaskWorker.selectWorker choice db
    return (task,row)
  | _ => none

-- Nothing stops the transaction on its way from these rows to the commit.
def goesThrough (choice : Choice) (row : WorkerRow) : Bool := !choice.fault && fits row

-- The assignment that a step is about to make, read off the state before it.
def State.assigns (s : State) : Action → Option (TaskRow × WorkerRow)
  | .start _ _ => none
  | .client i choice =>
    match s.clients[i]? with
    | some (.invoke request _) => (queried request choice s.db).filter fun found => goesThrough choice found.2
    | _ => none

def Assigns (request : Request) : Prop :=
  request = ⟨.selectTaskWorker,[]⟩ ∨ ∃ pkey, request = ⟨.selectPartitionedTaskWorker,[.int pkey]⟩

theorem selectTaskWorker_assigns :
    (PartitionedFIFOTaskScheduler.selectTaskWorker cfg rand single).Only Assigns :=
  PartitionedFIFOTaskScheduler.only_selectTaskWorker (.inl rfl) fun pkey _ => .inr ⟨pkey,rfl⟩

-- An assignment seen on the tables: one worker row and one task row change.
structure Taken (db after : Database) (task : TaskRow) (row : WorkerRow) : Prop where
  capacity : 0 < row.capacity
  charged : ∃ left right, db.worker = left ++ row :: right ∧
    after.worker = left ++ {row with capacity:=row.capacity - 1} :: right
  placed : ∃ left right, db.task = left ++ task :: right ∧
    after.task = left ++ {task with workerID:=row.workerID} :: right

-- What setup() put into the columns that no assignment writes.
def Stock (cfg : Config) (db : Database) : Prop :=
  db.task.map (fun row => (row.taskID,row.state,row.pkey)) =
    (List.range cfg.numTasks).map fun i : Nat => ((i : Int),(1 : Int),((i % cfg.partitions : Nat) : Int))

structure Sound (cfg : Config) (s : State) : Prop where
  roster : Roster cfg s.db
  stock : Stock cfg s.db
  named : ∀ task ∈ s.db.task, task.workerID = -1 ∨ ∃ row ∈ s.db.worker, task.workerID = row.workerID
  clients : ∀ prog ∈ s.clients, prog.Only Assigns

variable {cfg : Config} {db after : Database} {s next : State} {task : TaskRow} {row : WorkerRow}

theorem Stock.ids (stock : Stock cfg db) : (db.task.map TaskRow.taskID).Nodup := by
  have first := congrArg (List.map Prod.fst) stock
  simp only [List.map_map,Function.comp_def] at first
  rw [first]
  exact List.nodup_range.map fun _ _ same => Int.ofNat.inj same

theorem Stock.pending (stock : Stock cfg db) (member : task ∈ db.task) : task.state = 1 := by
  have listed : (task.taskID,task.state,task.pkey) ∈ db.task.map fun row => (row.taskID,row.state,row.pkey) :=
    List.mem_map_of_mem (f := fun row : TaskRow => (row.taskID,row.state,row.pkey)) member
  rw [stock] at listed
  obtain ⟨i,_,same⟩ := List.mem_map.mp listed
  exact (Prod.mk.inj (Prod.mk.inj same).2).1.symm

theorem Stock.length (stock : Stock cfg db) : db.task.length = cfg.numTasks := by
  simpa using congrArg List.length stock

-- The cross-partition updates have no partition in their WHERE clause; the ids
-- alone single out the rows.
theorem SelectTaskWorker_taken (roster : Roster cfg db) (stock : Stock cfg db)
    (ran : SelectTaskWorker.run choice db = some (code,after)) :
    (code ≠ success ∧ after = db) ∨ (code = success ∧ ∃ task row, SelectTaskWorker.selectTask choice db = some task ∧
      SelectTaskWorker.selectWorker choice db = some row ∧ fits row = true ∧ Taken db after task row) := by
  rcases SelectTaskWorker.run_cases ran with failed | ⟨task,row,taskFound,workerFound,fit,rfl,rfl⟩
  · exact .inl failed
  · have taskIn : task ∈ db.task := limitOne_mem taskFound
    obtain ⟨rowIn,capacity⟩ : row ∈ db.worker ∧ 0 < row.capacity := by simpa using limitOne_mem workerFound
    have oneWorker : ∀ other ∈ db.worker, (other.workerID == row.workerID) = true ↔ other.key = row.key := by
      intro other present
      rw [beq_iff_eq]
      exact roster.named present rowIn
    have oneTask : ∀ other ∈ db.task, (other.taskID == task.taskID) = true ↔ other.taskID = task.taskID :=
      fun _ _ => beq_iff_eq
    obtain ⟨left,right,cut,_,changed⟩ := update_unique roster.nodup rowIn oneWorker
    obtain ⟨before,behind,parted,_,moved⟩ := update_unique stock.ids taskIn oneTask
    exact .inr ⟨rfl,task,row,taskFound,workerFound,fit,capacity,⟨left,right,cut,changed _⟩,⟨before,behind,parted,moved _⟩⟩

theorem SelectPartitionedTaskWorker_taken (roster : Roster cfg db) (stock : Stock cfg db)
    (ran : SelectPartitionedTaskWorker.run choice pkey db = some (code,after)) :
    (code ≠ success ∧ after = db) ∨ (code = success ∧ ∃ task row,
      SelectPartitionedTaskWorker.selectTask choice pkey db = some task ∧ selectWorker choice pkey db = some row ∧
      fits row = true ∧ Taken db after task row) := by
  rcases SelectPartitionedTaskWorker.run_cases ran with failed | ⟨task,row,taskFound,workerFound,fit,rfl,rfl⟩
  · exact .inl failed
  · obtain ⟨taskIn,here⟩ : task ∈ db.task ∧ task.pkey = pkey := by simpa using limitOne_mem taskFound
    obtain ⟨rowIn,_,capacity⟩ := selectWorker_some workerFound
    have oneTask : ∀ other ∈ db.task,
        (other.pkey == pkey && other.taskID == task.taskID) = true ↔ other.taskID = task.taskID := by
      intro other present
      simp only [Bool.and_eq_true,beq_iff_eq]
      constructor
      · exact And.right
      · intro same
        have equal : other = task := key_unique stock.ids present taskIn same
        exact ⟨equal ▸ here,same⟩
    obtain ⟨left,right,cut,_,changed⟩ := setCapacity_unique roster.nodup rowIn
    obtain ⟨before,behind,parted,_,moved⟩ := update_unique stock.ids taskIn oneTask
    exact .inr ⟨rfl,task,row,taskFound,workerFound,fit,capacity,⟨left,right,cut,changed _⟩,⟨before,behind,parted,moved _⟩⟩

@[simp] theorem queried_fallback : queried ⟨.selectTaskWorker,[]⟩ choice db = (do
    let task ← SelectTaskWorker.selectTask choice db
    let row ← SelectTaskWorker.selectWorker choice db
    return (task,row)) := rfl

@[simp] theorem queried_partitioned : queried ⟨.selectPartitionedTaskWorker,[.int pkey]⟩ choice db = (do
    let task ← SelectPartitionedTaskWorker.selectTask choice pkey db
    let row ← selectWorker choice pkey db
    return (task,row)) := rfl

theorem invoke_queried (asks : Assigns request) (found : queried request choice db = some (task,row))
    (through : goesThrough choice row = true) : (invoke db request choice).2 = some (.long success) := by
  obtain ⟨healthy,fit⟩ : choice.fault = false ∧ fits row = true := by simpa [goesThrough] using through
  rcases asks with rfl | ⟨pkey,rfl⟩
  · obtain ⟨_,taskFound,found⟩ := Option.bind_eq_some_iff.mp found
    obtain ⟨_,workerFound,found⟩ := Option.bind_eq_some_iff.mp found
    cases found
    have ran := SelectTaskWorker.run_found taskFound workerFound
    rw [if_pos fit] at ran
    rw [invoke_ran .selectTaskWorker rfl healthy (by rw [Call.run,ran]; rfl)]
  · obtain ⟨_,taskFound,found⟩ := Option.bind_eq_some_iff.mp found
    obtain ⟨_,workerFound,found⟩ := Option.bind_eq_some_iff.mp found
    cases found
    have ran := SelectPartitionedTaskWorker.run_found taskFound workerFound
    rw [if_pos fit] at ran
    rw [invoke_ran (.selectPartitionedTaskWorker pkey) rfl healthy (by rw [Call.run,ran]; rfl)]

-- Both procedures amount to the same change.
theorem invoke_taken (roster : Roster cfg db) (stock : Stock cfg db) (asks : Assigns request)
    (ran : invoke db request choice = (after,response)) :
    (response ≠ some (.long success) ∧ after = db) ∨
      (response = some (.long success) ∧ ∃ task row, queried request choice db = some (task,row) ∧
        fits row = true ∧ Taken db after task row) := by
  rcases asks with rfl | ⟨pkey,rfl⟩
  · rcases invoke_cases .selectTaskWorker rfl ran with ⟨rfl,rfl⟩ | ⟨answer,rfl,committed⟩
    · exact .inl ⟨by simp,rfl⟩
    · obtain ⟨code,chosen,rfl⟩ := reply_some committed
      rcases SelectTaskWorker_taken roster stock chosen with ⟨failed,rfl⟩ | ⟨rfl,task,row,taskFound,workerFound,rest⟩
      · exact .inl ⟨by simpa using failed,rfl⟩
      · exact .inr ⟨rfl,task,row,by simp [taskFound,workerFound],rest⟩
  · rcases invoke_cases (.selectPartitionedTaskWorker pkey) rfl ran with ⟨rfl,rfl⟩ | ⟨answer,rfl,committed⟩
    · exact .inl ⟨by simp,rfl⟩
    · obtain ⟨code,chosen,rfl⟩ := reply_some committed
      rcases SelectPartitionedTaskWorker_taken roster stock chosen with
        ⟨failed,rfl⟩ | ⟨rfl,task,row,taskFound,workerFound,rest⟩
      · exact .inl ⟨by simpa using failed,rfl⟩
      · exact .inr ⟨rfl,task,row,by simp [taskFound,workerFound],rest⟩

theorem Taken.roster (taken : Taken db after task row) (roster : Roster cfg db) : Roster cfg after := by
  obtain ⟨left,right,before,behind⟩ := taken.charged
  rw [Roster,before] at roster
  rw [Roster,behind,← roster]
  simp [WorkerRow.key]

theorem Taken.stock (taken : Taken db after task row) (stock : Stock cfg db) : Stock cfg after := by
  obtain ⟨left,right,before,behind⟩ := taken.placed
  rw [Stock,before] at stock
  rw [Stock,behind,← stock]
  simp

theorem Taken.named (taken : Taken db after task row)
    (named : ∀ task ∈ db.task, task.workerID = -1 ∨ ∃ row ∈ db.worker, task.workerID = row.workerID) :
    ∀ task ∈ after.task, task.workerID = -1 ∨ ∃ row ∈ after.worker, task.workerID = row.workerID := by
  obtain ⟨left,right,before,behind⟩ := taken.charged
  obtain ⟨front,rest,cut,joined⟩ := taken.placed
  have kept : ∀ old ∈ db.worker, ∃ new ∈ after.worker, new.workerID = old.workerID := by
    intro old member
    rw [before] at member
    rw [behind]
    rcases List.mem_append.mp member with l | r
    · exact ⟨old,List.mem_append_left _ l,rfl⟩
    · rcases List.mem_cons.mp r with rfl | r
      · exact ⟨_,List.mem_append_right _ List.mem_cons_self,rfl⟩
      · exact ⟨old,List.mem_append_right _ (List.mem_cons_of_mem _ r),rfl⟩
  have other : ∀ old ∈ db.task, old.workerID = -1 ∨ ∃ row ∈ after.worker, old.workerID = row.workerID := by
    intro old member
    rcases named old member with nobody | ⟨worker,present,same⟩
    · exact .inl nobody
    · obtain ⟨new,inside,equal⟩ := kept worker present
      exact .inr ⟨new,inside,by rw [same,equal]⟩
  intro old member
  rw [joined] at member
  rcases List.mem_append.mp member with l | r
  · exact other old (by rw [cut]; exact List.mem_append_left _ l)
  · rcases List.mem_cons.mp r with rfl | r
    · refine .inr ⟨{row with capacity:=row.capacity - 1},?_,rfl⟩
      rw [behind]
      exact List.mem_append_right _ List.mem_cons_self
    · exact other old (by rw [cut]; exact List.mem_append_right _ (List.mem_cons_of_mem _ r))

theorem start_sound (cfg : Config) (db : Database) : Sound cfg (State.start cfg db) where
  roster := populated_roster cfg db
  stock := by simp [Stock,State.start,supplied,taskRow,Function.comp_def]
  named task member := by
    obtain ⟨i,_,rfl⟩ := List.mem_map.mp member
    exact .inl rfl
  clients _ member := absurd member (by simp [State.start])

-- Every step keeps the tables in order, and either leaves them alone or makes the
-- assignment that could be read off the state before it.
theorem Sound.step (sound : Sound cfg s) (stepped : advance cfg s action = some (next,seen)) :
    Sound cfg next ∧ ((next.db = s.db ∧ (∀ event ∈ seen, event.succeeded = false) ∧ s.assigns action = none) ∨
      ∃ event task row, seen = [event] ∧ event.succeeded = true ∧ s.assigns action = some (task,row) ∧
        Taken s.db next.db task row) := by
  cases action with
  | start rand single =>
    cases stepped
    refine ⟨⟨sound.roster,sound.stock,sound.named,?_⟩,.inl ⟨rfl,by simp,rfl⟩⟩
    intro prog member
    rcases List.mem_append.mp member with old | new
    · exact sound.clients prog old
    · cases List.mem_singleton.mp new
      exact selectTaskWorker_assigns
  | client i choice =>
    simp only [advance] at stepped
    obtain ⟨⟨db,clients,request,response⟩,served,ended⟩ := Option.bind_eq_some_iff.mp stepped
    cases ended
    obtain ⟨asks,others⟩ := serve_only sound.clients served
    obtain ⟨rest,asked,ran,_⟩ := serve_parts served
    have reads : s.assigns (.client i choice) =
        (queried request choice s.db).filter fun found => goesThrough choice found.2 := by
      simp only [State.assigns,asked]
    rcases invoke_taken sound.roster sound.stock asks ran with ⟨failed,rfl⟩ | ⟨rfl,task,row,found,fit,taken⟩
    · refine ⟨⟨sound.roster,sound.stock,sound.named,others⟩,.inl ⟨rfl,by simpa [Event.succeeded] using failed,?_⟩⟩
      rw [reads,Option.filter_eq_none_iff]
      intro ⟨task,row⟩ found through
      have answered := invoke_queried asks found through
      rw [ran] at answered
      exact failed answered
    · have healthy : choice.fault = false := by
        rw [Bool.eq_false_iff]
        intro fault
        rw [invoke_fault fault] at ran
        cases ran
      refine ⟨⟨taken.roster sound.roster,taken.stock sound.stock,taken.named sound.named,others⟩,
        .inr ⟨_,task,row,rfl,by simp [Event.succeeded],?_,taken⟩⟩
      rw [reads,found]
      simp [goesThrough,healthy,fit]

theorem sound_of_run (path : Runs (advance cfg) (State.start cfg db) moves last) : Sound cfg last :=
  path.invariant (Sound cfg) (start_sound cfg db) fun _ _ _ _ sound stepped => (sound.step stepped).1

end DbosScheduler.FifoTask
