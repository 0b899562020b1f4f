import DbosScheduler.Scheduler.Setup
import DbosScheduler.Worker.PollWorker

namespace DbosScheduler.Poll
open Machine Client Sql Scheduler Worker

-- The polling system: any number of scheduler processes, the database, and one
-- MockPollWorker for each of the W registered workers. Every interleaving of
-- their atomic steps is a run; nothing is assumed about fairness or progress.
inductive Algorithm where
  | singlePartitioned | partitionedLocal
  deriving Repr, DecidableEq

structure Setting where
  scheduler : Config
  executors : Nat → Nat
  topk : Nat → Int

-- constructWorker: int pkey = workerId % partitions
def Setting.identity (cfg : Setting) (w : Nat) : Identity :=
  ⟨w,(w % cfg.scheduler.partitions : Nat),cfg.executors w,cfg.topk w⟩

-- taskindex is a static std::atomic<uint32_t> of each scheduler class, so there
-- is one counter for each process and algorithm.
structure State where
  db : Database
  taskindex : Nat → Algorithm → BitVec 32
  clients : List (Program Bool)
  workers : Nat → PollWorker

inductive Action where
  | start (process : Nat) (algorithm : Algorithm) (async : Bool) (rand : Nat)
  | client (i : Nat) (choice : Choice)
  | dispatch (w : Nat) (choice : Choice)
  | execute (w execId : Nat) (choice : Choice)
  | endServing (w : Nat)
  deriving Repr, DecidableEq

inductive Event where
  | called (request : Request) (response : Response)
  | worker (w : Nat) (event : Worker.Event)
  deriving Repr, DecidableEq

def Algorithm.program (cfg : Config) (rand : Nat) (taskID : Int) : Algorithm → Bool → Program Bool
  | .singlePartitioned,false => SinglePartitionedFIFOTaskScheduler.schedule cfg rand taskID
  | .singlePartitioned,true => SinglePartitionedFIFOTaskScheduler.asyncSchedule cfg rand taskID
  | .partitionedLocal,false => PartitionedLocalFIFOScheduler.schedule cfg rand taskID
  | .partitionedLocal,true => PartitionedLocalFIFOScheduler.asyncSchedule cfg rand taskID

-- int taskId = taskindex.fetch_add(1)
def State.fetchAdd (s : State) (process : Nat) (algorithm : Algorithm) : State :=
  {s with taskindex:=fun p a => if p = process ∧ a = algorithm then s.taskindex p a + 1 else s.taskindex p a}

def State.setWorker (s : State) (db : Database) (w : Nat) (next : PollWorker) : State :=
  {s with db:=db,workers:=fun v => if v = w then next else s.workers v}

def advance (cfg : Setting) : Advance State Action Event
  | s,.start process algorithm async rand =>
    let prog := algorithm.program cfg.scheduler rand (s.taskindex process algorithm).toInt async
    some ({s.fetchAdd process algorithm with clients:=s.clients ++ [prog]},[])
  | s,.client i choice => do
    let (db,clients,request,response) ← serve invoke s.db s.clients i choice
    return ({s with db:=db,clients:=clients},[.called request response])
  | s,.dispatch w choice =>
    if w < cfg.scheduler.numWorkers then do
      let (db,next,seen) ← Worker.dispatch (cfg.identity w) choice s.db (s.workers w)
      return (s.setWorker db w next,seen.map (.worker w))
    else none
  | s,.execute w execId choice =>
    if w < cfg.scheduler.numWorkers then do
      let (db,next,seen) ← Worker.execute (cfg.identity w) execId choice s.db (s.workers w)
      return (s.setWorker db w next,seen.map (.worker w))
    else none
  | s,.endServing w =>
    if w < cfg.scheduler.numWorkers then do
      let next ← Worker.endServing (s.workers w)
      return (s.setWorker s.db w next,[])
    else none

-- The counters are not initialised by setup: a process may have scheduled before.
def State.start (cfg : Setting) (db : Database) (taskindex : Nat → Algorithm → BitVec 32) : State :=
  ⟨populated cfg.scheduler db,taskindex,[],fun w => PollWorker.start (cfg.identity w)⟩

-- The requests that the two schedulers send.
def Places (request : Request) : Prop :=
  ∃ pkey taskID, request = ⟨.selectSinglePartitionedTaskWorker,[.int pkey,.int taskID]⟩ ∨
    request = ⟨.selectOrderedWorker,[.int pkey,.int taskID]⟩

theorem program_places (algorithm : Algorithm) (async : Bool) : (algorithm.program cfg rand taskID async).Only Places := by
  cases algorithm with
  | singlePartitioned =>
    have places : ∀ pkey < min cfg.partitions cfg.numWorkers, Places (SinglePartitionedFIFOTaskScheduler.request pkey taskID) :=
      fun pkey _ => ⟨pkey,taskID,.inl rfl⟩
    cases async with
    | false => exact SinglePartitionedFIFOTaskScheduler.only_schedule places (.inl rfl)
    | true => exact SinglePartitionedFIFOTaskScheduler.only_schedule places (.inr rfl)
  | partitionedLocal =>
    have places : ∀ pkey < min cfg.partitions cfg.numWorkers, Places (PartitionedLocalFIFOScheduler.request taskID pkey) :=
      fun pkey _ => ⟨pkey,taskID,.inr rfl⟩
    cases async with
    | false => exact PartitionedLocalFIFOScheduler.only_schedule places (.inl rfl)
    | true => exact PartitionedLocalFIFOScheduler.only_schedule places (.inr rfl)

theorem places_change (places : Places request) (ran : invoke db request choice = (after,response)) :
    Change db none after := by
  obtain ⟨pkey,taskID,rfl | rfl⟩ := places
  · rcases SelectSinglePartitionedTaskWorker.invoked ran with ⟨rfl,_⟩ | ⟨row,free,fresh,_,rfl⟩
    · exact .none
    · exact .placed free fresh
  · rcases SelectOrderedWorker.invoked ran with ⟨rfl,_⟩ | ⟨row,free,fresh,_,rfl⟩
    · exact .none
    · exact .placed free fresh

end DbosScheduler.Poll
