import Mathlib.Logic.Function.Basic
import DbosScheduler.Lib.Machine

namespace DbosScheduler.Spark.Requests
open Machine

-- SparkScheduler after its constructor: any number of concurrent schedule() calls,
-- the processTaskQueue thread and the finishRequests thread. A step is what runs
-- between two points at which another thread can be noticed: taking or releasing
-- a mutex, a wait, a notify, or one access to shared data. The destructor is left
-- out: no schedule() call may outlive the object, so runTaskQueueThread stays true.
structure Task where
  targetData : Int
  execTime : Int
  deriving Repr, DecidableEq

-- Where a schedule() call is. `lockingCompletion` is also where a thread goes on
-- when taskCompletionCV wakes it up.
inductive Pc where
  | outside | locking | pushing | notifying | unlocking
  | lockingCompletion | checking | waiting | returning | returned
  deriving Repr, DecidableEq

structure Caller where
  taskID : BitVec 32
  task : Task
  pc : Pc
  deriving Repr, DecidableEq

-- AsyncClientCall. `caller` is the call whose TaskData was read; the program keeps
-- only the task id.
structure Call where
  caller : Nat
  taskID : BitVec 32
  workerID : Int
  task : Task
  deriving Repr, DecidableEq

-- A TaskData pointer is the index of the call on whose stack the object lives.
inductive QueuePc where
  | starting | testing | waiting | woken | checking
  | selecting (taskData : Nat)
  | assigning (taskData : Nat) (workerId : Int)
  | sending (call : Call)
  | popping
  deriving Repr, DecidableEq

inductive FinishPc where
  | polling
  | locking (call : Call)
  | inserting (call : Call)
  | notifying (call : Call)
  | unlocking (call : Call)
  | updating (call : Call)
  deriving Repr, DecidableEq

inductive Thread where
  | caller (i : Nat) | processTaskQueue | finishRequests
  deriving Repr, DecidableEq

structure State where
  taskIDs : BitVec 32
  calls : Nat
  callers : Nat → Caller
  taskProcessMutex : Option Thread
  taskCompletionMutex : Option Thread
  taskQueue : List Nat
  queue : QueuePc
  rpcs : List Call
  cq : List (Call × Bool)
  finish : FinishPc
  taskCompletionSet : List (BitVec 32)
  aborted : Bool

inductive Action where
  | call (task : Task)
  | caller (i : Nat)
  | wakeCaller (i : Nat)
  | processTaskQueue (selected : Int)
  | wakeQueue
  | rpc (k : Nat) (ok : Bool)
  | finishRequests
  deriving Repr, DecidableEq

inductive Event where
  | pushed (caller : Nat)
  | read (caller : Nat)
  | sent (call : Call)
  | popped (caller : Nat)
  | completed (call : Call) (ok : Bool)
  | returned (caller : Nat) (taskID : BitVec 32)
  deriving Repr, DecidableEq

def State.setPc (s : State) (i : Nat) (pc : Pc) : State :=
  {s with callers:=Function.update s.callers i {s.callers i with pc:=pc}}

-- int taskID = taskIDs++; the counter is an atomic_int without an initial value.
def enter (task : Task) (s : State) : State :=
  {s with
    taskIDs:=s.taskIDs + 1
    calls:=s.calls + 1
    callers:=Function.update s.callers s.calls ⟨s.taskIDs,task,.locking⟩}

-- A notify_one reaches the only thread that ever waits on taskProcessCV, or nobody.
def notifyOne : QueuePc → QueuePc
  | .waiting => .woken
  | pc => pc

def notifyAll (callers : Nat → Caller) : Nat → Caller := fun i =>
  if (callers i).pc = .waiting then {callers i with pc:=.lockingCompletion} else callers i

def schedule (i : Nat) (s : State) : Option (State × List Event) :=
  match (s.callers i).pc with
  | .outside => none
  | .locking =>
    if s.taskProcessMutex = none then
      some ({s.setPc i .pushing with taskProcessMutex:=some (.caller i)},[])
    else none
  | .pushing => some ({s.setPc i .notifying with taskQueue:=s.taskQueue ++ [i]},[.pushed i])
  | .notifying => some ({s.setPc i .unlocking with queue:=notifyOne s.queue},[])
  | .unlocking => some ({s.setPc i .lockingCompletion with taskProcessMutex:=none},[])
  | .lockingCompletion =>
    if s.taskCompletionMutex = none then
      some ({s.setPc i .checking with taskCompletionMutex:=some (.caller i)},[])
    else none
  | .checking =>
    if (s.callers i).taskID ∈ s.taskCompletionSet then some (s.setPc i .returning,[])
    else some ({s.setPc i .waiting with taskCompletionMutex:=none},[])
  | .waiting => none
  | .returning =>
    some ({s.setPc i .returned with taskCompletionMutex:=none},[.returned i (s.callers i).taskID])
  | .returned => none

-- `selected` is what selectWorker returns, after however many transactions.
def processTaskQueue (selected : Int) (s : State) : Option (State × List Event) :=
  match s.queue with
  | .starting =>
    if s.taskProcessMutex = none then
      some ({s with queue:=.testing,taskProcessMutex:=some .processTaskQueue},[])
    else none
  | .testing => some ({s with queue:=.waiting,taskProcessMutex:=none},[])
  | .waiting => none
  | .woken =>
    if s.taskProcessMutex = none then
      some ({s with queue:=.checking,taskProcessMutex:=some .processTaskQueue},[])
    else none
  | .checking =>
    match s.taskQueue with
    | [] => some ({s with queue:=.testing},[])
    | taskData :: _ => some ({s with queue:=.selecting taskData},[])
  | .selecting taskData =>
    if 0 ≤ selected then some ({s with queue:=.assigning taskData selected},[.read taskData])
    else some ({s with aborted:=true},[.read taskData])
  | .assigning taskData workerId =>
    some ({s with queue:=.sending ⟨taskData,(s.callers taskData).taskID,workerId,(s.callers taskData).task⟩},
      [.read taskData])
  | .sending call => some ({s with queue:=.popping,rpcs:=s.rpcs ++ [call]},[.sent call])
  | .popping =>
    match s.taskQueue with
    | [] => none
    | taskData :: rest => some ({s with queue:=.checking,taskQueue:=rest},[.popped taskData])

-- finishTask, after cq_.Next and the two asserts on the result.
def finishRequests (s : State) : Option (State × List Event) :=
  match s.finish with
  | .polling =>
    match s.cq with
    | [] => none
    | (call,ok) :: rest =>
      if ok then some ({s with cq:=rest,finish:=.locking call},[])
      else some ({s with cq:=rest,aborted:=true},[])
  | .locking call =>
    if s.taskCompletionMutex = none then
      some ({s with finish:=.inserting call,taskCompletionMutex:=some .finishRequests},[])
    else none
  | .inserting call =>
    some ({s with finish:=.notifying call,taskCompletionSet:=call.taskID :: s.taskCompletionSet},[])
  | .notifying call => some ({s with finish:=.unlocking call,callers:=notifyAll s.callers},[])
  | .unlocking call => some ({s with finish:=.updating call,taskCompletionMutex:=none},[])
  | .updating _ => some ({s with finish:=.polling},[])

def advance : Advance State Action Event := fun s action =>
  if s.aborted then none else
  match action with
  | .call task => some (enter task s,[])
  | .caller i => schedule i s
  | .wakeCaller i => if (s.callers i).pc = .waiting then some (s.setPc i .lockingCompletion,[]) else none
  | .processTaskQueue selected => Requests.processTaskQueue selected s
  | .wakeQueue => if s.queue = .waiting then some ({s with queue:=.woken},[]) else none
  | .rpc k ok =>
    match s.rpcs[k]? with
    | none => none
    | some call => some ({s with rpcs:=s.rpcs.eraseIdx k,cq:=s.cq ++ [(call,ok)]},[.completed call ok])
  | .finishRequests => Requests.finishRequests s

-- The constructor has started both threads; neither has taken a step.
def State.start (taskIDs : BitVec 32) : State where
  taskIDs := taskIDs
  calls := 0
  callers := fun _ => ⟨0,⟨0,0⟩,.outside⟩
  taskProcessMutex := none
  taskCompletionMutex := none
  taskQueue := []
  queue := .starting
  rpcs := []
  cq := []
  finish := .polling
  taskCompletionSet := []
  aborted := false

-- Every transition of the system, one constructor for each.
inductive Turn (s : State) : Action → State → List Event → Prop where
  | call (task : Task) : Turn s (.call task) (enter task s) []
  | lock : (s.callers i).pc = .locking → s.taskProcessMutex = none →
      Turn s (.caller i) {s.setPc i .pushing with taskProcessMutex:=some (.caller i)} []
  | push : (s.callers i).pc = .pushing →
      Turn s (.caller i) {s.setPc i .notifying with taskQueue:=s.taskQueue ++ [i]} [.pushed i]
  | notify : (s.callers i).pc = .notifying →
      Turn s (.caller i) {s.setPc i .unlocking with queue:=notifyOne s.queue} []
  | unlock : (s.callers i).pc = .unlocking →
      Turn s (.caller i) {s.setPc i .lockingCompletion with taskProcessMutex:=none} []
  | lockCompletion : (s.callers i).pc = .lockingCompletion → s.taskCompletionMutex = none →
      Turn s (.caller i) {s.setPc i .checking with taskCompletionMutex:=some (.caller i)} []
  | found : (s.callers i).pc = .checking → (s.callers i).taskID ∈ s.taskCompletionSet →
      Turn s (.caller i) (s.setPc i .returning) []
  | wait : (s.callers i).pc = .checking → (s.callers i).taskID ∉ s.taskCompletionSet →
      Turn s (.caller i) {s.setPc i .waiting with taskCompletionMutex:=none} []
  | return : (s.callers i).pc = .returning →
      Turn s (.caller i) {s.setPc i .returned with taskCompletionMutex:=none} [.returned i (s.callers i).taskID]
  | wakeCaller : (s.callers i).pc = .waiting → Turn s (.wakeCaller i) (s.setPc i .lockingCompletion) []
  | queueLock : s.queue = .starting → s.taskProcessMutex = none →
      Turn s (.processTaskQueue w) {s with queue:=.testing,taskProcessMutex:=some .processTaskQueue} []
  | queueWait : s.queue = .testing → Turn s (.processTaskQueue w) {s with queue:=.waiting,taskProcessMutex:=none} []
  | queueRelock : s.queue = .woken → s.taskProcessMutex = none →
      Turn s (.processTaskQueue w) {s with queue:=.checking,taskProcessMutex:=some .processTaskQueue} []
  | queueEmpty : s.queue = .checking → s.taskQueue = [] → Turn s (.processTaskQueue w) {s with queue:=.testing} []
  | queueFront : s.queue = .checking → s.taskQueue = taskData :: rest →
      Turn s (.processTaskQueue w) {s with queue:=.selecting taskData} []
  | select : s.queue = .selecting taskData → 0 ≤ w →
      Turn s (.processTaskQueue w) {s with queue:=.assigning taskData w} [.read taskData]
  | fail : s.queue = .selecting taskData → Turn s (.processTaskQueue w) {s with aborted:=true} [.read taskData]
  | assign : s.queue = .assigning taskData workerId → Turn s (.processTaskQueue w)
      {s with queue:=.sending ⟨taskData,(s.callers taskData).taskID,workerId,(s.callers taskData).task⟩} [.read taskData]
  | send : s.queue = .sending call →
      Turn s (.processTaskQueue w) {s with queue:=.popping,rpcs:=s.rpcs ++ [call]} [.sent call]
  | pop : s.queue = .popping → s.taskQueue = taskData :: rest →
      Turn s (.processTaskQueue w) {s with queue:=.checking,taskQueue:=rest} [.popped taskData]
  | wakeQueue : s.queue = .waiting → Turn s .wakeQueue {s with queue:=.woken} []
  | rpc : s.rpcs[k]? = some call →
      Turn s (.rpc k ok) {s with rpcs:=s.rpcs.eraseIdx k,cq:=s.cq ++ [(call,ok)]} [.completed call ok]
  | next : s.finish = .polling → s.cq = (call,true) :: rest →
      Turn s .finishRequests {s with cq:=rest,finish:=.locking call} []
  | broken : s.cq = (call,false) :: rest → Turn s .finishRequests {s with cq:=rest,aborted:=true} []
  | finishLock : s.finish = .locking call → s.taskCompletionMutex = none →
      Turn s .finishRequests {s with finish:=.inserting call,taskCompletionMutex:=some .finishRequests} []
  | insert {call : Call} : s.finish = .inserting call → Turn s .finishRequests
      {s with finish:=.notifying call,taskCompletionSet:=call.taskID :: s.taskCompletionSet} []
  | notifyAll : s.finish = .notifying call →
      Turn s .finishRequests {s with finish:=.unlocking call,callers:=Requests.notifyAll s.callers} []
  | finishUnlock : s.finish = .unlocking call →
      Turn s .finishRequests {s with finish:=.updating call,taskCompletionMutex:=none} []
  | update : s.finish = .updating call → Turn s .finishRequests {s with finish:=.polling} []

variable {s next : State} {action : Action} {seen : List Event}

theorem schedule_turn (stepped : schedule i s = some (next,seen)) : Turn s (.caller i) next seen := by
  unfold schedule at stepped
  split at stepped
  · cases stepped
  · split at stepped <;> cases stepped
    exact .lock ‹_› ‹_›
  · cases stepped
    exact .push ‹_›
  · cases stepped
    exact .notify ‹_›
  · cases stepped
    exact .unlock ‹_›
  · split at stepped <;> cases stepped
    exact .lockCompletion ‹_› ‹_›
  · split at stepped
    · cases stepped
      exact .found ‹_› ‹_›
    · cases stepped
      exact .wait ‹_› ‹_›
  · cases stepped
  · cases stepped
    exact .return ‹_›
  · cases stepped

theorem processTaskQueue_turn (stepped : processTaskQueue selected s = some (next,seen)) :
    Turn s (.processTaskQueue selected) next seen := by
  unfold processTaskQueue at stepped
  split at stepped
  · split at stepped <;> cases stepped
    exact .queueLock ‹_› ‹_›
  · cases stepped
    exact .queueWait ‹_›
  · cases stepped
  · split at stepped <;> cases stepped
    exact .queueRelock ‹_› ‹_›
  · split at stepped
    · cases stepped
      exact .queueEmpty ‹_› ‹_›
    · cases stepped
      exact .queueFront ‹_› ‹_›
  · split at stepped
    · cases stepped
      exact .select ‹_› ‹_›
    · cases stepped
      exact .fail ‹_›
  · cases stepped
    exact .assign ‹_›
  · cases stepped
    exact .send ‹_›
  · split at stepped <;> cases stepped
    exact .pop ‹_› ‹_›

theorem finishRequests_turn (stepped : finishRequests s = some (next,seen)) : Turn s .finishRequests next seen := by
  unfold finishRequests at stepped
  split at stepped
  · split at stepped
    · cases stepped
    · rename_i call ok rest waiting
      cases ok with
      | true =>
        cases stepped
        exact .next ‹_› waiting
      | false =>
        cases stepped
        exact .broken waiting
  · split at stepped <;> cases stepped
    exact .finishLock ‹_› ‹_›
  · cases stepped
    exact .insert ‹_›
  · cases stepped
    exact .notifyAll ‹_›
  · cases stepped
    exact .finishUnlock ‹_›
  · cases stepped
    exact .update ‹_›

theorem advance_turn (stepped : advance s action = some (next,seen)) : Turn s action next seen := by
  unfold advance at stepped
  split at stepped
  · cases stepped
  · split at stepped
    · cases stepped
      exact .call _
    · exact schedule_turn stepped
    · split at stepped <;> cases stepped
      exact .wakeCaller ‹_›
    · exact processTaskQueue_turn stepped
    · split at stepped <;> cases stepped
      exact .wakeQueue ‹_›
    · split at stepped <;> cases stepped
      exact .rpc ‹_›
    · exact finishRequests_turn stepped

@[simp] theorem setPc_pc (s : State) (i j : Nat) (pc : Pc) :
    ((s.setPc i pc).callers j).pc = if j = i then pc else (s.callers j).pc := by
  by_cases same : j = i
  · simp [State.setPc,same]
  · simp [State.setPc,same]

@[simp] theorem setPc_taskID (s : State) (i j : Nat) (pc : Pc) :
    ((s.setPc i pc).callers j).taskID = (s.callers j).taskID := by
  by_cases same : j = i
  · simp [State.setPc,same]
  · simp [State.setPc,same]

@[simp] theorem setPc_task (s : State) (i j : Nat) (pc : Pc) :
    ((s.setPc i pc).callers j).task = (s.callers j).task := by
  by_cases same : j = i
  · simp [State.setPc,same]
  · simp [State.setPc,same]

@[simp] theorem setPc_taskProcessMutex (s : State) (i : Nat) (pc : Pc) :
    (s.setPc i pc).taskProcessMutex = s.taskProcessMutex := rfl

@[simp] theorem setPc_queue (s : State) (i : Nat) (pc : Pc) : (s.setPc i pc).queue = s.queue := rfl

-- Only a call that was made has left `outside`.
def Numbered (s : State) : Prop := ∀ i, s.calls ≤ i → (s.callers i).pc = .outside

theorem Numbered.setPc (numbered : Numbered s) (before : (s.callers i).pc = old) (inside : old ≠ .outside) (new : Pc) :
    ∀ j, s.calls ≤ j → ((s.setPc i new).callers j).pc = .outside := by
  intro j beyond
  have other : j ≠ i := by
    rintro rfl
    exact inside (before.symm.trans (numbered j beyond))
  rw [setPc_pc,if_neg other]
  exact numbered j beyond

theorem Numbered.step (numbered : Numbered s) (turn : Turn s action next seen) : Numbered next := by
  cases turn with
  | call task =>
    intro i beyond
    have other : i ≠ s.calls := by
      simp only [enter] at beyond
      omega
    simp only [enter,Function.update_of_ne other] at beyond ⊢
    exact numbered i (by omega)
  | lock pc | push pc | notify pc | unlock pc | lockCompletion pc | found pc | wait pc | «return» pc | wakeCaller pc =>
    exact numbered.setPc pc (by decide) _
  | notifyAll =>
    intro i beyond
    have outside := numbered i beyond
    simp [Requests.notifyAll,outside]
  | queueLock | queueWait | queueRelock | queueEmpty | queueFront | select | fail | assign | send | pop | wakeQueue | rpc
  | next | broken | finishLock | insert | finishUnlock | update => exact numbered

theorem numbered_of_run (path : Runs advance (State.start taskIDs) moves last) : Numbered last :=
  path.invariant Numbered (fun _ _ => rfl) fun _ _ _ _ numbered stepped => numbered.step (advance_turn stepped)

end DbosScheduler.Spark.Requests
