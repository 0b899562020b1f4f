import DbosScheduler.Lib.Client
import DbosScheduler.Sql.Effects

namespace DbosScheduler.Scheduler
open Client Sql

-- The member functions of the schedulers, as the invocations they make. The
-- result `none` means that the process died on the way: a failed assert, or a
-- remainder by zero.
abbrev Program (α : Type) := Prog Request Response (Option α)

-- results[0].iterator().next().getInt64(0). Worker ids and status codes are
-- INTEGER values, so the conversion to int that follows it keeps them.
def getInt64 : Reply → Int
  | .long value => value
  | .column values => values.headD 0
  | .messages rows => (rows.headD (0,0,"")).1

-- rand() % n, where rand() is whatever the generator returns.
def randBelow (rand n : Nat) (rest : Nat → Program α) : Program α :=
  if n = 0 then .done none else rest (rand % n)

-- assert(..) on the outcome of a scheduling call.
def asserted (holds : α → Bool) (result : Option α) : Program Bool :=
  match result with
  | none => .done none
  | some value => if holds value then .done (some true) else .done none

-- Constructor arguments. PushFIFOScheduler reads only the partitions.
structure Config where
  partitions : Nat
  numTasks : Nat
  workerCapacity : Int
  numWorkers : Nat
  deriving Repr, DecidableEq

def maxTry : Nat := 1000

namespace SinglePartitionedFIFOTaskScheduler

def request (pkey : Nat) (taskID : Int) : Request :=
  ⟨.selectSinglePartitionedTaskWorker,[.int pkey,.int taskID]⟩

-- for (int count = 1; count <= activePartitions; ++count); `rest` goes on with
-- the partition at which the pass stopped.
def pass (activePartitions : Nat) (taskID : Int) : List Nat → Nat → (Nat → Program Bool) → Program Bool
  | [],pkey,rest => rest pkey
  | count :: counts,pkey,rest => .invoke (request pkey taskID) fun response =>
    match response with
    | none => .done (some false)
    | some reply =>
      if getInt64 reply = success then .done (some true)
      else pass activePartitions taskID counts ((pkey + count) % activePartitions) rest

-- for (int t = 0; t < MAXTRY; t++)
def tries (activePartitions : Nat) (taskID : Int) : Nat → Nat → Program Bool
  | 0,_ => .done (some false)
  | t+1,pkey => pass activePartitions taskID (List.range' 1 activePartitions) pkey (tries activePartitions taskID t)

def selectTaskWorker (cfg : Config) (rand : Nat) (taskID : Int) : Program Bool :=
  let activePartitions := min cfg.partitions cfg.numWorkers
  randBelow rand activePartitions (tries activePartitions taskID maxTry)

def schedule (cfg : Config) (rand : Nat) (taskID : Int) : Program Bool :=
  (selectTaskWorker cfg rand taskID).bind (asserted id)

-- The callback of the benchmark asserts that the returned number is no error.
def asyncSchedule (cfg : Config) (rand : Nat) (taskID : Int) : Program Bool :=
  randBelow rand (min cfg.partitions cfg.numWorkers) fun partitionNum =>
    .invoke (request partitionNum taskID) fun response => asserted (fun reply => decide (0 ≤ getInt64 reply)) response

end SinglePartitionedFIFOTaskScheduler

namespace PushFIFOScheduler

def request (pkey : Nat) (taskID : Int) : Request := ⟨.pushTask,[.int pkey,.int taskID]⟩

def probes (partitions : Nat) (taskID : Int) : List Nat → Nat → Program Bool
  | [],_ => .done (some false)
  | count :: counts,pkey => .invoke (request pkey taskID) fun response =>
    match response with
    | none => .done (some false)
    | some reply =>
      if getInt64 reply = success then .done (some true)
      else probes partitions taskID counts ((pkey + count) % partitions)

def selectTaskWorker (cfg : Config) (rand : Nat) (taskID : Int) : Program Bool :=
  randBelow rand cfg.partitions (probes cfg.partitions taskID (List.range' 1 cfg.partitions))

def schedule (cfg : Config) (rand : Nat) (taskID : Int) : Program Bool :=
  (selectTaskWorker cfg rand taskID).bind (asserted id)

end PushFIFOScheduler

-- The rotated scan shared by the two schedulers that return a worker id: one
-- request per partition (count + offset) % activePartitions.
def scan (request : Nat → Request) (activePartitions offset : Nat) : List Nat → Program Int
  | [] => .done (some (-1))
  | count :: counts => .invoke (request ((count + offset) % activePartitions)) fun response =>
    match response with
    | none => .done (some (-1))
    | some reply =>
      if getInt64 reply ≠ -1 then .done (some (getInt64 reply))
      else scan request activePartitions offset counts

-- The task is not among the parameters, which run(workerID, taskID, pkey) asks for.
def finishing (cfg : Config) (workerId : Int) : Program Bool :=
  if cfg.partitions = 0 then .done none else
  .invoke ⟨.finishWorkerTask,[.int workerId,.int (workerId.tmod cfg.partitions)]⟩ fun response =>
    .done (some response.isSome)

namespace PartitionedLocalFIFOScheduler

def request (taskID : Int) (partitionNum : Nat) : Request := ⟨.selectOrderedWorker,[.int partitionNum,.int taskID]⟩

def selectWorker (cfg : Config) (rand : Nat) (taskID : Int) : Program Int :=
  let activePartitions := min cfg.partitions cfg.numWorkers
  randBelow rand activePartitions fun offset =>
    scan (request taskID) activePartitions offset (List.range activePartitions)

def finishTask (cfg : Config) (_taskId workerId : Int) : Program Bool := finishing cfg workerId

def schedule (cfg : Config) (rand : Nat) (taskID : Int) : Program Bool :=
  (selectWorker cfg rand taskID).bind (asserted fun workerId => decide (0 ≤ workerId))

def asyncSchedule (cfg : Config) (rand : Nat) (taskID : Int) : Program Bool :=
  randBelow rand (min cfg.partitions cfg.numWorkers) fun partitionNum =>
    .invoke (request taskID partitionNum) fun response => asserted (fun reply => decide (0 ≤ getInt64 reply)) response

end PartitionedLocalFIFOScheduler

namespace PartitionedFIFOScheduler

def request (partitionNum : Nat) : Request := ⟨.selectWorker,[.int partitionNum]⟩

def selectWorker (cfg : Config) (rand : Nat) : Program Int :=
  let activePartitions := min cfg.partitions cfg.numWorkers
  randBelow rand activePartitions fun offset => scan request activePartitions offset (List.range activePartitions)

def finishTask (cfg : Config) (_taskId workerId : Int) : Program Bool := finishing cfg workerId

def schedule (cfg : Config) (rand : Nat) : Program Bool :=
  (selectWorker cfg rand).bind (asserted fun workerId => decide (0 ≤ workerId))

def asyncSchedule (cfg : Config) (rand : Nat) : Program Bool :=
  randBelow rand (min cfg.partitions cfg.numWorkers) fun partitionNum =>
    .invoke (request partitionNum) fun response => asserted (fun reply => decide (0 ≤ getInt64 reply)) response

end PartitionedFIFOScheduler

namespace PartitionedFIFOTaskScheduler

-- "Check all partitions."
def fallback : Program Bool :=
  .invoke ⟨.selectTaskWorker,[]⟩ fun response =>
    match response with
    | none => .done (some false)
    | some reply => .done (some (getInt64 reply == success))

-- The single-partition loop: a missing worker leaves it for the fallback, a
-- missing task moves on to another partition.
def probes (activePartitions : Nat) : List Nat → Nat → Program Bool
  | [],_ => fallback
  | count :: counts,pkey => .invoke ⟨.selectPartitionedTaskWorker,[.int pkey]⟩ fun response =>
    match response with
    | none => .done (some false)
    | some reply =>
      if getInt64 reply = success then .done (some true)
      else if getInt64 reply = noWorker then fallback
      else probes activePartitions counts ((count + pkey) % activePartitions)

-- `single` is the outcome of the test coin > probMultiTx_.
def selectTaskWorker (cfg : Config) (rand : Nat) (single : Bool) : Program Bool :=
  let activePartitions := min cfg.partitions (max cfg.numWorkers cfg.numTasks)
  randBelow rand activePartitions fun pkey =>
    if single then probes activePartitions (List.range' 1 activePartitions) pkey else fallback

def schedule (cfg : Config) (rand : Nat) (single : Bool) : Program Bool :=
  (selectTaskWorker cfg rand single).bind (asserted id)

end PartitionedFIFOTaskScheduler

namespace PartitionedScanTask

-- "Check all partitions." A failure is reported as `false`, which is worker 0.
def fallback : Program Int :=
  .invoke ⟨.scanTaskWorker,[]⟩ fun response =>
    match response with
    | none => .done (some 0)
    | some reply => .done (some (if 0 ≤ getInt64 reply then getInt64 reply else noWorker))

def request (pkey : Nat) : Request := ⟨.scanPartitionedTaskWorker,[.int pkey]⟩

-- for (int count = 1; count <= activePartitions; ++count)
def probes (activePartitions : Nat) : List Nat → Nat → Program Int
  | [],_ => fallback
  | count :: counts,pkey => .invoke (request pkey) fun response =>
    match response with
    | none => .done (some 0)
    | some reply =>
      if 0 ≤ getInt64 reply then .done (some (getInt64 reply))
      else probes activePartitions counts ((count + pkey) % activePartitions)

-- `single` is the outcome of the test coin > probMultiTx_.
def selectMostTaskWorker (cfg : Config) (rand : Nat) (single : Bool) : Program Int :=
  let activePartitions := min cfg.partitions (min cfg.numTasks cfg.numWorkers)
  randBelow rand activePartitions fun pkey =>
    if single then probes activePartitions (List.range' 1 activePartitions) pkey else fallback

def schedule (cfg : Config) (rand : Nat) (single : Bool) : Program Bool :=
  (selectMostTaskWorker cfg rand single).bind (asserted fun status => decide (0 ≤ status))

end PartitionedScanTask

-- Which requests the calls of each scheduler are made of, stated for any property
-- that all requests to an active partition have.
section Requests
variable {good : Request → Prop} {n : Nat}

theorem only_randBelow {rest : Nat → Program α} (each : ∀ start < n, (rest start).Only good) :
    (randBelow rand n rest).Only good := by
  unfold randBelow
  split
  · exact .done
  · exact each _ (Nat.mod_lt _ (by omega))

theorem only_asserted {holds : α → Bool} : (asserted holds result).Only good := by
  unfold asserted
  split
  · exact .done
  · split <;> exact .done

theorem only_scan {request : Nat → Request} (asks : ∀ partitionNum < n, good (request partitionNum)) (positive : 0 < n)
    (counts : List Nat) : (scan request n offset counts).Only good := by
  induction counts with
  | nil => exact .done
  | cons count counts ih =>
    refine .invoke (asks _ (Nat.mod_lt _ positive)) fun response => ?_
    cases response with
    | none => exact .done
    | some reply =>
      by_cases taken : getInt64 reply = -1
      · simpa [taken] using ih
      · simp only [taken,ne_eq,not_false_eq_true,if_true]
        exact .done

theorem only_scanning {request : Nat → Request} {holds : Int → Bool} (asks : ∀ partitionNum < n, good (request partitionNum)) :
    ((randBelow rand n fun offset => scan request n offset (List.range n)).bind (asserted holds)).Only good := by
  refine Prog.Only.bind ?_ fun _ => only_asserted
  apply only_randBelow
  intro offset inside
  exact only_scan asks (by omega) _

theorem only_asynchronous {request : Nat → Request} {holds : Reply → Bool}
    (asks : ∀ partitionNum < n, good (request partitionNum)) :
    (randBelow rand n fun partitionNum => .invoke (request partitionNum) fun response => asserted holds response).Only good := by
  apply only_randBelow
  intro partitionNum inside
  exact .invoke (asks partitionNum inside) fun _ => only_asserted

theorem only_pass {rest : Nat → Program Bool} (asks : ∀ pkey < n, good (SinglePartitionedFIFOTaskScheduler.request pkey taskID))
    (others : ∀ pkey < n, (rest pkey).Only good) (counts : List Nat) (inside : pkey < n) :
    (SinglePartitionedFIFOTaskScheduler.pass n taskID counts pkey rest).Only good := by
  induction counts generalizing pkey with
  | nil => exact others pkey inside
  | cons count counts ih =>
    refine .invoke (asks pkey inside) fun response => ?_
    cases response with
    | none => exact .done
    | some reply =>
      by_cases taken : getInt64 reply = success
      · simp only [taken,if_true]
        exact .done
      · simpa only [taken,if_false] using ih (Nat.mod_lt _ (by omega))

theorem only_tries (asks : ∀ pkey < n, good (SinglePartitionedFIFOTaskScheduler.request pkey taskID)) (t : Nat)
    (inside : pkey < n) : (SinglePartitionedFIFOTaskScheduler.tries n taskID t pkey).Only good := by
  induction t generalizing pkey with
  | zero => exact .done
  | succ t ih => exact only_pass asks (fun _ here => ih here) _ inside

theorem only_probes (asks : ∀ pkey < n, good ⟨.selectPartitionedTaskWorker,[.int (pkey : Nat)]⟩)
    (last : good ⟨.selectTaskWorker,[]⟩) (counts : List Nat) (inside : pkey < n) :
    (PartitionedFIFOTaskScheduler.probes n counts pkey).Only good := by
  have ending : PartitionedFIFOTaskScheduler.fallback.Only good := by
    refine .invoke last fun response => ?_
    cases response <;> exact .done
  induction counts generalizing pkey with
  | nil => exact ending
  | cons count counts ih =>
    refine .invoke (asks pkey inside) fun response => ?_
    cases response with
    | none => exact .done
    | some reply =>
      simp only
      split
      · exact .done
      · split
        · exact ending
        · exact ih (Nat.mod_lt _ (by omega))

variable {cfg : Config}

theorem SinglePartitionedFIFOTaskScheduler.only_schedule
    (asks : ∀ pkey < min cfg.partitions cfg.numWorkers, good (request pkey taskID))
    (is : prog = schedule cfg rand taskID ∨ prog = asyncSchedule cfg rand taskID) : prog.Only good := by
  rcases is with rfl | rfl
  · refine Prog.Only.bind ?_ fun _ => only_asserted
    apply only_randBelow
    intro pkey inside
    exact only_tries asks _ inside
  · exact only_asynchronous asks

theorem PartitionedLocalFIFOScheduler.only_schedule
    (asks : ∀ pkey < min cfg.partitions cfg.numWorkers, good (request taskID pkey))
    (is : prog = schedule cfg rand taskID ∨ prog = asyncSchedule cfg rand taskID) : prog.Only good := by
  rcases is with rfl | rfl
  · exact only_scanning asks
  · exact only_asynchronous asks

theorem PartitionedFIFOScheduler.only_schedule (asks : ∀ pkey < min cfg.partitions cfg.numWorkers, good (request pkey))
    (is : prog = schedule cfg rand ∨ prog = asyncSchedule cfg rand) : prog.Only good := by
  rcases is with rfl | rfl
  · exact only_scanning asks
  · exact only_asynchronous asks

theorem PartitionedFIFOTaskScheduler.only_selectTaskWorker (last : good ⟨.selectTaskWorker,[]⟩)
    (asks : ∀ pkey < min cfg.partitions (max cfg.numWorkers cfg.numTasks),
      good ⟨.selectPartitionedTaskWorker,[.int (pkey : Nat)]⟩) :
    (selectTaskWorker cfg rand single).Only good := by
  unfold selectTaskWorker
  apply only_randBelow
  intro pkey inside
  cases single with
  | true => exact only_probes asks last _ inside
  | false => exact only_probes asks last [] inside

end Requests
end DbosScheduler.Scheduler
