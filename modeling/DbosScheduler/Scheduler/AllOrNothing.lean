import DbosScheduler.Scheduler.Clients
import DbosScheduler.Sql.Commits

namespace DbosScheduler.Scheduler
open Machine Client Sql Table

-- One scheduling call between the transactions of everybody else. The others may
-- do anything but register workers; each of their transactions may also fail.
def registers : Call → Bool
  | .insertWorker .. | .insertSparkWorker .. => true
  | _ => false

def world (db : Database) (event : Call × Choice) : Option Database :=
  if registers event.1 then none else some (event.1.execute event.2 db).1

structure Registered (db : Database) : Prop where
  unique : (db.worker.map WorkerRow.key).Nodup
  nonNegative : ∀ row ∈ db.worker, 0 ≤ row.workerID

variable {db after : Database}

theorem registered_of_keys (registered : Registered db)
    (same : after.worker.map WorkerRow.key = db.worker.map WorkerRow.key) : Registered after := by
  refine ⟨same ▸ registered.unique,fun row member => ?_⟩
  have listed : row.key ∈ db.worker.map WorkerRow.key := same ▸ List.mem_map_of_mem member
  obtain ⟨old,present,equal⟩ := List.mem_map.mp listed
  have id : old.workerID = row.workerID := (Prod.mk.inj equal).2
  exact id ▸ registered.nonNegative old present

-- No transaction but a registration adds a worker row or renames one.
theorem run_keys (outside : registers call = false) (ran : call.run choice db = some (answer,after)) :
    after.worker.map WorkerRow.key = db.worker.map WorkerRow.key ∨ after.worker = [] := by
  have unregistered : call.registration = none := by cases call <;> first | rfl | cases outside
  rcases (run_effect ran).worker.keys unregistered with same | ⟨_,gone⟩
  · exact .inl same
  · exact .inr gone

theorem world_registered (registered : Registered db) (moved : world db event = some after) : Registered after := by
  unfold world at moved
  split at moved
  · cases moved
  · rename_i outside
    cases ran : event.1.execute event.2 db with
    | mk stored response =>
      rw [ran] at moved
      cases moved
      rcases execute_cases ran with ⟨_,rfl⟩ | ⟨answer,_,committed⟩
      · exact registered
      · rcases run_keys (by simpa using outside) committed with same | gone
        · exact registered_of_keys registered same
        · exact ⟨by simp [gone],by simp [gone]⟩

-- The one change of a successful call: the row of one worker with capacity left
-- loses one unit, the given rows are appended, and nothing else is touched.
def Places (tasks : WorkerRow → List TaskRow) (assigns : WorkerRow → List TaskAssignRow) (answer : WorkerRow → α)
    (db : Database) (result : Option α) (after : Database) : Prop :=
  ∃ row left right, db.worker = left ++ row :: right ∧ (∀ other ∈ left ++ right, other.key ≠ row.key) ∧
    0 < row.capacity ∧ 0 ≤ row.workerID ∧ result = some (answer row) ∧
    after = {db with
      worker:=left ++ {row with capacity:=row.capacity - 1} :: right
      task:=db.task ++ tasks row
      taskAssign:=db.taskAssign ++ assigns row}

-- What a call that has ended owes its caller, whatever ran between its probes.
def AllOrNothing (prog : Program α) (succeeded : α → Prop) (Effect : Database → Option α → Database → Prop) : Prop :=
  ∀ db moves last result, Registered db → Runs (among invoke world) (db,prog) moves last → last.2 = .done result →
    ((∃ value, result = some value ∧ succeeded value) → Once Effect moves result) ∧
    (¬(∃ value, result = some value ∧ succeeded value) → Idle moves)

def acceptStatus : Response → Option (Option Bool)
  | some reply => if getInt64 reply = success then some (some true) else none
  | none => none

def acceptWorker : Response → Option (Option Int)
  | some reply => if getInt64 reply ≠ -1 then some (some (getInt64 reply)) else none
  | none => none

theorem charge_parts (unique : (db.worker.map WorkerRow.key).Nodup) (member : row ∈ db.worker) :
    ∃ left right, db.worker = left ++ row :: right ∧ (∀ other ∈ left ++ right, other.key ≠ row.key) ∧
      db.charge row = {db with worker:=left ++ {row with capacity:=row.capacity - 1} :: right} := by
  obtain ⟨left,right,cut,others,changed⟩ := setCapacity_unique unique member
  exact ⟨left,right,cut,others,by rw [Database.charge,changed]⟩

-- A probe either was refused and changed nothing, or it is the one change.
def Probe (asks : Request → Prop) (accept : Response → Option (Option α)) (succeeded : α → Prop)
    (Effect : Database → Option α → Database → Prop) : Prop :=
  ∀ db request choice after response, Registered db → asks request → invoke db request choice = (after,response) →
    (accept response = none ∧ after = db) ∨
      ∃ value, accept response = some (some value) ∧ succeeded value ∧ Effect db (some value) after

theorem allOrNothing_of_probing {prog : Program α} {failed : Option α → Prop} {succeeded : α → Prop}
    {Effect : Database → Option α → Database → Prop} (probing : Probing asks accept failed prog)
    (probe : Probe asks accept succeeded Effect) (valued : ∀ db result after, Effect db result after →
      ∃ value, result = some value ∧ succeeded value)
    (failure : ∀ result, failed result → ¬∃ value, result = some value ∧ succeeded value) :
    AllOrNothing prog succeeded Effect := by
  have rejected : ∀ db request choice after response, Registered db → asks request →
      invoke db request choice = (after,response) → accept response = none → after = db := by
    intro db request choice after response good allowed ran refused
    rcases probe db request choice after response good allowed ran with ⟨_,same⟩ | ⟨value,taken,_⟩
    · exact same
    · rw [refused] at taken
      cases taken
  have accepted : ∀ db request choice after response result, Registered db → asks request →
      invoke db request choice = (after,response) → accept response = some result → Effect db result after := by
    intro db request choice after response result good allowed ran taken
    rcases probe db request choice after response good allowed ran with ⟨refused,_⟩ | ⟨value,also,_,effect⟩
    · rw [refused] at taken
      cases taken
    · rw [taken] at also
      cases also
      exact effect
  intro db moves last result registered path ended
  rcases probing_once probing registered (fun _ _ _ good moved => world_registered good moved) rejected accepted path with
    ⟨_,still,idle⟩ | ⟨stopped,here,once⟩
  · rw [ended] at still
    cases still with
    | done bad => exact ⟨fun good => absurd good (failure _ bad),fun _ => idle⟩
  · rw [ended] at here
    cases here
    refine ⟨fun _ => once,fun bad => ?_⟩
    obtain ⟨_,move,_,_,_,effect,_⟩ := once
    exact absurd (valued _ _ _ effect) bad

-- Each scheduler as a probing client.
theorem probing_randBelow {rest : Nat → Program α} (rand n : Nat) (dead : failed none)
    (each : ∀ start, Probing asks accept failed (rest start)) : Probing asks accept failed (randBelow rand n rest) := by
  unfold randBelow
  split
  · exact .done dead
  · exact each _

-- One probe of the two schedulers that read a status code.
theorem probing_status {rest : Reply → Program Bool} (asked : asks request)
    (others : ∀ reply, Probing asks acceptStatus (· ≠ some true) (rest reply)) :
    Probing asks acceptStatus (· ≠ some true) (.invoke request fun response =>
      match response with
      | none => .done (some false)
      | some reply => if getInt64 reply = success then .done (some true) else rest reply) := by
  refine .invoke asked (fun response result taken => ?_) (fun response refused => ?_)
  · cases response with
    | none => cases taken
    | some reply =>
      by_cases placed : getInt64 reply = success
      · simp only [acceptStatus,placed,if_true,Option.some.injEq] at taken ⊢
        rw [taken]
      · simp [acceptStatus,placed] at taken
  · cases response with
    | none => exact .done (by simp)
    | some reply =>
      by_cases placed : getInt64 reply = success
      · simp [acceptStatus,placed] at refused
      · simpa only [placed,if_false] using others reply

theorem probing_tries (taskID : Int) (t pkey : Nat) :
    Probing (fun request => ∃ pkey, request = SinglePartitionedFIFOTaskScheduler.request pkey taskID)
      acceptStatus (· ≠ some true) (SinglePartitionedFIFOTaskScheduler.tries activePartitions taskID t pkey) := by
  induction t generalizing pkey with
  | zero => exact .done (by simp)
  | succ t ih =>
    unfold SinglePartitionedFIFOTaskScheduler.tries
    generalize List.range' 1 activePartitions = counts
    induction counts generalizing pkey with
    | nil => exact ih pkey
    | cons count counts next => exact probing_status ⟨pkey,rfl⟩ fun _ => next _

theorem probing_push (taskID : Int) (counts : List Nat) (pkey : Nat) :
    Probing (fun request => ∃ pkey, request = PushFIFOScheduler.request pkey taskID)
      acceptStatus (· ≠ some true) (PushFIFOScheduler.probes partitions taskID counts pkey) := by
  induction counts generalizing pkey with
  | nil => exact .done (by simp)
  | cons count counts ih => exact probing_status ⟨pkey,rfl⟩ fun _ => ih _

theorem probing_scan (request : Nat → Request) (counts : List Nat) :
    Probing (fun sent => ∃ partitionNum, sent = request partitionNum) acceptWorker
      (fun result => result = none ∨ result = some (-1)) (scan request activePartitions offset counts) := by
  induction counts with
  | nil => exact .done (.inr rfl)
  | cons count counts ih =>
    refine .invoke ⟨_,rfl⟩ (fun response result taken => ?_) (fun response refused => ?_)
    · cases response with
      | none => cases taken
      | some reply =>
        by_cases found : getInt64 reply = -1
        · simp [acceptWorker,found] at taken
        · simp only [acceptWorker,found,ne_eq,not_false_eq_true,if_true,Option.some.injEq] at taken ⊢
          rw [taken]
    · cases response with
      | none => exact .done (.inr rfl)
      | some reply =>
        by_cases found : getInt64 reply = -1
        · simpa only [found,ne_eq,not_true_eq_false,if_false] using ih
        · simp [acceptWorker,found] at refused

-- What one probe of each scheduler did, read off its answer.
theorem single_probe (taskID : Int) :
    Probe (fun request => ∃ pkey, request = SinglePartitionedFIFOTaskScheduler.request pkey taskID) acceptStatus (· = true)
      (Places (fun row => [⟨taskID,row.workerID,pending,row.pkey⟩]) (fun _ => []) fun _ => true) := by
  intro db _ choice after response registered given ran
  obtain ⟨pkey,rfl⟩ := given
  rcases SelectSinglePartitionedTaskWorker.invoked ran with ⟨rfl,rfl | ⟨rfl,_⟩⟩ | ⟨row,free,_,rfl,rfl⟩
  · exact .inl ⟨rfl,rfl⟩
  · exact .inl ⟨rfl,rfl⟩
  · obtain ⟨left,right,cut,others,charged⟩ := charge_parts registered.unique free.1
    refine .inr ⟨true,rfl,rfl,row,left,right,cut,others,free.2.2,registered.nonNegative row free.1,rfl,?_⟩
    simp [Database.assign,charged]

theorem push_probe (taskID : Int) :
    Probe (fun request => ∃ pkey, request = PushFIFOScheduler.request pkey taskID) acceptStatus (· = true)
      (Places (fun row => [⟨taskID,row.workerID,running,row.pkey⟩]) (fun row => [⟨taskID,row.url,row.pkey⟩])
        fun _ => true) := by
  intro db _ choice after response registered given ran
  obtain ⟨pkey,rfl⟩ := given
  rcases PushTask.invoked ran with ⟨rfl,rfl | ⟨rfl,_⟩⟩ | ⟨row,free,_,rfl,rfl⟩
  · exact .inl ⟨rfl,rfl⟩
  · exact .inl ⟨rfl,rfl⟩
  · obtain ⟨left,right,cut,others,charged⟩ := charge_parts registered.unique free.1
    refine .inr ⟨true,rfl,rfl,row,left,right,cut,others,free.2.2,registered.nonNegative row free.1,rfl,?_⟩
    simp [Database.assign,charged,free.2.1]

theorem local_probe (taskID : Int) :
    Probe (fun request => ∃ partitionNum, request = PartitionedLocalFIFOScheduler.request taskID partitionNum)
      acceptWorker (0 ≤ ·)
      (Places (fun row => [⟨taskID,row.workerID,pending,row.pkey⟩]) (fun _ => []) WorkerRow.workerID) := by
  intro db _ choice after response registered given ran
  obtain ⟨partitionNum,rfl⟩ := given
  rcases SelectOrderedWorker.invoked ran with ⟨rfl,rfl | ⟨rfl,_⟩⟩ | ⟨row,free,_,rfl,rfl⟩
  · exact .inl ⟨rfl,rfl⟩
  · exact .inl ⟨rfl,rfl⟩
  · have named := registered.nonNegative row free.1
    have found : row.workerID ≠ -1 := by omega
    obtain ⟨left,right,cut,others,charged⟩ := charge_parts registered.unique free.1
    refine .inr ⟨row.workerID,by simp [acceptWorker,getInt64,found],named,row,left,right,cut,others,free.2.2,named,rfl,?_⟩
    simp [Database.assign,charged]

theorem partitioned_probe :
    Probe (fun request => ∃ partitionNum, request = PartitionedFIFOScheduler.request partitionNum) acceptWorker (0 ≤ ·)
      (Places (fun _ => []) (fun _ => []) WorkerRow.workerID) := by
  intro db _ choice after response registered given ran
  obtain ⟨partitionNum,rfl⟩ := given
  rcases SelectWorker.invoked ran with ⟨rfl,rfl | ⟨rfl,_⟩⟩ | ⟨row,free,rfl,rfl⟩
  · exact .inl ⟨rfl,rfl⟩
  · exact .inl ⟨rfl,rfl⟩
  · have named := registered.nonNegative row free.1
    have found : row.workerID ≠ -1 := by omega
    obtain ⟨left,right,cut,others,charged⟩ := charge_parts registered.unique free.1
    refine .inr ⟨row.workerID,by simp [acceptWorker,getInt64,found],named,row,left,right,cut,others,free.2.2,named,rfl,?_⟩
    simp [charged]

theorem Places.answered {result : Option α} (placed : Places tasks assigns answer db result after) :
    ∃ row : WorkerRow, 0 ≤ row.workerID ∧ result = some (answer row) := by
  obtain ⟨row,_,_,_,_,_,named,answered,_⟩ := placed
  exact ⟨row,named,answered⟩

theorem scheduling_all_or_nothing (cfg : Config) (rand : Nat) (taskID : Int) :
    AllOrNothing (SinglePartitionedFIFOTaskScheduler.selectTaskWorker cfg rand taskID) (· = true)
      (Places (fun row => [⟨taskID,row.workerID,pending,row.pkey⟩]) (fun _ => []) fun _ => true) ∧
    AllOrNothing (PushFIFOScheduler.selectTaskWorker cfg rand taskID) (· = true)
      (Places (fun row => [⟨taskID,row.workerID,running,row.pkey⟩]) (fun row => [⟨taskID,row.url,row.pkey⟩])
        fun _ => true) ∧
    AllOrNothing (PartitionedLocalFIFOScheduler.selectWorker cfg rand taskID) (0 ≤ ·)
      (Places (fun row => [⟨taskID,row.workerID,pending,row.pkey⟩]) (fun _ => []) WorkerRow.workerID) ∧
    AllOrNothing (PartitionedFIFOScheduler.selectWorker cfg rand) (0 ≤ ·)
      (Places (fun _ => []) (fun _ => []) WorkerRow.workerID) := by
  have status : ∀ result : Option Bool, result ≠ some true → ¬∃ value, result = some value ∧ value = true := by
    intro _ bad given
    obtain ⟨value,rfl,rfl⟩ := given
    exact bad rfl
  have nobody : ∀ result : Option Int, result = none ∨ result = some (-1) → ¬∃ value, result = some value ∧ 0 ≤ value := by
    rintro _ (rfl | rfl) ⟨value,same,low⟩
    · cases same
    · cases same
      omega
  refine ⟨?_,?_,?_,?_⟩
  · refine allOrNothing_of_probing (probing_randBelow rand _ (by simp) fun _ => probing_tries taskID _ _) (single_probe taskID)
      (fun db result after placed => ?_) status
    obtain ⟨row,_,answered⟩ := placed.answered
    exact ⟨true,answered,rfl⟩
  · refine allOrNothing_of_probing (probing_randBelow rand _ (by simp) fun _ => probing_push taskID _ _) (push_probe taskID)
      (fun db result after placed => ?_) status
    obtain ⟨row,_,answered⟩ := placed.answered
    exact ⟨true,answered,rfl⟩
  · refine allOrNothing_of_probing (probing_randBelow rand _ (.inl rfl) fun _ => probing_scan _ _) (local_probe taskID)
      (fun db result after placed => ?_) nobody
    obtain ⟨row,named,answered⟩ := placed.answered
    exact ⟨row.workerID,answered,named⟩
  · refine allOrNothing_of_probing (probing_randBelow rand _ (.inl rfl) fun _ => probing_scan _ _) partitioned_probe
      (fun db result after placed => ?_) nobody
    obtain ⟨row,named,answered⟩ := placed.answered
    exact ⟨row.workerID,answered,named⟩

end DbosScheduler.Scheduler
