import DbosScheduler.Scheduler.Setup

namespace DbosScheduler.Spark
open Machine Client Sql Scheduler Table

-- A Spark worker has one Worker row for each of its data shards. SelectSparkWorker
-- reads the capacity of one of these rows and overwrites it in all of them, and
-- FinishWorkerTask does the same with another row.
structure Fleet where
  partitions : Nat
  capacity : Int
  workers : List (Int × List Int)
  deriving Repr, DecidableEq

-- workerId % workerPartitions_ on C++ integers
def Fleet.pkey (cfg : Fleet) (workerID : Int) : Int := workerID.tmod cfg.partitions

-- MockGRPCWorker::startServing, up to the start of its server.
def startServing (cfg : Fleet) (worker : Int × List Int) : Program Bool :=
  insertEach cfg.partitions
    (fun data => ⟨.insertSparkWorker,
      [.int worker.1,.int cfg.capacity,.int data,.int (cfg.pkey worker.1),.string ""]⟩) worker.2

def shardRows (cfg : Fleet) (worker : Int × List Int) : List WorkerRow :=
  worker.2.map fun data => ⟨worker.1,cfg.capacity,data,cfg.pkey worker.1,""⟩

def shardLocations (cfg : Fleet) (worker : Int × List Int) : List DataLocationRow :=
  worker.2.map fun data => ⟨data,cfg.pkey worker.1⟩

def Fleet.register (cfg : Fleet) (worker : Int × List Int) (db : Database) : Database :=
  {db with worker:=db.worker ++ shardRows cfg worker,dataLocation:=db.dataLocation ++ shardLocations cfg worker}

theorem startServing_registers {db after : Database}
    (ran : solo invoke db (startServing cfg worker) choices = some (after,some true)) :
    after = cfg.register worker db := by
  obtain ⟨workerID,workerData⟩ := worker
  have grown : ∀ (data : List Int) (db : Database), data.foldl (fun db shard => cfg.register (workerID,[shard]) db) db =
      cfg.register (workerID,data) db := by
    intro data
    induction data with
    | nil =>
      intro db
      simp [Fleet.register,shardRows,shardLocations]
    | cons shard data ih =>
      intro db
      rw [List.foldl_cons,ih]
      simp [Fleet.register,shardRows,shardLocations]
  rw [← grown]
  refine insertEach_grows (fun shard db => cfg.register (workerID,[shard]) db) ?_ ran
  intro shard db choice after reply served
  rcases invoke_cases (.insertSparkWorker workerID cfg.capacity shard (cfg.pkey workerID) "") rfl served with
    ⟨missing,_⟩ | ⟨answer,_,committed⟩
  · cases missing
  · obtain ⟨code,inserted,_⟩ := reply_some committed
    obtain ⟨middle,added,inserted⟩ := Option.bind_eq_some_iff.mp inserted
    obtain ⟨final,located,ended⟩ := Option.bind_eq_some_iff.mp inserted
    cases ended
    rw [insertData_some located,(insertWorker_some added).2]
    rfl

-- `selected` holds, for every task that was selected for a worker and is not yet
-- finished, the id of that worker. It is no data of the program.
structure State where
  db : Database
  selected : List Int
  deriving Repr, DecidableEq

inductive Action where
  | select (pkey targetData : Int) (choice : Choice)
  | finish (i : Nat) (taskID : Int) (choice : Choice)
  deriving Repr, DecidableEq

-- Any scheduler may select at any time. A dispatch ends with one FinishWorkerTask
-- for its worker; if that call fails, its unit of capacity is still taken.
def advance (cfg : Fleet) : Advance State Action (Request × Response)
  | s,.select pkey targetData choice =>
    let request : Request := ⟨.selectSparkWorker,[.int pkey,.int targetData]⟩
    let (db,response) := invoke s.db request choice
    let found := (SelectSparkWorker.selectWorker choice pkey targetData s.db).map WorkerRow.workerID
    let taken := if response.isSome then found.toList else []
    some (⟨db,s.selected ++ taken⟩,[(request,response)])
  | s,.finish i taskID choice =>
    match s.selected[i]? with
    | none => none
    | some workerID =>
      let request : Request := ⟨.finishWorkerTask,[.int workerID,.int taskID,.int (cfg.pkey workerID)]⟩
      let (db,response) := invoke s.db request choice
      some (⟨db,if response.isSome then s.selected.eraseIdx i else s.selected⟩,[(request,response)])

-- All workers registered, on a Worker table that setup has just truncated.
def State.start (cfg : Fleet) (db : Database) : State :=
  ⟨cfg.workers.foldl (fun db worker => cfg.register worker db) {db with worker:=[],dataLocation:=[]},[]⟩

structure Coherent (cfg : Fleet) (s : State) : Prop where
  place : ∀ row ∈ s.db.worker, row.pkey = cfg.pkey row.workerID
  balance : ∀ row ∈ s.db.worker, row.capacity + s.selected.count row.workerID = cfg.capacity
  known : ∀ workerID ∈ s.selected, ∃ row ∈ s.db.worker, row.workerID = workerID
  nonNegative : 0 ≤ cfg.capacity → ∀ row ∈ s.db.worker, 0 ≤ row.capacity

variable {cfg : Fleet} {s next last : State} {row : WorkerRow}

theorem registered_rows (cfg : Fleet) (workers : List (Int × List Int)) (db : Database)
    (start : ∀ row ∈ db.worker, row.pkey = cfg.pkey row.workerID ∧ row.capacity = cfg.capacity) :
    ∀ row ∈ (workers.foldl (fun db worker => cfg.register worker db) db).worker,
      row.pkey = cfg.pkey row.workerID ∧ row.capacity = cfg.capacity := by
  induction workers generalizing db with
  | nil => exact start
  | cons worker workers ih =>
    refine ih _ fun row member => ?_
    rcases List.mem_append.mp member with old | new
    · exact start row old
    · obtain ⟨data,_,rfl⟩ := List.mem_map.mp new
      exact ⟨rfl,rfl⟩

theorem start_coherent (cfg : Fleet) (db : Database) : Coherent cfg (State.start cfg db) := by
  have rows := registered_rows cfg cfg.workers {db with worker:=[],dataLocation:=[]} (by simp)
  refine ⟨fun row member => (rows row member).1,fun row member => ?_,by simp [State.start],fun funded row member => ?_⟩
  · simp [State.start,(rows row member).2]
  · rw [(rows row member).2]
    exact funded

-- Overwriting the capacity of one worker keeps the books if the new value is the
-- right one for the new number of its tasks and nobody else's number moved.
theorem Coherent.overwrite {db : Database} {selected : List Int} (coherent : Coherent cfg s)
    (same : db.worker = setCapacity capacity (cfg.pkey workerID) workerID s.db.worker)
    (value : capacity + (selected.count workerID : Nat) = cfg.capacity) (bound : 0 ≤ cfg.capacity → 0 ≤ capacity)
    (others : ∀ other, other ≠ workerID → selected.count other = s.selected.count other)
    (within : ∀ other ∈ selected, other = workerID ∨ other ∈ s.selected)
    (present : ∃ row ∈ s.db.worker, row.workerID = workerID) :
    Coherent cfg ⟨db,selected⟩ := by
  have rows : ∀ row ∈ db.worker, ∃ old ∈ s.db.worker, row.workerID = old.workerID ∧ row.pkey = old.pkey ∧
      row.capacity = if old.workerID = workerID then capacity else old.capacity := by
    intro row member
    rw [same] at member
    obtain ⟨old,there,rfl⟩ := mem_update.mp member
    by_cases mine : old.workerID = workerID
    · have hit : ofWorker (cfg.pkey workerID) workerID old = true := by
        simp [mine,coherent.place old there]
      exact ⟨old,there,by simp [hit],by simp [hit],by simp [hit,mine]⟩
    · have missed : ofWorker (cfg.pkey workerID) workerID old = false := by simp [ofWorker,mine]
      exact ⟨old,there,by simp [missed],by simp [missed],by simp [missed,mine]⟩
  have kept : ∀ old ∈ s.db.worker, ∃ row ∈ db.worker, row.workerID = old.workerID := by
    intro old there
    rw [same]
    refine ⟨_,mem_update.mpr ⟨old,there,rfl⟩,?_⟩
    split <;> rfl
  refine ⟨?_,?_,?_,?_⟩
  · intro row member
    obtain ⟨old,there,named,here,_⟩ := rows row member
    rw [named,here]
    exact coherent.place old there
  · intro row member
    obtain ⟨old,there,named,_,amount⟩ := rows row member
    by_cases mine : old.workerID = workerID
    · rw [amount,named,mine,if_pos rfl]
      exact value
    · rw [amount,named,if_neg mine,others _ mine]
      exact coherent.balance old there
  · intro other member
    have source : ∃ row ∈ s.db.worker, row.workerID = other := by
      rcases within other member with rfl | old
      · exact present
      · exact coherent.known other old
    obtain ⟨old,there,named⟩ := source
    obtain ⟨row,here,same⟩ := kept old there
    exact ⟨row,here,same.trans named⟩
  · intro funded row member
    obtain ⟨old,there,_,_,amount⟩ := rows row member
    rw [amount]
    split
    · exact bound funded
    · exact coherent.nonNegative funded old there

theorem Coherent.select (coherent : Coherent cfg s)
    (stepped : advance cfg s (.select pkey targetData choice) = some (next,seen)) : Coherent cfg next := by
  simp only [advance] at stepped
  cases ran : invoke s.db ⟨.selectSparkWorker,[.int pkey,.int targetData]⟩ choice with
  | mk db response =>
    rw [ran] at stepped
    cases stepped
    rcases invoke_cases (.selectSparkWorker pkey targetData) rfl ran with ⟨rfl,rfl⟩ | ⟨answer,rfl,committed⟩
    · simpa using coherent
    · obtain ⟨code,chosen,rfl⟩ := reply_some committed
      rcases SelectSparkWorker.run_cases chosen with ⟨nobody,_,rfl⟩ | ⟨row,found,free,_,_,rfl⟩
      · simpa [nobody] using coherent
      · have account := coherent.balance row free.1
        have spare := free.2.2
        simp only [found,Option.map_some,Option.isSome_some,if_true,Option.toList_some]
        have written : (s.db.charge row).worker =
            setCapacity (row.capacity - 1) (cfg.pkey row.workerID) row.workerID s.db.worker := by
          rw [Database.charge,coherent.place row free.1]
        refine coherent.overwrite written ?_ (fun _ => by omega) ?_ ?_ ⟨row,free.1,rfl⟩
        · rw [List.count_append,List.count_singleton_self]
          push_cast
          omega
        · intro other apart
          have absent : [row.workerID].count other = 0 := List.count_eq_zero_of_not_mem (by simpa using apart)
          rw [List.count_append,absent]
          rfl
        · intro other member
          rcases List.mem_append.mp member with old | new
          · exact .inr old
          · exact .inl (List.mem_singleton.mp new)

theorem Coherent.finish (coherent : Coherent cfg s)
    (stepped : advance cfg s (.finish i taskID choice) = some (next,seen)) : Coherent cfg next := by
  simp only [advance] at stepped
  split at stepped
  · cases stepped
  · rename_i workerID position
    cases ran : invoke s.db ⟨.finishWorkerTask,[.int workerID,.int taskID,.int (cfg.pkey workerID)]⟩ choice with
    | mk db response =>
      rw [ran] at stepped
      cases stepped
      rcases invoke_cases (.finishWorkerTask workerID taskID (cfg.pkey workerID)) rfl ran with
        ⟨rfl,rfl⟩ | ⟨answer,rfl,committed⟩
      · simpa using coherent
      · obtain ⟨code,chosen,rfl⟩ := reply_some committed
        obtain ⟨inside,value⟩ := List.getElem?_eq_some_iff.mp position
        have listed : workerID ∈ s.selected := value ▸ List.getElem_mem inside
        obtain ⟨present,there,named⟩ := coherent.known workerID listed
        rcases FinishWorkerTask.run_cases chosen with ⟨_,_,missing⟩ | ⟨row,member,key,_,_,same⟩
        · refine absurd ?_ (missing present there)
          simp [WorkerRow.key,named,coherent.place present there]
        · have count : ∀ other, s.selected.count other =
              (s.selected.eraseIdx i).count other + if other = workerID then 1 else 0 := by
            intro other
            have whole := (List.getElem_cons_eraseIdx_perm inside).count_eq other
            rw [← whole,List.count_cons,value]
            by_cases mine : other = workerID
            · simp [mine]
            · simp [mine,Ne.symm mine]
          have account := coherent.balance row member
          have owner : row.workerID = workerID := (Prod.mk.inj key).2
          rw [owner,count workerID,if_pos rfl] at account
          have low : 0 ≤ cfg.capacity → 0 ≤ row.capacity := fun funded => coherent.nonNegative funded row member
          simp only [Option.isSome_some,if_true]
          refine coherent.overwrite (congrArg Database.worker same) (by push_cast at account; omega) (fun funded => by have := low funded; omega)
            (fun other apart => by rw [count other,if_neg apart,Nat.add_zero]) (fun other member => ?_) ⟨present,there,named⟩
          exact .inr (List.mem_of_mem_eraseIdx member)

theorem coherent_of_run (path : Runs (advance cfg) (State.start cfg db) moves last) : Coherent cfg last := by
  refine path.invariant (Coherent cfg) (start_coherent cfg db) fun s action next seen coherent stepped => ?_
  cases action with
  | select pkey targetData choice => exact coherent.select stepped
  | finish i taskID choice => exact coherent.finish stepped

theorem shards_conserved (path : Runs (advance cfg) (State.start cfg db) moves last) (member : row ∈ last.db.worker) :
    (∀ other ∈ last.db.worker, other.workerID = row.workerID → other.capacity = row.capacity) ∧
      row.capacity + last.selected.count row.workerID = cfg.capacity ∧
      (0 ≤ cfg.capacity → 0 ≤ row.capacity ∧ (last.selected.count row.workerID : Int) ≤ cfg.capacity) := by
  have coherent := coherent_of_run path
  have account := coherent.balance row member
  refine ⟨fun other there same => ?_,account,fun funded => ?_⟩
  · have also := coherent.balance other there
    rw [same] at also
    omega
  · have low := coherent.nonNegative funded row member
    exact ⟨low,by omega⟩

-- Worker 3 holds the shards 5, 6 and 5 again; two tasks run, one of them ends.
def threeShards : Fleet := ⟨2,2,[(3,[5,6,5])]⟩

theorem shards_conserved_sample : ∃ moves last,
    Runs (advance threeShards) (State.start threeShards Database.empty) moves last ∧ last.selected = [3] ∧
      ∃ row ∈ last.db.worker, (∀ other ∈ last.db.worker, other.workerID = row.workerID → other.capacity = row.capacity) ∧
        row.capacity + last.selected.count row.workerID = 2 := by
  obtain ⟨moves,last,path,checked⟩ := run_reaches (advance threeShards) (State.start threeShards Database.empty)
    (fun _ last => decide (last.selected = [3] ∧ ⟨3,1,6,1,""⟩ ∈ last.db.worker))
    [.select 1 5 {},.select 1 6 {},.finish 0 7 {worker:=2}] (by decide)
  obtain ⟨left,member⟩ := of_decide_eq_true checked
  have conserved := shards_conserved path member
  exact ⟨moves,last,path,left,_,member,conserved.1,conserved.2.1⟩

end DbosScheduler.Spark
