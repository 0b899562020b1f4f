import DbosScheduler.Spark.Workers
import DbosScheduler.Sql.Commits

namespace DbosScheduler.Spark
open Machine Client Sql Scheduler Table

-- DataLocation against Worker. The two tables are written by different statements
-- but row for row: what one says about shards and partitions the other says too.
def located (db : Database) : List (Int × Int) := db.dataLocation.map fun row => (row.dataShard,row.pkey)

def hosted (db : Database) : List (Int × Int) := db.worker.map fun row => (row.dataShards,row.pkey)

def Local (db : Database) : Prop := located db = hosted db

def sparkCall : Call → Bool
  | .insertSparkWorker .. | .selectSparkWorker .. | .finishWorkerTask .. | .truncateWorkerTable => true
  | _ => false

def concurrentCall : Call → Bool
  | .selectSparkWorker .. | .finishWorkerTask .. => true
  | _ => false

-- Where SparkScheduler::selectWorker stands: before its first query, in the polling
-- loop with the snapshot it took, or at its return. A failed first query and an
-- empty snapshot end the process.
inductive Selecting where
  | asking
  | polling (targetPartitions : List Int)
  | returned (selectedWorker : Int)
  | died
  deriving Repr, DecidableEq

inductive SelectAction where
  | own (rand : Nat) (choice : Choice)
  | other (call : Call) (choice : Choice)
  deriving Repr, DecidableEq

structure Polled where
  partitionNum : Int
  response : Response
  deriving Repr, DecidableEq

-- SparkScheduler::selectWorker(targetData) between the transactions of the other
-- schedulers and of the workers.
def SparkScheduler.selectWorker (targetData : Int) : Advance (Database × Selecting) SelectAction Polled
  | (db,.asking),.own _ choice =>
    match invoke db ⟨.selectDataShardPartition,[.int targetData]⟩ choice with
    | (after,some (.column targetPartitions)) => some ((after,.polling targetPartitions),[])
    | (after,_) => some ((after,.died),[])
  | (db,.polling targetPartitions),.own rand choice =>
    match targetPartitions[rand % targetPartitions.length]? with
    | none => some ((db,.died),[])
    | some partitionNum =>
      match invoke db ⟨.selectSparkWorker,[.int partitionNum,.int targetData]⟩ choice with
      | (after,none) => some ((after,.returned (-1)),[⟨partitionNum,none⟩])
      | (after,some reply) =>
        let stands := if getInt64 reply ≠ -1 then .returned (getInt64 reply) else .polling targetPartitions
        some ((after,stands),[⟨partitionNum,some reply⟩])
  | (db,stands),.other call choice =>
    if concurrentCall call then some (((call.execute choice db).1,stands),[]) else none
  | _,_ => none

-- SparkScheduler::setup: worker i holds the data shard i.
def SparkScheduler.fleet (cfg : Config) : Fleet :=
  ⟨cfg.partitions,cfg.workerCapacity,(List.range cfg.numWorkers).map fun (i : Nat) => ((i : Int),[(i : Int)])⟩

def insertAll (cfg : Fleet) : List (Int × List Int) → Program Bool
  | [] => .done (some true)
  | worker :: rest => (startServing cfg worker).bind fun ret =>
    match ret with
    | some true => insertAll cfg rest
    | ended => .done ended

def SparkScheduler.setup (cfg : Config) : Program Bool :=
  truncate .truncateWorkerTable (insertAll (SparkScheduler.fleet cfg) (SparkScheduler.fleet cfg).workers)

variable {db after : Database} {call : Call} {choice : Choice} {answer : Reply}

theorem mem_located (local_ : Local db) (d p : Int) :
    ⟨d,p⟩ ∈ db.dataLocation ↔ ∃ row ∈ db.worker, row.dataShards = d ∧ row.pkey = p := by
  have left : ⟨d,p⟩ ∈ db.dataLocation ↔ (d,p) ∈ located db := by
    simp only [located,List.mem_map]
    constructor
    · intro member
      exact ⟨_,member,rfl⟩
    · intro given
      obtain ⟨row,member,same⟩ := given
      cases same
      exact member
  rw [left,local_,hosted,List.mem_map]
  simp

theorem run_local (named : sparkCall call = true) (local_ : Local db) (ran : call.run choice db = some (answer,after)) :
    Local after := by
  have change := (run_effect ran).worker
  simp only [Local,located,hosted] at local_ ⊢
  revert change
  generalize after.worker = rows
  generalize after.dataLocation = places
  intro change
  cases change with
  | same => exact local_
  | emptied => rfl
  | added registered =>
    cases call with
    | insertSparkWorker workerID capacity workerData pkey url =>
      cases registered
      simp [Call.location,local_]
    | insertWorker => cases named
    | _ => cases registered
  | rewritten =>
    rw [map_update (fun row : WorkerRow => (row.dataShards,row.pkey)) (by intro row _; rfl)]
    exact local_

-- Which rows there are, capacities aside, does not change while workers are only
-- selected and released.
def identity (row : WorkerRow) : Int × Int × Int := (row.workerID,row.dataShards,row.pkey)

theorem run_identities (named : concurrentCall call = true) (ran : call.run choice db = some (answer,after)) :
    after.worker.map identity = db.worker.map identity ∧ after.dataLocation = db.dataLocation := by
  have change := (run_effect ran).worker
  revert change
  generalize after.worker = rows
  generalize after.dataLocation = places
  intro change
  cases change with
  | same => exact ⟨rfl,rfl⟩
  | emptied is =>
    subst is
    cases named
  | added registered =>
    have unregistered : call.registration = none := by cases call <;> first | rfl | cases named
    rw [unregistered] at registered
    cases registered
  | rewritten => exact ⟨map_update identity (by intro row _; rfl) _,rfl⟩

theorem commits_local {moves : List (Move Database (Call × Choice) (Call × Reply))} {last : Database}
    (path : Runs commit db moves last) (named : ∀ move ∈ moves, sparkCall move.action.1 = true) (start : Local db) :
    Local last := by
  refine path.guarded Local (fun _ action => sparkCall action.1 = true) named start ?_
  intro s action next seen local_ spark stepped
  obtain ⟨answer,ran,_⟩ := commit_some stepped
  exact run_local spark local_ ran

-- The setup consists of such calls, so it keeps the tables in step even where one
-- of its invocations fails.
def SparkRequest (request : Request) : Prop := ∃ call, request.call = some call ∧ sparkCall call = true

theorem invoke_local (spark : SparkRequest request) (local_ : Local db) : Local (invoke db request choice).1 := by
  obtain ⟨call,named,is⟩ := spark
  cases ran : invoke db request choice with
  | mk after response =>
    rcases invoke_cases call named ran with ⟨_,rfl⟩ | ⟨answer,_,committed⟩
    · exact local_
    · exact run_local is local_ committed

theorem insertAll_only (cfg : Fleet) (workers : List (Int × List Int)) : (insertAll cfg workers).Only SparkRequest := by
  induction workers with
  | nil => exact .done
  | cons worker workers ih =>
    refine Prog.Only.bind (insertEach_only (fun data => ?_) _) fun ret => ?_
    · exact ⟨.insertSparkWorker worker.1 cfg.capacity data (cfg.pkey worker.1) "",rfl,rfl⟩
    · split
      · exact ih
      · exact .done

theorem setup_local (local_ : Local db)
    (ran : solo invoke db (SparkScheduler.setup cfg) choices = some (after,result)) : Local after :=
  solo_invariant Local (.invoke ⟨.truncateWorkerTable,rfl,rfl⟩ fun _ => insertAll_only _ _)
    (fun _ _ _ spark kept => invoke_local spark kept) local_ ran

theorem insertAll_registers {cfg : Fleet} {workers : List (Int × List Int)}
    (ran : solo invoke db (insertAll cfg workers) choices = some (after,some true)) :
    after = workers.foldl (fun db worker => cfg.register worker db) db := by
  induction workers generalizing db choices with
  | nil =>
    cases choices <;> cases ran
    rfl
  | cons worker workers ih =>
    obtain ⟨left,right,middle,result,_,first,rest⟩ := solo_bind _ ran
    cases result with
    | none => cases right <;> cases rest
    | some ret =>
      cases ret with
      | false => cases right <;> cases rest
      | true =>
        rw [List.foldl_cons,← startServing_registers first]
        exact ih rest

theorem register_grows (cfg : Fleet) (workers : List (Int × List Int)) (member : row ∈ db.worker) :
    row ∈ (workers.foldl (fun db worker => cfg.register worker db) db).worker := by
  induction workers generalizing db with
  | nil => exact member
  | cons worker workers ih => exact ih (List.mem_append_left _ member)

theorem registered_row (cfg : Fleet) {workers : List (Int × List Int)} (listed : worker ∈ workers)
    (shard : data ∈ worker.2) (db : Database) : ⟨worker.1,cfg.capacity,data,cfg.pkey worker.1,""⟩ ∈
      (workers.foldl (fun db worker => cfg.register worker db) db).worker := by
  induction workers generalizing db with
  | nil => cases listed
  | cons head workers ih =>
    rcases List.mem_cons.mp listed with rfl | later
    · exact register_grows cfg workers (List.mem_append_right _ (List.mem_map.mpr ⟨data,shard,rfl⟩))
    · exact ih later _

theorem setup_registers {cfg : Config} (registered : d < cfg.numWorkers)
    (ran : solo invoke db (SparkScheduler.setup cfg) choices = some (after,some true)) :
    ∃ row ∈ after.worker, row.workerID = (d : Int) ∧ row.dataShards = (d : Int) := by
  obtain ⟨choice,rest,_,inserting⟩ := solo_invoke ran
  rw [insertAll_registers inserting]
  have listed : ((d : Int),[(d : Int)]) ∈ (SparkScheduler.fleet cfg).workers :=
    List.mem_map.mpr ⟨d,List.mem_range.mpr registered,rfl⟩
  exact ⟨_,registered_row _ listed (List.mem_singleton_self _) _,rfl,rfl⟩

theorem mem_shardPartitions (ran : SelectDataShardPartition.run choice d db = some (partitions,after)) :
    after = db ∧ ∀ p, p ∈ partitions ↔ ⟨d,p⟩ ∈ db.dataLocation := by
  cases ran
  refine ⟨rfl,fun p => ?_⟩
  have whole : ∀ found : List Int, p ∈ limit found.length choice.rows found ↔ p ∈ found := by
    intro found
    exact ⟨fun member => (limit_subperm _ _ _).subset member,fun member => limit_all member (Nat.le_refl _)⟩
  rw [whole,List.mem_dedup,List.mem_map]
  constructor
  · intro given
    obtain ⟨row,found,rfl⟩ := given
    obtain ⟨member,mine⟩ := List.mem_filter.mp found
    rw [← show row.dataShard = d by simpa using mine]
    exact member
  · intro member
    exact ⟨_,List.mem_filter.mpr ⟨member,by simp⟩,rfl⟩

-- What one step of a selection does.
inductive SelectStep (d : Int) (db : Database) : Selecting → Database → Selecting → List Polled → Prop where
  | asked {partitions : List Int} : (∀ p, p ∈ partitions ↔ ⟨d,p⟩ ∈ db.dataLocation) →
      SelectStep d db .asking db (.polling partitions) []
  | died {stands : Selecting} : stands = .asking ∨ stands = .polling [] → SelectStep d db stands db .died []
  | failed {partitions : List Int} {p : Int} : p ∈ partitions →
      SelectStep d db (.polling partitions) db (.returned (-1)) [⟨p,none⟩]
  | nobody {partitions : List Int} {p : Int} {reply : Reply} : p ∈ partitions →
      SelectStep d db (.polling partitions) db (.polling partitions) [⟨p,some reply⟩]
  | charged {partitions : List Int} {row : WorkerRow} {reply : Reply} : row.pkey ∈ partitions → row ∈ db.worker →
      row.dataShards = d → 0 < row.capacity → row.workerID ≠ -1 →
      SelectStep d db (.polling partitions) (db.charge row) (.returned row.workerID) [⟨row.pkey,some reply⟩]
  | unnamed {partitions : List Int} {row : WorkerRow} {reply : Reply} : row.pkey ∈ partitions →
      SelectStep d db (.polling partitions) (db.charge row) (.polling partitions) [⟨row.pkey,some reply⟩]
  | other {call : Call} {choice : Choice} {stands : Selecting} : concurrentCall call = true →
      SelectStep d db stands (call.execute choice db).1 stands []

theorem select_step {s next : Database × Selecting} {d : Int}
    (stepped : SparkScheduler.selectWorker d s action = some (next,seen)) : SelectStep d s.1 s.2 next.1 next.2 seen := by
  obtain ⟨db,stands⟩ := s
  cases action with
  | other call choice =>
    simp only [SparkScheduler.selectWorker] at stepped
    split at stepped
    · cases stepped
      exact .other ‹_›
    · cases stepped
  | own rand choice =>
    cases stands with
    | asking =>
      simp only [SparkScheduler.selectWorker] at stepped
      cases ran : invoke db ⟨.selectDataShardPartition,[.int d]⟩ choice with
      | mk after response =>
        rw [ran] at stepped
        rcases invoke_cases (.selectDataShardPartition d) rfl ran with ⟨rfl,rfl⟩ | ⟨answer,rfl,committed⟩
        · cases stepped
          exact .died (.inl rfl)
        · obtain ⟨partitions,chosen,rfl⟩ := reply_some committed
          obtain ⟨rfl,exact_⟩ := mem_shardPartitions chosen
          cases stepped
          exact .asked exact_
    | polling partitions =>
      simp only [SparkScheduler.selectWorker] at stepped
      split at stepped
      · rename_i missing
        cases stepped
        exact .died (.inr (by rw [limitOne_none.mp missing]))
      · rename_i p found
        have listed : p ∈ partitions := List.mem_of_getElem? found
        cases ran : invoke db ⟨.selectSparkWorker,[.int p,.int d]⟩ choice with
        | mk after response =>
          rw [ran] at stepped
          rcases invoke_cases (.selectSparkWorker p d) rfl ran with ⟨rfl,rfl⟩ | ⟨answer,rfl,committed⟩
          · cases stepped
            exact .failed listed
          · obtain ⟨code,chosen,rfl⟩ := reply_some committed
            cases stepped
            rcases SelectSparkWorker.run_cases chosen with ⟨_,rfl,rfl⟩ | ⟨row,_,free,shard,rfl,rfl⟩
            · exact .nobody listed
            · obtain ⟨member,rfl,capacity⟩ := free
              by_cases none_ : row.workerID = -1
              · simp only [getInt64,none_,ne_eq,not_true_eq_false,if_false]
                exact .unnamed listed
              · simp only [getInt64,none_,ne_eq,not_false_eq_true,if_true]
                exact .charged listed member shard capacity none_
    | returned => cases stepped
    | died => cases stepped

-- During a selection: the rows are those of the start, and the snapshot is exact.
structure Focused (d : Int) (origin : Database) (s : Database × Selecting) : Prop where
  rows : s.1.worker.map identity = origin.worker.map identity
  tables : Local s.1
  snapshot : ∀ partitions, s.2 = .polling partitions →
    ∀ p, p ∈ partitions ↔ ∃ row ∈ s.1.worker, row.dataShards = d ∧ row.pkey = p

theorem hosts_same {other : Database} (same : other.worker.map identity = db.worker.map identity) (d p : Int) :
    (∃ row ∈ other.worker, row.dataShards = d ∧ row.pkey = p) ↔ ∃ row ∈ db.worker, row.dataShards = d ∧ row.pkey = p := by
  have direct : ∀ {a b : Database}, a.worker.map identity = b.worker.map identity →
      (∃ row ∈ a.worker, row.dataShards = d ∧ row.pkey = p) → ∃ row ∈ b.worker, row.dataShards = d ∧ row.pkey = p := by
    intro a b equal given
    obtain ⟨row,member,shard,place⟩ := given
    have listed : identity row ∈ b.worker.map identity := equal ▸ List.mem_map_of_mem member
    obtain ⟨old,present,twin⟩ := List.mem_map.mp listed
    simp only [identity,Prod.mk.injEq] at twin
    exact ⟨old,present,twin.2.1.trans shard,twin.2.2.trans place⟩
  exact ⟨direct same,direct same.symm⟩

theorem charge_identities (row : WorkerRow) (db : Database) :
    (db.charge row).worker.map identity = db.worker.map identity ∧ (db.charge row).dataLocation = db.dataLocation :=
  ⟨map_update identity (by intro old _; rfl) _,rfl⟩

theorem SelectStep.identities (stepped : SelectStep d db stands after stands' seen) :
    after.worker.map identity = db.worker.map identity ∧ after.dataLocation = db.dataLocation := by
  cases stepped with
  | @charged partitions row | @unnamed partitions row => exact charge_identities row db
  | @other call choice _ concurrent =>
    cases ran : call.execute choice db with
    | mk stored response =>
      rcases execute_cases ran with ⟨_,rfl⟩ | ⟨answer,_,committed⟩
      · exact ⟨rfl,rfl⟩
      · exact run_identities concurrent committed
  | _ => exact ⟨rfl,rfl⟩

-- Capacities may change as they like.
theorem Focused.kept {s : Database × Selecting} {stands : Selecting} (focused : Focused d origin s)
    (same : after.worker.map identity = s.1.worker.map identity ∧ after.dataLocation = s.1.dataLocation)
    (still : ∀ partitions, stands = .polling partitions → s.2 = .polling partitions) : Focused d origin (after,stands) := by
  refine ⟨same.1.trans focused.rows,?_,fun partitions here p => ?_⟩
  · have pairs : hosted after = hosted s.1 := by
      have tails := congrArg (List.map Prod.snd) same.1
      simpa [hosted,identity,Function.comp_def] using tails
    rw [Local,located,same.2,pairs]
    exact focused.tables
  · rw [hosts_same same.1]
    exact focused.snapshot partitions (still partitions here) p

theorem Focused.step {s next : Database × Selecting} (focused : Focused d origin s)
    (stepped : SelectStep d s.1 s.2 next.1 next.2 seen) : Focused d origin next := by
  obtain ⟨db,stands⟩ := s
  obtain ⟨after,stands'⟩ := next
  have same := stepped.identities
  cases stepped with
  | asked exact_ =>
    refine ⟨focused.rows,focused.tables,fun partitions here p => ?_⟩
    cases here
    rw [exact_,mem_located focused.tables]
  | died | failed | charged =>
    refine focused.kept same fun partitions here => ?_
    cases here
  | nobody | unnamed | other => exact focused.kept same fun _ here => here

-- A returned id was taken from a row of the shard that had capacity left; -1 stands
-- for a failed invocation.
theorem returned_charged {moves : List (Move (Database × Selecting) SelectAction Polled)} {last : Database × Selecting}
    (path : Runs (SparkScheduler.selectWorker d) (origin,.asking) moves last) (ended : last.2 = .returned w) :
    (w = -1 ∧ ∃ move ∈ moves, ∃ p, ⟨p,none⟩ ∈ move.seen) ∨
      ∃ move ∈ moves, ∃ row ∈ move.before.1.worker, row.workerID = w ∧ row.dataShards = d ∧ 0 < row.capacity ∧
        move.after.1 = move.before.1.charge row := by
  induction path with
  | nil => cases ended
  | @step earlier middle action after seen prior stepped ih =>
    have known : middle.2 = .returned w →
        (w = -1 ∧ ∃ move ∈ earlier ++ [⟨middle,action,after,seen⟩], ∃ p, ⟨p,none⟩ ∈ move.seen) ∨
        ∃ move ∈ earlier ++ [⟨middle,action,after,seen⟩], ∃ row ∈ move.before.1.worker, row.workerID = w ∧
          row.dataShards = d ∧ 0 < row.capacity ∧ move.after.1 = move.before.1.charge row := by
      intro before
      rcases ih before with ⟨minus,move,member,polled⟩ | ⟨move,member,charged⟩
      · exact .inl ⟨minus,move,List.mem_append_left _ member,polled⟩
      · exact .inr ⟨move,List.mem_append_left _ member,charged⟩
    have step := select_step stepped
    obtain ⟨db,stands⟩ := middle
    obtain ⟨stored,stands'⟩ := after
    cases step with
    | asked => cases ended
    | died => cases ended
    | failed =>
      cases ended
      exact .inl ⟨rfl,_,List.mem_append_right _ (List.mem_singleton_self _),_,List.mem_singleton_self _⟩
    | nobody => cases ended
    | charged listed member shard capacity =>
      cases ended
      exact .inr ⟨_,List.mem_append_right _ (List.mem_singleton_self _),_,member,rfl,shard,capacity,rfl⟩
    | unnamed => cases ended
    | other => exact known ended

theorem SelectStep.polled (stepped : SelectStep d db stands after stands' seen) (member : poll ∈ seen) :
    ∃ partitions, stands = .polling partitions ∧ poll.partitionNum ∈ partitions := by
  cases stepped with
  | asked | died | other => cases member
  | failed listed | nobody listed | charged listed | unnamed listed =>
    cases List.mem_singleton.mp member
    exact ⟨_,rfl,listed⟩

theorem mem_drawable (partitions : List Int) (p : Int) :
    (∃ rand, partitions[rand % partitions.length]? = some p) ↔ p ∈ partitions := by
  constructor
  · intro given
    obtain ⟨rand,found⟩ := given
    exact List.mem_of_getElem? found
  · intro member
    exact limitOne_complete member

-- The tables as Spark transactions alone can have made them.
def SparkReachable (db : Database) : Prop :=
  ∃ start moves, start.worker = [] ∧ start.dataLocation = [] ∧ Runs commit start moves db ∧
    ∀ move ∈ moves, sparkCall move.action.1 = true

theorem reachable_local (reached : SparkReachable db) : Local db := by
  obtain ⟨start,moves,workers,locations,path,named⟩ := reached
  exact commits_local path named (by simp [Local,located,hosted,workers,locations])

theorem data_locality :
    (∀ db, SparkReachable db → ∀ d p,
      ⟨d,p⟩ ∈ db.dataLocation ↔ ∃ row ∈ db.worker, row.dataShards = d ∧ row.pkey = p) ∧
    ∀ cfg db choices prepared d moves last, SparkReachable db →
      solo invoke db (SparkScheduler.setup cfg) choices = some (prepared,some true) → d < cfg.numWorkers →
      Runs (SparkScheduler.selectWorker (d : Nat)) (prepared,.asking) moves last →
      (∀ partitions, last.2 = .polling partitions → partitions ≠ [] ∧
        ∀ p, (∃ rand, partitions[rand % partitions.length]? = some p) ↔
          ∃ row ∈ last.1.worker, row.dataShards = d ∧ row.pkey = p) ∧
      (∀ move ∈ moves, ∀ poll ∈ move.seen,
        ∃ row ∈ move.before.1.worker, row.dataShards = d ∧ row.pkey = poll.partitionNum) ∧
      ∀ w, last.2 = .returned w →
        (w = -1 ∧ ∃ move ∈ moves, ∃ p, ⟨p,none⟩ ∈ move.seen) ∨
        ((∃ row ∈ prepared.worker, row.workerID = w ∧ row.dataShards = d) ∧
          ∃ move ∈ moves, ∃ row ∈ move.before.1.worker, row.workerID = w ∧ row.dataShards = d ∧ 0 < row.capacity ∧
            move.after.1 = move.before.1.charge row) := by
  refine ⟨fun db reached d p => mem_located (reachable_local reached) d p,?_⟩
  intro cfg db choices prepared d moves last reached ready registered path
  have focused : ∀ {moves last}, Runs (SparkScheduler.selectWorker (d : Nat)) (prepared,.asking) moves last →
      Focused d prepared last := by
    intro moves last path
    refine path.invariant (Focused d prepared) ⟨rfl,setup_local (reachable_local reached) ready,by simp⟩ ?_
    intro s action next seen focused stepped
    exact focused.step (select_step stepped)
  refine ⟨fun partitions here => ?_,fun move member poll seen => ?_,fun w ended => ?_⟩
  · have snapshot := (focused path).snapshot partitions here
    refine ⟨?_,fun p => by rw [mem_drawable,snapshot]⟩
    obtain ⟨row,present,_,shard⟩ := setup_registers registered ready
    have still := (hosts_same (focused path).rows d row.pkey).mpr ⟨row,present,shard,rfl⟩
    exact List.ne_nil_of_mem ((snapshot row.pkey).mpr still)
  · obtain ⟨⟨_,_,before⟩,stepped⟩ := path.stepped member
    obtain ⟨partitions,here,listed⟩ := (select_step stepped).polled seen
    exact ((focused before).snapshot partitions here _).mp listed
  · rcases returned_charged path ended with failed | ⟨move,member,row,present,named,shard,charged⟩
    · exact .inl failed
    · refine .inr ⟨?_,move,member,row,present,named,shard,charged⟩
      obtain ⟨⟨_,_,before⟩,_⟩ := path.stepped member
      have listed : identity row ∈ prepared.worker.map identity := (focused before).rows ▸ List.mem_map_of_mem present
      obtain ⟨first,registered,twin⟩ := List.mem_map.mp listed
      simp only [identity,Prod.mk.injEq] at twin
      exact ⟨first,registered,twin.1.trans named,twin.2.1.trans shard⟩

-- Worker 1 of two is taken by another scheduler before the first poll and released
-- before the second.
def twoWorkers : Config := ⟨2,0,1,2⟩

def twoRows : Database :=
  {Database.empty with worker:=[⟨0,1,0,0,""⟩,⟨1,1,1,1,""⟩],dataLocation:=[⟨0,0⟩,⟨1,1⟩]}

theorem data_locality_contended : ∃ moves last,
    Runs (SparkScheduler.selectWorker (1 : Nat)) (twoRows,.asking) moves last ∧ last.2 = .returned 1 ∧
      (observed moves).length = 2 ∧
      ∃ move ∈ moves, ∃ row ∈ move.before.1.worker, row.workerID = 1 ∧ row.dataShards = 1 ∧ 0 < row.capacity := by
  obtain ⟨moves,last,path,checked⟩ := run_reaches (SparkScheduler.selectWorker (1 : Nat)) (twoRows,.asking)
    (fun moves last => decide (last.2 = .returned 1 ∧ (observed moves).length = 2))
    [.own 0 {},.other (.selectSparkWorker 1 1) {},.own 7 {},.other (.finishWorkerTask 1 3 1) {},.own 4 {}]
    (by decide +kernel)
  obtain ⟨ended,twice⟩ := of_decide_eq_true checked
  have empty : SparkReachable Database.empty := ⟨Database.empty,[],rfl,rfl,.nil,by simp⟩
  have both := data_locality.2 twoWorkers Database.empty [{},{},{}] twoRows 1 moves last empty (by decide +kernel) (by decide) path
  rcases both.2.2 1 ended with ⟨minus,_⟩ | ⟨_,move,member,row,present,named,shard,capacity,_⟩
  · exact absurd minus (by decide)
  · exact ⟨moves,last,path,ended,twice,move,member,row,present,named,shard,capacity⟩

end DbosScheduler.Spark
