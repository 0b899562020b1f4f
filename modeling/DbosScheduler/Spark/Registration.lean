import DbosScheduler.Spark.Workers

namespace DbosScheduler.Spark
open Client Sql Scheduler

-- startServing registers a worker with one transaction for each of its shards. It
-- returns at the first one that fails, and nothing takes the earlier ones back.
def shardRow (cfg : Fleet) (workerID data : Int) : WorkerRow := ⟨workerID,cfg.capacity,data,cfg.pkey workerID,""⟩

-- InsertSparkWorker for this shard commits.
def Registers (cfg : Fleet) (workerID data : Int) (choice : Choice) : Prop :=
  choice.fault = false ∧ (shardRow cfg workerID data).legal = true

instance : Decidable (Registers cfg workerID data choice) := inferInstanceAs (Decidable (_ ∧ _))

variable {cfg : Fleet} {workerID data : Int} {choice : Choice}

theorem insertSparkWorker_commits (legal : (shardRow cfg workerID data).legal = true) (db : Database) :
    InsertSparkWorker.run workerID cfg.capacity data (cfg.pkey workerID) "" db =
      some (0,cfg.register (workerID,[data]) db) := by
  have columns := legal
  simp only [WorkerRow.legal,shardRow,Bool.and_eq_true] at columns
  obtain ⟨⟨⟨⟨named,funded⟩,shard⟩,placed⟩,sized⟩ := columns
  simp [InsertSparkWorker.run,Database.insertWorker,Database.insertData,named,funded,shard,placed,sized,
    Fleet.register,shardRows,shardLocations]

theorem insertSparkWorker_aborts (illegal : ¬(shardRow cfg workerID data).legal = true) (db : Database) :
    InsertSparkWorker.run workerID cfg.capacity data (cfg.pkey workerID) "" db = none := by
  have refused : db.insertWorker (shardRow cfg workerID data) = none := if_neg illegal
  rw [shardRow] at refused
  simp [InsertSparkWorker.run,refused]

def shardRequest (cfg : Fleet) (workerID data : Int) : Request :=
  ⟨.insertSparkWorker,[.int workerID,.int cfg.capacity,.int data,.int (cfg.pkey workerID),.string ""]⟩

theorem invoke_shard (cfg : Fleet) (workerID data : Int) (choice : Choice) (db : Database) :
    invoke db (shardRequest cfg workerID data) choice =
      if Registers cfg workerID data choice then (cfg.register (workerID,[data]) db,some (.long 0)) else (db,none) := by
  change Call.execute (.insertSparkWorker workerID cfg.capacity data (cfg.pkey workerID) "") choice db = _
  by_cases legal : (shardRow cfg workerID data).legal = true
  · cases fault : choice.fault with
    | true => simp [Call.execute,Registers,fault]
    | false => simp [Call.execute,Registers,fault,legal,Call.run,reply,insertSparkWorker_commits legal]
  · have refused : ¬Registers cfg workerID data choice := fun both => legal both.2
    rw [if_neg refused]
    cases fault : choice.fault <;>
      simp [Call.execute,fault,Call.run,reply,insertSparkWorker_aborts legal]

theorem register_cons (cfg : Fleet) (workerID data : Int) (rest : List Int) (db : Database) :
    cfg.register (workerID,data :: rest) db = cfg.register (workerID,rest) (cfg.register (workerID,[data]) db) := by
  simp [Fleet.register,shardRows,shardLocations]

theorem register_none (cfg : Fleet) (workerID : Int) (db : Database) : cfg.register (workerID,[]) db = db := by
  simp [Fleet.register,shardRows,shardLocations]

theorem startServing_cons (several : cfg.partitions ≠ 0) (workerID data : Int) (rest : List Int) (db : Database)
    (choose : Nat → Choice) :
    drive invoke db (startServing cfg (workerID,data :: rest)) choose =
      if Registers cfg workerID data (choose 0) then
        drive invoke (cfg.register (workerID,[data]) db) (startServing cfg (workerID,rest)) fun i => choose (i + 1)
      else (db,some false) := by
  have served := invoke_shard cfg workerID data (choose 0) db
  rw [shardRequest] at served
  by_cases taken : Registers cfg workerID data (choose 0)
  · rw [if_pos taken] at served ⊢
    simp [startServing,insertEach,several,drive,served]
  · rw [if_neg taken] at served ⊢
    simp [startServing,insertEach,several,drive,served]

-- The shards before the first refused one are registered, the others are not.
theorem startServing_stops (several : cfg.partitions ≠ 0) (workerID : Int) (workerData : List Int) (db : Database)
    (choose : Nat → Choice) :
    ∃ inserted rest, workerData = inserted ++ rest ∧
      drive invoke db (startServing cfg (workerID,workerData)) choose =
        (cfg.register (workerID,inserted) db,some rest.isEmpty) ∧
      (∀ i data, inserted[i]? = some data → Registers cfg workerID data (choose i)) ∧
      ∀ data, rest.head? = some data → ¬Registers cfg workerID data (choose inserted.length) := by
  induction workerData generalizing db choose with
  | nil => exact ⟨[],[],rfl,by simp [startServing,insertEach,drive,register_none],by simp,by simp⟩
  | cons data workerData ih =>
    by_cases taken : Registers cfg workerID data (choose 0)
    · obtain ⟨inserted,rest,rfl,ended,before,stop⟩ := ih (cfg.register (workerID,[data]) db) fun i => choose (i + 1)
      refine ⟨data :: inserted,rest,rfl,?_,fun i shard found => ?_,stop⟩
      · rw [startServing_cons several,if_pos taken,ended,register_cons cfg workerID data inserted db]
      · cases i with
        | zero =>
          cases found
          exact taken
        | succ i => exact before i shard found
    · refine ⟨[],data :: workerData,rfl,?_,by simp,?_⟩
      · rw [startServing_cons several,if_neg taken,register_none]
        rfl
      · intro shard first
        cases first
        exact taken

theorem failed_start_clean_iff (cfg : Fleet) (workerID : Int) (workerData : List Int) (db : Database) (choose : Nat → Choice) :
    ((drive invoke db (startServing cfg (workerID,workerData)) choose).2 = some false →
      (drive invoke db (startServing cfg (workerID,workerData)) choose).1.worker = db.worker ∧
      (drive invoke db (startServing cfg (workerID,workerData)) choose).1.dataLocation = db.dataLocation) ↔
    cfg.partitions = 0 ∨ (∃ data ∈ workerData.head?, ¬Registers cfg workerID data (choose 0)) ∨
      ∀ i data, workerData[i]? = some data → Registers cfg workerID data (choose i) := by
  by_cases several : cfg.partitions = 0
  · refine iff_of_true (fun failed => absurd failed ?_) (.inl several)
    cases workerData with
    | nil => simp [startServing,insertEach,drive]
    | cons => simp [startServing,insertEach,several,drive]
  · obtain ⟨inserted,rest,rfl,ended,before,stop⟩ := startServing_stops several workerID workerData db choose
    rw [ended]
    cases rest with
    | nil =>
      rw [List.append_nil]
      exact iff_of_true (by simp) (.inr (.inr before))
    | cons refused rest =>
      cases inserted with
      | nil =>
        refine iff_of_true (fun _ => by simp [register_none]) (.inr (.inl ⟨refused,by simp,?_⟩))
        exact stop refused rfl
      | cons first inserted =>
        refine iff_of_false (fun clean => ?_) ?_
        · have grown := congrArg List.length (clean rfl).1
          simp [Fleet.register,shardRows] at grown
        · intro given
          rcases given with none_ | ⟨data,head,failed⟩ | all
          · exact several none_
          · cases head
            exact failed (before 0 first rfl)
          · refine stop refused rfl (all _ refused ?_)
            rw [List.getElem?_append_right (Nat.le_refl _),Nat.sub_self]
            rfl

theorem failed_start_clean_iff_first :
    (drive invoke Database.empty (startServing ⟨2,4,[]⟩ (3,[5,6])) fun i => {fault:=i == 0}).2 = some false ∧
      (drive invoke Database.empty (startServing ⟨2,4,[]⟩ (3,[5,6])) fun i => {fault:=i == 0}).1.worker = [] := by
  have failed : (drive invoke Database.empty (startServing ⟨2,4,[]⟩ (3,[5,6])) fun i => {fault:=i == 0}).2 = some false := by
    decide +kernel
  have clean := failed_start_clean_iff ⟨2,4,[]⟩ 3 [5,6] Database.empty fun i => {fault:=i == 0}
  exact ⟨failed,(clean.mpr (.inr (.inl ⟨5,rfl,by simp [Registers]⟩)) failed).1⟩

-- The second of two shards is refused. Worker 3 has no server, and SelectSparkWorker
-- hands it a task.
theorem failed_start_leaves_worker :
    (drive invoke Database.empty (startServing ⟨2,4,[]⟩ (3,[5,6])) fun i => {fault:=i == 1}) =
      ({Database.empty with worker:=[⟨3,4,5,1,""⟩],dataLocation:=[⟨5,1⟩]},some false) ∧
    (invoke {Database.empty with worker:=[⟨3,4,5,1,""⟩],dataLocation:=[⟨5,1⟩]}
      ⟨.selectSparkWorker,[.int 1,.int 5]⟩ {}).2 = some (.long 3) ∧
    ¬((drive invoke Database.empty (startServing ⟨2,4,[]⟩ (3,[5,6])) fun i => {fault:=i == 1}).2 = some false →
      (drive invoke Database.empty (startServing ⟨2,4,[]⟩ (3,[5,6])) fun i => {fault:=i == 1}).1.worker = Database.empty.worker ∧
      (drive invoke Database.empty (startServing ⟨2,4,[]⟩ (3,[5,6])) fun i => {fault:=i == 1}).1.dataLocation =
        Database.empty.dataLocation) := by
  refine ⟨by decide +kernel,by decide +kernel,by decide +kernel⟩

end DbosScheduler.Spark
