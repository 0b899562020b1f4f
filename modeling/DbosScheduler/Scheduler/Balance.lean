import DbosScheduler.Scheduler.Placement

namespace DbosScheduler.Scheduler
open Client Machine Sql Table

-- SelectOrderedWorker takes its unit from a worker with the most capacity left, so
-- the workers of a partition empty at the same pace.
def Within (k pkey : Int) (db : Database) : Prop :=
  ∀ left ∈ db.worker, ∀ right ∈ db.worker, left.pkey = pkey → right.pkey = pkey → left.capacity ≤ right.capacity + k

def gap (pkey : Int) (db : Database) : Int :=
  spread ((db.worker.filter fun row => row.pkey == pkey).map WorkerRow.capacity)

theorem gap_le (bound : 0 ≤ k) : gap pkey db ≤ k ↔ Within k pkey db := by
  rw [gap,spread_le bound]
  simp only [List.mem_map,List.mem_filter,beq_iff_eq]
  constructor
  · intro near left first right second here there
    exact near _ ⟨left,⟨first,here⟩,rfl⟩ _ ⟨right,⟨second,there⟩,rfl⟩
  · intro near high first low second
    obtain ⟨left,⟨member,here⟩,rfl⟩ := first
    obtain ⟨right,⟨present,there⟩,rfl⟩ := second
    exact near left member right present here there

-- Uniqueness of the ids plays no part: rows that share the key of the chosen worker
-- all get the value that is written back.
theorem ordered_within (atLeast : 1 ≤ k) (even : Within k pkey db)
    (ran : SelectOrderedWorker.run choice partitionNum taskID db = some (result,after)) : Within k pkey after := by
  rcases SelectOrderedWorker.run_cases ran with ⟨_,rfl,_⟩ | ⟨row,free,most,_,_,rfl⟩
  · exact even
  · intro left first right second here there
    obtain ⟨member,place,capacity⟩ := free
    obtain ⟨above,present,rfl⟩ := mem_update.mp first
    obtain ⟨below,listed,rfl⟩ := mem_update.mp second
    by_cases leftHit : ofWorker row.pkey row.workerID above = true
    · by_cases rightHit : ofWorker row.pkey row.workerID below = true
      · simp only [leftHit,rightHit,if_true]
        omega
      · simp only [leftHit,rightHit,if_true] at here there ⊢
        have before := even row member below listed ((ofWorker_iff.mp leftHit).1.symm.trans here) there
        simp only [Bool.false_eq_true,if_false]
        omega
    · by_cases rightHit : ofWorker row.pkey row.workerID below = true
      · simp only [leftHit,rightHit,if_true] at here there ⊢
        have mine : above.pkey = partitionNum := by
          rw [← place,← (ofWorker_iff.mp rightHit).1]
          exact here.trans there.symm
        have chosen : 0 < above.capacity → above.capacity ≤ row.capacity := fun some => most above ⟨present,mine,some⟩
        simp only [Bool.false_eq_true,if_false]
        omega
      · simp only [leftHit,rightHit] at here there ⊢
        exact even above present below listed here there

theorem invoke_within (atLeast : 1 ≤ k) (even : Within k pkey db) (partitionNum taskID : Int) (choice : Choice) :
    Within k pkey (invoke db ⟨.selectOrderedWorker,[.int partitionNum,.int taskID]⟩ choice).1 := by
  cases ran : invoke db ⟨.selectOrderedWorker,[.int partitionNum,.int taskID]⟩ choice with
  | mk after response =>
    rcases invoke_cases (.selectOrderedWorker partitionNum taskID) rfl ran with ⟨_,rfl⟩ | ⟨answer,_,committed⟩
    · exact even
    · obtain ⟨result,chosen,_⟩ := reply_some committed
      exact ordered_within atLeast even chosen

def Ordered (request : Request) : Prop := ∃ partitionNum taskID, request = ⟨.selectOrderedWorker,[.int partitionNum,.int taskID]⟩

theorem local_ordered (prog : Program Bool) (calls : PartitionedLocalFIFOScheduler.Calls cfg prog) : prog.Only Ordered := by
  obtain ⟨rand,taskID,is⟩ := calls
  exact PartitionedLocalFIFOScheduler.only_schedule (fun pkey _ => ⟨pkey,taskID,rfl⟩) is

theorem setup_within (cleared : ∀ first ∈ choices.head?, leftover first old.worker = [])
    (ran : solo invoke old (PartitionedLocalFIFOScheduler.setup cfg) choices = some (prepared,some true)) (pkey : Int) :
    Within 1 pkey prepared := by
  obtain ⟨first,second,others,rfl,rfl⟩ := setup_adds ran
  intro left member right present _ _
  simp only [cleared first (by simp),List.nil_append] at member present
  obtain ⟨i,_,rfl⟩ := List.mem_map.mp member
  obtain ⟨j,_,rfl⟩ := List.mem_map.mp present
  change cfg.workerCapacity ≤ cfg.workerCapacity + 1
  omega

-- The truncation of setup has to have cleared the table: nothing is said about the
-- capacities of an earlier run.
theorem ordered_worker_balanced :
    (∀ db pkey taskID choice,
      gap pkey (invoke db ⟨.selectOrderedWorker,[.int pkey,.int taskID]⟩ choice).1 ≤ max (gap pkey db) 1) ∧
    ∀ cfg old choices prepared moves last,
      solo invoke old (PartitionedLocalFIFOScheduler.setup cfg) choices = some (prepared,some true) →
      (∀ first ∈ choices.head?, leftover first old.worker = []) → Runs (pooled invoke) (prepared,[]) moves last →
      (∀ move ∈ moves, move.action.Admits (PartitionedLocalFIFOScheduler.Calls cfg)) →
      ∀ left ∈ last.1.worker, ∀ right ∈ last.1.worker, left.pkey = right.pkey → left.capacity ≤ right.capacity + 1 := by
  constructor
  · intro db pkey taskID choice
    have even : Within (max (gap pkey db) 1) pkey db := (gap_le (by omega)).mp (by omega)
    exact (gap_le (by omega)).mpr (invoke_within (by omega) even pkey taskID choice)
  · intro cfg old choices prepared moves last ran cleared path admitted left member right present same
    have even : ∀ pkey, Within 1 pkey last.1 := by
      refine pooled_invariant (fun db => ∀ pkey, Within 1 pkey db) local_ordered ?_ (setup_within cleared ran) path admitted
      intro db request choice ordered even pkey
      obtain ⟨partitionNum,taskID,rfl⟩ := ordered
      exact invoke_within (by omega) (even pkey) partitionNum taskID choice
    exact even right.pkey left member right present same rfl

def leftBehind : Database := {Database.empty with worker:=[⟨0,9,0,0,""⟩]}

theorem ordered_worker_balanced_once : ∃ moves, ∃ last : Database × List (Program Bool),
    Runs (pooled invoke) (populated ⟨1,0,2,2⟩ leftBehind,[]) moves last ∧ last.1.worker.map WorkerRow.capacity = [2,1] ∧
    ∀ left ∈ last.1.worker, ∀ right ∈ last.1.worker, left.pkey = right.pkey → left.capacity ≤ right.capacity + 1 := by
  have ran : solo invoke leftBehind (PartitionedLocalFIFOScheduler.setup ⟨1,0,2,2⟩) (List.replicate 4 {}) =
      some (populated ⟨1,0,2,2⟩ leftBehind,some true) := by decide +kernel
  have path := run_sound (show run (pooled invoke) (populated ⟨1,0,2,2⟩ leftBehind,[])
    [.start (PartitionedLocalFIFOScheduler.asyncSchedule ⟨1,0,2,2⟩ 0 7),.serve 0 {worker:=1}] = some (_,_) from rfl)
  refine ⟨_,_,path,by decide +kernel,?_⟩
  refine ordered_worker_balanced.2 ⟨1,0,2,2⟩ leftBehind _ _ _ _ ran (by simp [leftover]) path ?_
  intro move member
  simp only [List.mem_cons,List.not_mem_nil,or_false] at member
  rcases member with rfl | rfl
  · exact ⟨0,7,.inr rfl⟩
  · trivial

end DbosScheduler.Scheduler
