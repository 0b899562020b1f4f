import Mathlib.Data.Int.CardIntervalMod
import DbosScheduler.Scheduler.Setup

namespace DbosScheduler.Scheduler
open Client Sql Table

-- PartitionedScanTask: the two aggregation queries and the loop over the partitions.
-- The scans write nothing, and fail only where the engine or the network fails them.
def tasksIn (pkey : Int) (db : Database) : List TaskRow :=
  db.task.filter fun row => decide (0 ≤ row.workerID) && row.pkey == pkey

def assignedTasks (db : Database) : List TaskRow := db.task.filter fun row => decide (0 ≤ row.workerID)

def scanned (choice : Choice) (rows : List TaskRow) : Response :=
  if choice.fault then none else some (.long ((mostTasks choice rows).getD noWorker))

variable {db : Database} {choice : Choice}

theorem invoke_scanPartition (db : Database) (pkey : Nat) (choice : Choice) :
    invoke db (PartitionedScanTask.request pkey) choice = (db,scanned choice (tasksIn pkey db)) := by
  change Call.execute (.scanPartitionedTaskWorker pkey) choice db = _
  cases fault : choice.fault with
  | true => simp [Call.execute,scanned,fault]
  | false =>
    cases found : mostTasks choice (tasksIn pkey db) <;>
      simp_all [Call.execute,scanned,Call.run,reply,ScanPartitionedTaskWorker.run,tasksIn]

theorem invoke_scanAll (db : Database) (choice : Choice) :
    invoke db ⟨.scanTaskWorker,[]⟩ choice = (db,scanned choice (assignedTasks db)) := by
  change Call.execute .scanTaskWorker choice db = _
  cases fault : choice.fault with
  | true => simp [Call.execute,scanned,fault]
  | false =>
    cases found : mostTasks choice (assignedTasks db) <;>
      simp_all [Call.execute,scanned,Call.run,reply,ScanTaskWorker.run,assignedTasks]

-- GROUP BY forms a group for each worker id that occurs, and only for those.
theorem mostTasks_none {rows : List TaskRow} : mostTasks choice rows = none ↔ rows = [] := by
  rw [mostTasks,limitOne_none]
  constructor
  · intro nothing
    by_contra filled
    refine largest_ne_nil ?_ nothing
    simpa [List.dedup_eq_nil] using filled
  · rintro rfl
    rfl

theorem mostTasks_some {rows : List TaskRow} (found : mostTasks choice rows = some workerID) :
    (∃ row ∈ rows, row.workerID = workerID) ∧ ∀ other,
      rows.countP (fun row => row.workerID == other) ≤ rows.countP fun row => row.workerID == workerID := by
  obtain ⟨listed,most⟩ := mem_largest.mp (limitOne_mem found)
  refine ⟨List.mem_map.mp (List.mem_dedup.mp listed),fun other => ?_⟩
  by_cases occurs : ∃ row ∈ rows, row.workerID = other
  · exact Int.ofNat_le.mp (most other (List.mem_dedup.mpr (List.mem_map.mpr occurs)))
  · have none_ : rows.countP (fun row => row.workerID == other) = 0 := by
      rw [List.countP_eq_zero]
      intro row member same
      exact occurs ⟨row,member,by simpa using same⟩
    omega

-- The Task table that setup builds: task i is assigned to worker i mod W.
def tasksOf (db : Database) (workerID : Int) : Nat := db.task.countP fun row => row.workerID == workerID

section Built
variable {cfg : Config} (built : db.task = (List.range cfg.numTasks).map (scanRow cfg))

theorem countP_range (p : Nat → Prop) [DecidablePred p] (n : Nat) : (List.range n).countP p = Nat.count p n := by
  induction n with
  | zero => rfl
  | succ n ih => rw [List.range_succ,List.countP_append,ih,Nat.count_succ,List.countP_singleton]; simp

include built

-- Dealing the tasks out in turn leaves no worker more than one ahead of another.
theorem tasksOf_built (inside : j < cfg.numWorkers) :
    tasksOf db j = cfg.numTasks / cfg.numWorkers + if j < cfg.numTasks % cfg.numWorkers then 1 else 0 := by
  have staffed : 0 < cfg.numWorkers := by omega
  have dealt : tasksOf db j = (List.range cfg.numTasks).countP fun i => i ≡ j [MOD cfg.numWorkers] := by
    rw [tasksOf,built,List.countP_map]
    apply List.countP_congr
    intro i _
    simp only [scanRow,Function.comp,Nat.ModEq,Nat.mod_eq_of_lt inside,beq_iff_eq,decide_eq_true_eq]
    omega
  rw [dealt,countP_range,Nat.count_modEq_card _ staffed,Nat.mod_eq_of_lt inside]

theorem built_row (staffed : 0 < cfg.numWorkers) (member : row ∈ db.task) :
    ∃ w < cfg.numWorkers, row.workerID = (w : Int) ∧ row.pkey = (w % cfg.partitions : Nat) := by
  rw [built] at member
  obtain ⟨i,_,rfl⟩ := List.mem_map.mp member
  exact ⟨i % cfg.numWorkers,Nat.mod_lt _ staffed,rfl,rfl⟩

theorem countP_tasksIn (staffed : 0 < cfg.numWorkers) (w : Nat) :
    (tasksIn (w % cfg.partitions : Nat) db).countP (fun row => row.workerID == (w : Int)) = tasksOf db w := by
  rw [tasksIn,List.countP_filter,tasksOf]
  apply List.countP_congr
  intro row member
  obtain ⟨v,_,named,place⟩ := built_row built staffed member
  simp only [Bool.and_eq_true,beq_iff_eq,decide_eq_true_eq,named,place]
  constructor
  · intro given
    exact given.1
  · intro same
    exact ⟨same,by omega,by rw [Int.ofNat.inj same]⟩

theorem countP_assignedTasks (staffed : 0 < cfg.numWorkers) (w : Nat) :
    (assignedTasks db).countP (fun row => row.workerID == (w : Int)) = tasksOf db w := by
  rw [assignedTasks,List.countP_filter,tasksOf]
  apply List.countP_congr
  intro row member
  obtain ⟨v,_,named,_⟩ := built_row built staffed member
  simp [named]

theorem built_first (inside : p < min cfg.partitions (min cfg.numTasks cfg.numWorkers)) :
    scanRow cfg p ∈ tasksIn p db := by
  have own : p % cfg.numWorkers = p := Nat.mod_eq_of_lt (by omega)
  have here : p % cfg.partitions = p := Nat.mod_eq_of_lt (by omega)
  rw [tasksIn,List.mem_filter,built]
  refine ⟨List.mem_map.mpr ⟨p,List.mem_range.mpr (by omega),rfl⟩,?_⟩
  simp [scanRow,own,here]

end Built

structure MostTasks (cfg : Config) (db : Database) (w : Nat) : Prop where
  registered : w < cfg.numWorkers
  partition : ∀ j < cfg.numWorkers, j % cfg.partitions = w % cfg.partitions → tasksOf db j ≤ tasksOf db w
  nearly : ∀ j < cfg.numWorkers, tasksOf db j ≤ tasksOf db w + 1

theorem scanPartition_most {cfg : Config} (built : db.task = (List.range cfg.numTasks).map (scanRow cfg))
    (inside : p < min cfg.partitions (min cfg.numTasks cfg.numWorkers)) (choice : Choice) :
    ∃ w : Nat, mostTasks choice (tasksIn p db) = some (w : Int) ∧ MostTasks cfg db w := by
  have staffed : 0 < cfg.numWorkers := by omega
  cases found : mostTasks choice (tasksIn p db) with
  | none =>
    have empty := mostTasks_none.mp found
    exact absurd (built_first built inside) (by simp [empty])
  | some workerID =>
    obtain ⟨⟨row,member,rfl⟩,most⟩ := mostTasks_some found
    obtain ⟨present,local_⟩ := List.mem_filter.mp member
    obtain ⟨w,registered,named,place⟩ := built_row built staffed present
    have here : w % cfg.partitions = p := by
      simp only [Bool.and_eq_true,beq_iff_eq,place] at local_
      omega
    have best : ∀ j < cfg.numWorkers, j % cfg.partitions = w % cfg.partitions → tasksOf db j ≤ tasksOf db w := by
      intro j _ same
      rw [← countP_tasksIn built staffed j,← countP_tasksIn built staffed w,same,here,← named]
      exact most j
    refine ⟨w,by rw [named],registered,best,fun j other => ?_⟩
    -- worker p itself sits in partition p, and nobody has less than T / W tasks
    have first := best p (by omega) (by rw [here,Nat.mod_eq_of_lt (by omega)])
    rw [tasksOf_built built (show p < cfg.numWorkers by omega)] at first
    rw [tasksOf_built built other]
    split <;> omega

theorem scanAll_most {cfg : Config} (built : db.task = (List.range cfg.numTasks).map (scanRow cfg))
    (some_ : 0 < cfg.numTasks) (staffed : 0 < cfg.numWorkers) (choice : Choice) :
    ∃ w : Nat, mostTasks choice (assignedTasks db) = some (w : Int) ∧ w < cfg.numWorkers ∧
      ∀ j < cfg.numWorkers, tasksOf db j ≤ tasksOf db w := by
  cases found : mostTasks choice (assignedTasks db) with
  | none =>
    have empty := mostTasks_none.mp found
    have first : scanRow cfg 0 ∈ assignedTasks db := by
      rw [assignedTasks,List.mem_filter,built]
      exact ⟨List.mem_map.mpr ⟨0,List.mem_range.mpr some_,rfl⟩,by simp [scanRow]⟩
    exact absurd first (by simp [empty])
  | some workerID =>
    obtain ⟨⟨row,member,rfl⟩,most⟩ := mostTasks_some found
    obtain ⟨w,registered,named,_⟩ := built_row built staffed (List.mem_filter.mp member).1
    refine ⟨w,by rw [named],registered,fun j _ => ?_⟩
    rw [← countP_assignedTasks built staffed j,← countP_assignedTasks built staffed w,← named]
    exact most j

theorem scanned_healthy (healthy : scanned choice rows ≠ none) : scanned choice rows = some (.long ((mostTasks choice rows).getD noWorker)) := by
  cases fault : choice.fault with
  | true => simp [scanned,fault] at healthy
  | false => simp [scanned,fault]

theorem drive_fallback (db : Database) (choose : Nat → Choice) :
    drive invoke db PartitionedScanTask.fallback choose =
      (db,match scanned (choose 0) (assignedTasks db) with
        | none => some 0
        | some reply => some (if 0 ≤ getInt64 reply then getInt64 reply else noWorker)) ∧
    replies invoke db PartitionedScanTask.fallback choose = [scanned (choose 0) (assignedTasks db)] ∧
    requests invoke db PartitionedScanTask.fallback choose = [⟨.scanTaskWorker,[]⟩] := by
  cases answered : scanned (choose 0) (assignedTasks db) <;>
    simp [PartitionedScanTask.fallback,drive,replies,requests,invoke_scanAll,answered]

section Probe
variable (n count pkey : Nat) (counts : List Nat) (db : Database) (choose : Nat → Choice)

theorem probe_failed (fault : (choose 0).fault = true) :
    drive invoke db (PartitionedScanTask.probes n (count :: counts) pkey) choose = (db,some 0) ∧
      replies invoke db (PartitionedScanTask.probes n (count :: counts) pkey) choose = [none] := by
  simp [PartitionedScanTask.probes,drive,replies,invoke_scanPartition,scanned,fault]

theorem probe_found (calm : (choose 0).fault = false) (found : mostTasks (choose 0) (tasksIn pkey db) = some workerID)
    (real : 0 ≤ workerID) :
    drive invoke db (PartitionedScanTask.probes n (count :: counts) pkey) choose = (db,some workerID) ∧
      replies invoke db (PartitionedScanTask.probes n (count :: counts) pkey) choose = [some (.long workerID)] ∧
      requests invoke db (PartitionedScanTask.probes n (count :: counts) pkey) choose = [PartitionedScanTask.request pkey] := by
  simp [PartitionedScanTask.probes,drive,replies,requests,invoke_scanPartition,scanned,calm,found,getInt64,real]

end Probe

theorem most_task_worker (cfg : Config) (partitions : 1 ≤ cfg.partitions) (tasks : 1 ≤ cfg.numTasks)
    (workers : 1 ≤ cfg.numWorkers) (old : Database) (choices : List Choice) (prepared : Database)
    (ran : solo invoke old (PartitionedScanTask.setup cfg) choices = some (prepared,some true))
    (cleared : ∀ first ∈ choices.head?, leftover first old.task = []) (rand : Nat) (single : Bool) (choose : Nat → Choice)
    (healthy : none ∉ replies invoke prepared (PartitionedScanTask.selectMostTaskWorker cfg rand single) choose) :
    ∃ w : Nat, drive invoke prepared (PartitionedScanTask.selectMostTaskWorker cfg rand single) choose = (prepared,some (w : Int)) ∧
      MostTasks cfg prepared w ∧
      (single = false → ⟨.scanTaskWorker,[]⟩ ∈ requests invoke prepared (PartitionedScanTask.selectMostTaskWorker cfg rand single) choose) ∧
      (⟨.scanTaskWorker,[]⟩ ∈ requests invoke prepared (PartitionedScanTask.selectMostTaskWorker cfg rand single) choose →
        ∀ j < cfg.numWorkers, tasksOf prepared j ≤ tasksOf prepared w) := by
  have built : prepared.task = (List.range cfg.numTasks).map (scanRow cfg) := by
    obtain ⟨first,others,rfl,rfl⟩ := setup_scans ran
    simp [cleared first (by simp)]
  have active : min cfg.partitions (min cfg.numTasks cfg.numWorkers) ≠ 0 := by omega
  simp only [PartitionedScanTask.selectMostTaskWorker,randBelow,active,if_false] at healthy ⊢
  cases single with
  | true =>
    obtain ⟨m,count⟩ : ∃ m, min cfg.partitions (min cfg.numTasks cfg.numWorkers) = m + 1 := ⟨_,(Nat.succ_pred active).symm⟩
    have inside := Nat.mod_lt rand (Nat.pos_of_ne_zero active)
    obtain ⟨w,found,most⟩ := scanPartition_most built inside (choose 0)
    simp only [if_true,count,List.range'_succ] at healthy found ⊢
    have calm : (choose 0).fault = false := by
      by_contra fault
      have heard := (probe_failed (m + 1) 1 (rand % (m + 1)) (List.range' (1 + 1) m) prepared choose (by simpa using fault)).2
      exact healthy (by rw [heard]; simp)
    obtain ⟨ended,_,asked⟩ :=
      probe_found (m + 1) 1 (rand % (m + 1)) (List.range' (1 + 1) m) prepared choose calm found (by omega)
    refine ⟨w,ended,most,by simp,fun other => ?_⟩
    rw [asked] at other
    simp [PartitionedScanTask.request] at other
  | false =>
    obtain ⟨w,found,registered,best⟩ := scanAll_most built tasks workers (choose 0)
    obtain ⟨ended,heard,asked⟩ := drive_fallback prepared choose
    simp only [Bool.false_eq_true,if_false] at healthy ⊢
    rw [heard,List.mem_singleton] at healthy
    rw [ended,asked,scanned_healthy (Ne.symm healthy),found]
    refine ⟨w,by simp [getInt64],⟨registered,fun j inside _ => best j inside,fun j inside => ?_⟩,by simp,fun _ => best⟩
    have close := best j inside
    omega

-- Worker 0 has two of the three tasks. A local scan of partition 1 returns worker 1.
def threeTasks : Database := {Database.empty with task:=[⟨0,0,1,0⟩,⟨1,1,1,1⟩,⟨2,0,1,0⟩]}

theorem most_task_worker_local : ∃ w : Nat,
    solo invoke Database.empty (PartitionedScanTask.setup ⟨2,3,1,2⟩) (List.replicate 4 {}) = some (threeTasks,some true) ∧
    drive invoke threeTasks (PartitionedScanTask.selectMostTaskWorker ⟨2,3,1,2⟩ 5 true) (fun _ => {}) = (threeTasks,some (w : Int)) ∧
    MostTasks ⟨2,3,1,2⟩ threeTasks w ∧ w = 1 ∧ tasksOf threeTasks 0 = 2 ∧ tasksOf threeTasks 1 = 1 := by
  have ran : solo invoke Database.empty (PartitionedScanTask.setup ⟨2,3,1,2⟩) (List.replicate 4 {}) =
      some (threeTasks,some true) := by decide +kernel
  obtain ⟨w,ended,most,_⟩ := most_task_worker ⟨2,3,1,2⟩ (by decide) (by decide) (by decide) Database.empty _ _ ran
    (by simp [leftover]) 5 true (fun _ => {}) (by decide +kernel)
  have value : (drive invoke threeTasks (PartitionedScanTask.selectMostTaskWorker ⟨2,3,1,2⟩ 5 true) fun _ => {}).2 =
      some 1 := by decide +kernel
  rw [ended,Option.some.injEq] at value
  exact ⟨w,ran,ended,most,Int.ofNat.inj value,by decide,by decide⟩

end DbosScheduler.Scheduler
