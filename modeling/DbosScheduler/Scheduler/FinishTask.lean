import DbosScheduler.Scheduler.LinearProbe

namespace DbosScheduler.Scheduler
open Client Machine Sql

-- A selection takes one unit from a worker, and finishTask is to give it back. What
-- it sends are two parameters for a procedure of three.

-- One client that selects and finishes, call after call. Observed are the workers
-- that it was given.
inductive Deed where
  | selectWorker (rand : Nat) (taskID : Int) (choose : Nat → Choice)
  | finishTask (taskID workerID : Int) (choose : Nat → Choice)

def given (workerID : Int) : List Int := if 0 ≤ workerID then [workerID] else []

def session (select : Nat → Int → Program Int) (finish : Int → Int → Program Bool) : Advance Database Deed Int
  | db,.selectWorker rand taskID choose =>
    match drive invoke db (select rand taskID) choose with
    | (after,some workerID) => some (after,given workerID)
    | (_,none) => none
  | db,.finishTask taskID workerID choose =>
    match drive invoke db (finish taskID workerID) choose with
    | (after,some _) => some (after,[])
    | (_,none) => none

-- No finished task is ever paid back: finishTask answers false, the table is not the
-- one before the selection, and it never becomes that again.
structure Unrestored (setup : Program Bool) (select : Nat → Int → Program Int) (finish : Int → Int → Program Bool) :
    Prop where
  refused : ∀ db rand taskID choose after workerID, Served setup db →
    drive invoke db (select rand taskID) choose = (after,some workerID) → 0 ≤ workerID →
    ∀ answers, drive invoke after (finish taskID workerID) answers = (after,some false) ∧ after.worker ≠ db.worker
  drained : ∀ db moves last, Served setup db → Runs (session select finish) db moves last →
    (last.worker = db.worker ↔ observed moves = [])

def freeCapacity (db : Database) : Int := (db.worker.map WorkerRow.capacity).sum

variable {cfg : Config} {db after : Database} {row : WorkerRow}

theorem freeCapacity_charge (roster : Roster cfg db) (member : row ∈ db.worker)
    (charged : after.worker = (db.charge row).worker) : freeCapacity after + 1 = freeCapacity db := by
  obtain ⟨left,right,cut,_,changed⟩ := setCapacity_unique roster.nodup member
  have rows : after.worker = left ++ {row with capacity:=row.capacity - 1} :: right := charged.trans (changed _)
  rw [freeCapacity,freeCapacity,rows,cut]
  simp only [List.map_append,List.map_cons,List.sum_append,List.sum_cons]
  omega

-- What a selection can end with, if the process survives it.
def Outcome (cfg : Config) (db after : Database) (workerID : Int) : Prop :=
  cfg.partitions ≠ 0 ∧ ((workerID = -1 ∧ after = db) ∨
    ∃ row ∈ db.worker, workerID = row.workerID ∧ after.worker = (db.charge row).worker)

theorem scan_outcome {request : Nat → Request} (picks : Picks db request) (roster : Roster cfg db)
    (ended : drive invoke db (randBelow rand (min cfg.partitions cfg.numWorkers) fun offset =>
      scan request (min cfg.partitions cfg.numWorkers) offset (List.range (min cfg.partitions cfg.numWorkers))) choose =
      (after,some workerID)) : Outcome cfg db after workerID := by
  unfold randBelow at ended
  split at ended
  · cases ended
  · rename_i active
    refine ⟨by omega,?_⟩
    rcases scan_cases picks roster.no_minus_one _ _ _ choose with ⟨missed,_⟩ | ⟨row,member,_,result,rows⟩
    · cases missed.symm.trans ended
      exact .inl ⟨rfl,rfl⟩
    · rw [ended] at result rows
      exact .inr ⟨row,member,Option.some.inj result,rows⟩

theorem finishing_refused (positive : cfg.partitions ≠ 0) (db : Database) (workerID : Int) (choose : Nat → Choice) :
    drive invoke db (finishing cfg workerID) choose = (db,some false) := by
  have refusal : ∀ choice, invoke db ⟨.finishWorkerTask,[.int workerID,.int (workerID.tmod cfg.partitions)]⟩ choice =
      (db,none) := fun _ => rfl
  simp [finishing,positive,drive,refusal]

-- What the client was given since `first` is what is missing now.
structure Account (cfg : Config) (first : Database) (past : List Int) (s : Database) : Prop where
  roster : Roster cfg s
  sum : freeCapacity s + past.length = freeCapacity first
  untouched : past = [] → s.worker = first.worker

theorem Account.select {first : Database} (account : Account cfg first past db) (outcome : Outcome cfg db after workerID) :
    Account cfg first (past ++ given workerID) after := by
  obtain ⟨_,⟨rfl,rfl⟩ | ⟨row,member,rfl,charged⟩⟩ := outcome
  · simpa [given] using account
  · obtain ⟨i,_,id,_⟩ := account.roster.place member
    have real : 0 ≤ row.workerID := by omega
    have less := freeCapacity_charge account.roster member charged
    have sum := account.sum
    refine ⟨?_,?_,?_⟩
    · rw [Roster,charged,charge_keys]
      exact account.roster
    · simp only [given,real,if_true,List.length_append,List.length_singleton]
      omega
    · simp [given,real]

section Session
variable {setup : Program Bool} {select : Nat → Int → Program Int}

theorem Account.step {first : Database} (account : Account cfg first past db)
    (outcomes : ∀ rand taskID choose after workerID, drive invoke db (select rand taskID) choose = (after,some workerID) →
      Outcome cfg db after workerID)
    (stepped : session select (fun _ workerID => finishing cfg workerID) db deed = some (after,seen)) :
    Account cfg first (past ++ seen) after := by
  cases deed with
  | selectWorker rand taskID choose =>
    simp only [session] at stepped
    split at stepped
    · rename_i ended
      cases stepped
      exact account.select (outcomes _ _ _ _ _ ended)
    · cases stepped
  | finishTask taskID workerID choose =>
    by_cases none : cfg.partitions = 0
    · simp [session,finishing,none,drive] at stepped
    · simp only [session,finishing_refused none] at stepped
      cases stepped
      simpa using account

theorem unrestored (rostered : ∀ db, Served setup db → Roster cfg db)
    (outcomes : ∀ db rand taskID choose after workerID, Roster cfg db →
      drive invoke db (select rand taskID) choose = (after,some workerID) → Outcome cfg db after workerID) :
    Unrestored setup select (fun _ workerID => finishing cfg workerID) := by
  constructor
  · intro db rand taskID choose after workerID reached ended chosen answers
    have roster := rostered db reached
    have outcome := outcomes _ _ _ _ _ _ roster ended
    refine ⟨finishing_refused outcome.1 after workerID answers,fun same => ?_⟩
    have start : Account cfg db [] db := ⟨roster,by simp,fun _ => rfl⟩
    have sum := (start.select outcome).sum
    simp [given,chosen,freeCapacity,same] at sum
  · intro db moves last reached path
    have account : Account cfg db (observed moves) last := by
      refine path.past (Account cfg db) ⟨rostered db reached,by simp,fun _ => rfl⟩ ?_
      intro past s deed next seen account stepped
      exact account.step (fun _ _ _ _ _ => outcomes s _ _ _ _ _ account.roster) stepped
    refine ⟨fun same => ?_,account.untouched⟩
    have sum := account.sum
    simp only [freeCapacity,same] at sum
    exact List.length_eq_zero_iff.mp (by omega)

end Session

theorem finishTask_never_restores (cfg : Config) :
    Unrestored (PartitionedFIFOScheduler.setup cfg) (fun rand _ => PartitionedFIFOScheduler.selectWorker cfg rand)
      (PartitionedFIFOScheduler.finishTask cfg) ∧
    Unrestored (PartitionedLocalFIFOScheduler.setup cfg) (PartitionedLocalFIFOScheduler.selectWorker cfg)
      (PartitionedLocalFIFOScheduler.finishTask cfg) := by
  constructor
  · exact unrestored (fun db => fifo_roster) fun db rand taskID choose after workerID roster =>
      scan_outcome (fifo_picks db) roster
  · exact unrestored (fun db => local_roster) fun db rand taskID choose after workerID roster =>
      scan_outcome (local_picks db taskID) roster

-- Eight partitions and two workers of capacity 2: a selection, and its end.
def twoIdle : Database := {Database.empty with worker:=[⟨0,2,0,0,""⟩,⟨1,2,0,1,""⟩]}

theorem finishTask_is_refused : Served (PartitionedFIFOScheduler.setup ⟨8,0,2,2⟩) twoIdle ∧
    Served (PartitionedLocalFIFOScheduler.setup ⟨8,0,2,2⟩) twoIdle ∧
    (∃ after, drive invoke twoIdle (PartitionedFIFOScheduler.selectWorker ⟨8,0,2,2⟩ 0) (fun _ => {}) = (after,some 0) ∧
      drive invoke after (PartitionedFIFOScheduler.finishTask ⟨8,0,2,2⟩ 1 0) (fun _ => {}) = (after,some false) ∧
      after.worker.map WorkerRow.capacity = [1,2]) ∧
    ∃ after, drive invoke twoIdle (PartitionedLocalFIFOScheduler.selectWorker ⟨8,0,2,2⟩ 0 1) (fun _ => {}) = (after,some 0) ∧
      drive invoke after (PartitionedLocalFIFOScheduler.finishTask ⟨8,0,2,2⟩ 1 0) (fun _ => {}) = (after,some false) ∧
      after.worker.map WorkerRow.capacity = [1,2] := by
  have fifo : solo invoke Database.empty (PartitionedFIFOScheduler.setup ⟨8,0,2,2⟩) [{},{},{}] =
      some (twoIdle,some true) := by decide +kernel
  have ordered : solo invoke Database.empty (PartitionedLocalFIFOScheduler.setup ⟨8,0,2,2⟩) [{},{},{},{}] =
      some (twoIdle,some true) := by decide +kernel
  refine ⟨⟨_,_,_,[],by simp,fifo,.nil,by simp⟩,⟨_,_,_,[],by simp,ordered,.nil,by simp⟩,?_,?_⟩
  · exact ⟨{Database.empty with worker:=[⟨0,1,0,0,""⟩,⟨1,2,0,1,""⟩]},by decide +kernel,
      finishing_refused (by decide) _ _ _,by decide⟩
  · exact ⟨{Database.empty with worker:=[⟨0,1,0,0,""⟩,⟨1,2,0,1,""⟩],task:=[⟨1,0,1,0⟩]},by decide +kernel,
      finishing_refused (by decide) _ _ _,by decide⟩

end DbosScheduler.Scheduler
