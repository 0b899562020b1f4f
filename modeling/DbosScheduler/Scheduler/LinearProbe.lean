import DbosScheduler.Lib.Triangular
import DbosScheduler.Scheduler.Setup
import DbosScheduler.Sql.Commits

namespace DbosScheduler.Scheduler
open Client Machine Sql Table Triangular

-- The rotated scan of the two schedulers that return a worker id finds a worker
-- whenever the table has one: setup puts nobody where the scan does not look.

-- What may have happened between setup and the call: transactions of other calls of
-- selectWorker, and releases of capacity, in any number and any order.
def serving : Call → Bool
  | .selectWorker _ | .selectOrderedWorker _ _ | .finishWorkerTask _ _ _ | .workerUpdateTask _ _ _ _ => true
  | _ => false

def Served (setup : Program Bool) (db : Database) : Prop :=
  ∃ old choices prepared moves, (∀ choice ∈ choices, choice.fault = false) ∧
    solo invoke old setup choices = some (prepared,some true) ∧ Runs commit prepared moves db ∧
    ∀ move ∈ moves, serving move.action.1 = true

variable {cfg : Config} {db prepared : Database}

theorem serving_roster (path : Runs commit prepared moves db) (served : ∀ move ∈ moves, serving move.action.1 = true)
    (roster : Roster cfg prepared) : Roster cfg db := by
  refine path.guarded (Roster cfg) (fun _ action => serving action.1 = true) served roster ?_
  intro s action next seen roster allowed stepped
  obtain ⟨call,choice⟩ := action
  obtain ⟨answer,ran,_⟩ := commit_some stepped
  have unregistered : call.registration = none := by
    cases call <;> first | rfl | cases allowed
  rcases (run_effect ran).worker.keys unregistered with same | ⟨rfl,_⟩
  · exact same.trans roster
  · cases allowed

theorem fifo_roster (reached : Served (PartitionedFIFOScheduler.setup cfg) db) : Roster cfg db := by
  obtain ⟨old,choices,prepared,moves,calm,ran,path,served⟩ := reached
  rw [setup_repopulates calm ran] at path
  exact serving_roster path served (populated_roster cfg old)

theorem local_roster (reached : Served (PartitionedLocalFIFOScheduler.setup cfg) db) : Roster cfg db := by
  obtain ⟨old,choices,prepared,moves,calm,ran,path,served⟩ := reached
  rw [setup_populates calm ran] at path
  exact serving_roster path served (populated_roster cfg old)

-- An invocation that does not fail either finds nobody or charges whom it names.
def Picks (db : Database) (request : Nat → Request) : Prop :=
  ∀ partitionNum choice after reply, invoke db (request partitionNum) choice = (after,some reply) →
    (getInt64 reply = -1 ∧ after = db ∧ ∀ row, ¬Free db partitionNum row) ∨
      ∃ row, Free db partitionNum row ∧ getInt64 reply = row.workerID ∧ after.worker = (db.charge row).worker

theorem fifo_picks (db : Database) : Picks db PartitionedFIFOScheduler.request := by
  intro partitionNum choice after reply served
  rcases SelectWorker.invoked served with ⟨rfl,failed | ⟨answer,nobody⟩⟩ | ⟨row,free,answer,rfl⟩
  · cases failed
  · cases answer
    exact .inl ⟨rfl,rfl,nobody⟩
  · cases answer
    exact .inr ⟨row,free,rfl,rfl⟩

theorem local_picks (db : Database) (taskID : Int) : Picks db (PartitionedLocalFIFOScheduler.request taskID) := by
  intro partitionNum choice after reply served
  rcases SelectOrderedWorker.invoked served with ⟨rfl,failed | ⟨answer,nobody⟩⟩ | ⟨row,free,_,answer,rfl⟩
  · cases failed
  · cases answer
    exact .inl ⟨rfl,rfl,nobody⟩
  · cases answer
    exact .inr ⟨row,free,rfl,rfl⟩

-- The three ways out of a scan: nobody anywhere, an invocation that failed, a worker.
theorem scan_cases {request : Nat → Request} (picks : Picks db request) (named : ∀ row ∈ db.worker, row.workerID ≠ -1)
    (n offset : Nat) (counts : List Nat) (choose : Nat → Choice) :
    (drive invoke db (scan request n offset counts) choose = (db,some (-1)) ∧
      ((∀ count ∈ counts, ∀ row, ¬Free db ((count + offset) % n : Nat) row) ∨
        none ∈ replies invoke db (scan request n offset counts) choose)) ∨
    ∃ row ∈ db.worker, 0 < row.capacity ∧
      (drive invoke db (scan request n offset counts) choose).2 = some row.workerID ∧
      (drive invoke db (scan request n offset counts) choose).1.worker = (db.charge row).worker := by
  induction counts generalizing choose with
  | nil => exact .inl ⟨rfl,.inl nofun⟩
  | cons count counts ih =>
    cases served : invoke db (request ((count + offset) % n)) (choose 0) with
    | mk after response =>
      cases response with
      | none =>
        obtain rfl := invoke_failed served
        exact .inl ⟨by simp [scan,drive,served],.inr (by simp [scan,replies,served])⟩
      | some reply =>
        rcases picks _ _ _ _ served with ⟨nothing,rfl,nobody⟩ | ⟨row,free,answer,charged⟩
        · have skipped : drive invoke after (scan request n offset (count :: counts)) choose =
              drive invoke after (scan request n offset counts) fun i => choose (i + 1) := by
            simp [scan,drive,served,nothing]
          have heard : replies invoke after (scan request n offset (count :: counts)) choose =
              some reply :: replies invoke after (scan request n offset counts) fun i => choose (i + 1) := by
            simp [scan,replies,served,nothing]
          rw [skipped,heard]
          rcases ih (fun i => choose (i + 1)) with ⟨ended,missed | failed⟩ | found
          · refine .inl ⟨ended,.inl fun other member => ?_⟩
            rcases List.mem_cons.mp member with rfl | later
            · exact nobody
            · exact missed other later
          · exact .inl ⟨ended,.inr (List.mem_cons_of_mem _ failed)⟩
          · exact .inr found
        · have taken : getInt64 reply ≠ -1 := by
            rw [answer]
            exact named row free.1
          refine .inr ⟨row,free.1,free.2.2,?_,?_⟩
          · simp [scan,drive,served,answer,named row free.1]
          · simp [scan,drive,served,taken,charged]

theorem Roster.no_minus_one (roster : Roster cfg db) : ∀ row ∈ db.worker, row.workerID ≠ -1 := by
  intro row member
  obtain ⟨i,_,id,_⟩ := roster.place member
  omega

end DbosScheduler.Scheduler
