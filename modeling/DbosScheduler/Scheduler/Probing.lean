import DbosScheduler.Lib.Triangular
import DbosScheduler.Scheduler.Clients
import DbosScheduler.Sql.Commits

namespace DbosScheduler.Scheduler
open Client Sql Triangular

-- Which partitions the schedulers with a growing increment look at. Probe k of a
-- pass that starts at partition s goes to (s + k (k + 1) / 2) mod n.

def Offers (db : Database) (pkey : Nat) : Prop := ∃ row, Free db pkey row

-- A probe succeeds where a worker is free and otherwise changes nothing.
def Answers (db : Database) (request : Nat → Request) : Prop :=
  ∀ pkey choice, choice.fault = false → ∃ after reply, invoke db (request pkey) choice = (after,some reply) ∧
    (Offers db pkey → getInt64 reply = success) ∧ (¬Offers db pkey → getInt64 reply ≠ success ∧ after = db)

-- A call that may be served: tables that hold what their columns can hold, and a
-- task id that is a legal INTEGER and not in use.
structure Ready (db : Database) (taskID : Int) : Prop where
  typed : Typed db
  legal : integer taskID = true
  unused : Unused db taskID

variable {db : Database} {n start : Nat} {choose : Nat → Choice} {request : Nat → Request} {rest : Nat → Program Bool}

-- Some partition on the way of a call has a worker to offer.
def Meets (db : Database) (n rand : Nat) : Prop := ∃ k < n, Offers db ((rand + triangle k) % n)

-- The outcome of a call is decided by the partitions on its way.
def Decided (n : Nat) (select : Nat → Int → Program Bool) : Prop :=
  ∀ (db : Database) (rand : Nat) (taskID : Int) (choose : Nat → Choice), Ready db taskID → (∀ i, (choose i).fault = false) →
    ((drive invoke db (select rand taskID) choose).2 = some true ↔ Meets db n rand)

end DbosScheduler.Scheduler
