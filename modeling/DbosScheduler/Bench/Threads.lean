import DbosScheduler.Bench.Sampling

namespace DbosScheduler.Bench
open Machine Slots

-- A thread that waits for the answer of every call. The entry is taken before the call
-- and filled behind it; an assertion that fails in between leaves it empty.
inductive CallPlace where
  | start
  | body
  | calling (aryIndex : Fin kMaxEntries) (startTime : UInt64)
  | condition
  | returned
  | exited
  | aborted (aryIndex : Fin kMaxEntries)
  deriving Repr, DecidableEq

def CallPlace.stance : CallPlace → Stance kMaxEntries
  | .calling aryIndex _ => .holds aryIndex
  | .aborted aryIndex => .holds aryIndex
  | .exited => .lost
  | .start | .body | .condition | .returned => .idle

-- do { .. } while (!mainFinished)
def CallPlace.again (mainFinished : Bool) : CallPlace := if mainFinished then .returned else .body

def CallPlace.ended (pc : CallPlace) : Bool := pc = .returned

section
variable {α : Type} (double : UInt64 → α)

end

end DbosScheduler.Bench
