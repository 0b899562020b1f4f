import DbosScheduler.Lib.Slots
import DbosScheduler.Bench.Latencies

namespace DbosScheduler.Bench
open Machine Slots Chunks

-- What else there is to see of a benchmark: a thread has sent a request, and the main
-- thread has pushed a boundary.
inductive Sight where
  | issued
  | marked
  deriving Repr, DecidableEq

abbrev Step (τ α : Type) := Effect τ α Sight kMaxEntries

-- auto aryIndex = schedLatsArrayIndex.fetch_add(1); past the end of the array, the
-- process exits.
def fetchAdd (inside : Fin kMaxEntries → τ) (exited : τ) : Step τ α :=
  .claim fun number => if below : number.toNat < kMaxEntries then inside ⟨number.toNat,below⟩ else exited

-- schedLatencies, schedLatsArrayIndex and the threads; and the main thread.
structure Benchmark (τ α : Type) where
  pool : Pool τ α kMaxEntries
  main : Loop Marks
  mainFinished : Bool
  joined : Bool

def Benchmark.start [Zero α] (number : Int32) (thread : τ) (currTime begun : UInt64) (totalExecTimeMsec : Int32) : Benchmark τ α :=
  ⟨⟨List.replicate number.toInt.toNat thread,0,fun _ => 0⟩,Loop.start begun totalExecTimeMsec (.first currTime),false,false⟩

section
variable {τ ι α : Type}

def Unmarked : Step τ α → Prop
  | .move _ seen => .marked ∉ seen
  | .claim _ => True
  | .fill _ _ _ => True

variable {thread : Bool → τ → ι → Option (Step τ α)} {ended : τ → Bool} {stance : τ → Stance kMaxEntries}
  {ahead : List Event} {interval : Int32} {s next : Benchmark τ α}

end

end DbosScheduler.Bench
