import DbosScheduler.Bench.Threads

namespace DbosScheduler.Bench
open Machine Slots

-- A thread that sends calls without waiting. Answers are looked at inside the event loop
-- of the client only: while it is polled once, and while it is drained at the end.
inductive AsyncPlace where
  | start
  | body
  | polling
  | polled
  | condition
  | draining
  | storing (drains : Bool) (aryIndex : Fin kMaxEntries) (clusterRoundTripTime : Int32) (selectedWorker : Int)
  | returned
  | exited
  | failed
  deriving Repr, DecidableEq

-- `paced` is whether reqDist is one of the distributions.
structure AsyncOptions where
  paced : Bool
  maxOutstanding : Int32

-- endThresh_, and the threshold of the thread.
def AsyncOptions.half (options : AsyncOptions) : Int := options.maxOutstanding.toInt.tdiv 2

-- outCnt_ is an int64_t, which no run comes near to the end of. `inFlight` is the
-- client's: the calls whose callback has not run.
structure AsyncThread where
  pc : AsyncPlace
  outCnt_ : Int
  inFlight : Nat
  currTime : UInt64
  nextTime : UInt64
  deriving Repr, DecidableEq

def AsyncThread.first : AsyncThread := ⟨.start,0,0,0,0⟩

-- Without a distribution the client is polled when enough is outstanding, and with one
-- behind every call.
def AsyncOptions.sent (options : AsyncOptions) (outCnt_ : Int) : AsyncPlace :=
  if options.paced then .polling else
  if options.maxOutstanding.toInt ≤ outCnt_ then .polling else
  if options.half < outCnt_ then .polling else .condition

def AsyncThread.stance (t : AsyncThread) : Stance kMaxEntries :=
  match t.pc with
  | .storing _ aryIndex _ _ => .holds aryIndex
  | .exited => .lost
  | .start | .body | .polling | .polled | .condition | .draining | .returned | .failed => .idle

def AsyncThread.ended (t : AsyncThread) : Bool := t.pc = .returned

-- Where outCnt_ stands against what is in flight.
def AsyncThread.Balanced (t : AsyncThread) : Prop :=
  match t.pc with
  | .storing _ _ _ _ => t.outCnt_ = t.inFlight + 1
  | .exited | .failed => True
  | .returned => t.outCnt_ = t.inFlight ∧ t.inFlight = 0
  | .start | .body | .polling | .polled | .condition | .draining => t.outCnt_ = t.inFlight

-- What an effect of thread t does to its balance, and to the calls in flight.
def Flows (t : AsyncThread) : Step AsyncThread α → Prop
  | .move next seen => next.Balanced ∧ next.inFlight = t.inFlight + seen.count .issued
  | .claim next => ∀ number, (next number).Balanced ∧ (next number).inFlight + 1 = t.inFlight
  | .fill _ _ next => next.Balanced ∧ next.inFlight = t.inFlight

structure Proper (t : AsyncThread) (effect : Step AsyncThread α) : Prop where
  legal : effect.Legal AsyncThread.stance t
  unmarked : Unmarked effect
  flows : t.Balanced → Flows t effect

section
variable {α : Type} {options : AsyncOptions} {t : AsyncThread}

variable {recorder : Advance (Loop Marks) (Tick UInt32) Event} {s next : Benchmark AsyncThread α}

end

end DbosScheduler.Bench
