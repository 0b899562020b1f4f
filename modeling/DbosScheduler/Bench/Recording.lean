import DbosScheduler.Lib.Machine

namespace DbosScheduler.Bench
open Machine

-- "We can record at most 2^26 = 67108864 latencies", in every benchmark.
def kMaxEntries : Nat := 67108864

-- The boundaries of the intervals: schedIndices and timeStampsUsec are pushed to
-- together and nowhere else.
structure Marks where
  indices : List UInt32
  timeStampsUsec : List UInt64
  paired : indices.length = timeStampsUsec.length

def Marks.first (currTime : UInt64) : Marks := ⟨[0],[currTime],rfl⟩

def Marks.push (marks : Marks) (index : UInt32) (currTime : UInt64) : Marks :=
  ⟨marks.indices ++ [index],marks.timeStampsUsec ++ [currTime],by simp [marks.paired]⟩

-- uint64_t endTime = currTime + (totalExecTimeMsec * 1000): the product is an int, and
-- it is converted to uint64_t for the sum.
def deadline (currTime : UInt64) (totalExecTimeMsec : Int32) : UInt64 :=
  currTime + (totalExecTimeMsec * 1000).toInt64.toUInt64

structure Loop (β : Type) where
  currTime : UInt64
  endTime : UInt64
  log : β
  finished : Bool

def Loop.start (currTime : UInt64) (totalExecTimeMsec : Int32) (log : β) : Loop β :=
  ⟨currTime,deadline currTime totalExecTimeMsec,log,false⟩

-- What one iteration reads: the clock, and the counters of the other threads.
structure Tick (γ : Type) where
  clock : UInt64
  counters : γ

inductive Event where
  | system
  | slept (msec : Int32)
  | recorded (currTime : UInt64)
  deriving Repr, DecidableEq

-- do { sleep; record } while (currTime < endTime), once for all benchmarks.
def recording (ahead : List Event) (measureIntervalMsec : Int32) (record : β → UInt64 → γ → β) :
    Advance (Loop β) (Tick γ) Event
  | s,tick =>
    if s.finished then none else
    some ({s with
      currTime:=tick.clock
      log:=record s.log tick.clock tick.counters
      finished:=!decide (tick.clock < s.endTime)},ahead ++ [.slept measureIntervalMsec,.recorded tick.clock])

def SyntheticScheduler.runBenchmark (measureIntervalMsec : Int32) : Advance (Loop Marks) (Tick UInt32) Event :=
  recording [] measureIntervalMsec fun marks currTime index => marks.push index currTime

-- `top` is started in the background before every interval.
def AsyncSyntheticScheduler.runBenchmark (outputCpuUsage : Bool) (measureIntervalMsec : Int32) :
    Advance (Loop Marks) (Tick UInt32) Event :=
  recording (if outputCpuUsage then [.system] else []) measureIntervalMsec
    fun marks currTime index => marks.push index currTime

def LoadGenerator.runBenchmark (measureIntervalMsec : Int32) : Advance (Loop Marks) (Tick UInt32) Event :=
  recording [] measureIntervalMsec fun marks currTime index => marks.push index currTime

-- The worker benchmark keeps what it needs for the two throughputs of an interval.
structure Throughput where
  lastTime : UInt64
  lastTasks : UInt64
  lastFinished : UInt64
  intervals : List (UInt64 × UInt64 × UInt64)

instance : Nonempty Marks := ⟨.first 0⟩
instance : Nonempty Throughput := ⟨⟨0,0,0,[]⟩⟩

def SyntheticWorker.runBenchmark (measureIntervalMsec : Int32) : Advance (Loop Throughput) (Tick (UInt64 × UInt64)) Event :=
  recording [] measureIntervalMsec fun log currTime (currTasks,currFinished) =>
    ⟨currTime,currTasks,currFinished,
      log.intervals ++ [(currTasks - log.lastTasks,currFinished - log.lastFinished,currTime - log.lastTime)]⟩

-- The clock does not go back.
def Forward (moves : List (Move (Loop β) (Tick γ) Event)) : Prop :=
  ∀ move ∈ moves, move.before.currTime ≤ move.action.clock

-- A run that has stopped took as long as it was asked to, and recorded something.
def Punctual (loop : Advance (Loop β) (Tick γ) Event) (totalExecTimeMsec : Int32) (begun : UInt64) : Prop :=
  ∀ log moves last, Runs loop (Loop.start begun totalExecTimeMsec log) moves last → Forward moves →
    last.finished = true →
    (begun.toNat : Int) + 1000 * totalExecTimeMsec.toInt ≤ last.currTime.toNat ∧ ∃ time, .recorded time ∈ observed moves

-- The product is an int and the sum a uint64_t; or else the product comes out negative
-- and the clock is so close to zero that the sum wraps around to the far future.
def Fits (totalExecTimeMsec : Int32) (begun : UInt64) : Prop :=
  (1000 * totalExecTimeMsec.toInt ≤ 2147483647 ∧
    (begun.toNat : Int) + 1000 * totalExecTimeMsec.toInt < 18446744073709551616) ∨
  (2147483648 ≤ (1000 * totalExecTimeMsec.toInt) % 4294967296 ∧
    (begun.toNat : Int) < 4294967296 - (1000 * totalExecTimeMsec.toInt) % 4294967296)

theorem product_toInt (totalExecTimeMsec : Int32) :
    (totalExecTimeMsec * 1000).toInt = (1000 * totalExecTimeMsec.toInt).bmod 4294967296 := by
  rw [Int32.toInt_mul,Int.mul_comm]
  rfl

theorem toNat_toUInt64 (wide : Int64) : (wide.toUInt64.toNat : Int) = wide.toInt % 18446744073709551616 := by
  have signed : wide.toInt = (wide.toUInt64.toNat : Int).bmod (2 ^ 64) := BitVec.toInt_eq_toNat_bmod wide.toBitVec
  have small := wide.toUInt64.toNat_lt
  rw [signed,show (18446744073709551616 : Int) = ((2 ^ 64 : Nat) : Int) from rfl,Int.bmod_emod]
  omega

theorem deadline_toNat (begun : UInt64) (totalExecTimeMsec : Int32) :
    ((deadline begun totalExecTimeMsec).toNat : Int) =
      (begun.toNat + (1000 * totalExecTimeMsec.toInt).bmod 4294967296) % 18446744073709551616 := by
  have extended := toNat_toUInt64 (totalExecTimeMsec * 1000).toInt64
  rw [Int32.toInt_toInt64,product_toInt] at extended
  rw [deadline,UInt64.toNat_add]
  omega

-- The deadline is not too early.
theorem late_iff (totalExecTimeMsec : Int32) (begun : UInt64) (asked : 0 ≤ totalExecTimeMsec.toInt) :
    (1000 * totalExecTimeMsec.toInt ≤ 0 ∨
      (begun.toNat : Int) + 1000 * totalExecTimeMsec.toInt ≤ (deadline begun totalExecTimeMsec).toNat) ↔
      Fits totalExecTimeMsec begun := by
  have start := begun.toNat_lt
  have high := totalExecTimeMsec.toInt_lt
  rw [deadline_toNat,Fits,Int.bmod_def]
  have whole : 1000 * totalExecTimeMsec.toInt ≤ 2147483647 →
      (1000 * totalExecTimeMsec.toInt) % 4294967296 = 1000 * totalExecTimeMsec.toInt := by omega
  have least : (1000 * totalExecTimeMsec.toInt) % 4294967296 ≤ 1000 * totalExecTimeMsec.toInt := by omega
  have range : 0 ≤ (1000 * totalExecTimeMsec.toInt) % 4294967296 ∧ (1000 * totalExecTimeMsec.toInt) % 4294967296 < 4294967296 := by
    omega
  simp only [Int.cast_ofNat_Int]
  generalize (1000 * totalExecTimeMsec.toInt) % 4294967296 = low32 at whole least range ⊢
  by_cases positive : low32 < (4294967296 + 1) / 2
  · rw [if_pos positive]
    omega
  · rw [if_neg positive]
    omega

section Loop
variable {ahead : List Event} {interval totalExecTimeMsec : Int32} {record : β → UInt64 → γ → β} {begun : UInt64}

-- The loop goes on while the deadline is ahead, and what it read last is not before
-- what it read first.
structure Recorded (begun : UInt64) (totalExecTimeMsec : Int32) (past : List Event) (s : Loop β) : Prop where
  endTime : s.endTime = deadline begun totalExecTimeMsec
  forward : begun ≤ s.currTime
  stopped : s.finished = true → s.endTime ≤ s.currTime ∧ ∃ time, .recorded time ∈ past

theorem recorded_of_run (path : Runs (recording ahead interval record) (Loop.start begun totalExecTimeMsec log) moves last)
    (clock : Forward moves) : Recorded begun totalExecTimeMsec (observed moves) last := by
  refine path.history (Recorded begun totalExecTimeMsec) (fun s tick => s.currTime ≤ tick.clock) clock
    ⟨rfl,UInt64.le_refl _,by simp [Loop.start]⟩ ?_
  intro past s tick next seen recorded forward stepped
  cases done : s.finished with
  | true => simp [recording,done] at stepped
  | false =>
    simp only [recording,done,Bool.false_eq_true,if_false,Option.some.injEq,Prod.mk.injEq] at stepped
    obtain ⟨rfl,rfl⟩ := stepped
    refine ⟨recorded.endTime,UInt64.le_trans recorded.forward forward,fun stopped => ?_⟩
    simp only [Bool.not_eq_true',decide_eq_false_iff_not,UInt64.not_lt] at stopped
    exact ⟨stopped,tick.clock,by simp⟩

-- One interval, after which the clock shows the deadline or has not moved.
theorem recording_stops (log : β) (tick : Tick γ) (late : ¬tick.clock < deadline begun totalExecTimeMsec) :
    ∃ moves last, Runs (recording ahead interval record) (Loop.start begun totalExecTimeMsec log) moves last ∧
      last.finished = true ∧ last.currTime = tick.clock ∧ (begun ≤ tick.clock → Forward moves) := by
  have stepped : recording ahead interval record (Loop.start begun totalExecTimeMsec log) tick =
      some (⟨tick.clock,deadline begun totalExecTimeMsec,record log tick.clock tick.counters,true⟩,
        ahead ++ [.slept interval,.recorded tick.clock]) := by
    simp [recording,Loop.start,late]
  refine ⟨_,_,.step .nil stepped,rfl,rfl,fun forward move member => ?_⟩
  rw [List.nil_append,List.mem_singleton] at member
  rw [member]
  exact forward

theorem punctual_iff [Nonempty β] [Nonempty γ] (asked : 0 ≤ totalExecTimeMsec.toInt) :
    Punctual (recording ahead interval record) totalExecTimeMsec begun ↔ Fits totalExecTimeMsec begun := by
  rw [← late_iff totalExecTimeMsec begun asked]
  constructor
  · intro punctual
    obtain ⟨log⟩ := ‹Nonempty β›
    obtain ⟨counters⟩ := ‹Nonempty γ›
    have soonest : ∀ clock : UInt64, begun ≤ clock → ¬clock < deadline begun totalExecTimeMsec →
        (begun.toNat : Int) + 1000 * totalExecTimeMsec.toInt ≤ clock.toNat := by
      intro clock forward late
      obtain ⟨moves,last,path,stopped,same,clocked⟩ := recording_stops log ⟨clock,counters⟩ late
      have waited := (punctual log moves last path (clocked forward) stopped).1
      rwa [same] at waited
    by_cases passed : begun < deadline begun totalExecTimeMsec
    · have reached := soonest _ (UInt64.le_of_lt passed) (UInt64.lt_irrefl _)
      omega
    · have reached := soonest begun (UInt64.le_refl _) passed
      omega
  · intro fits log moves last path clock stopped
    have recorded := recorded_of_run path clock
    obtain ⟨late,written⟩ := recorded.stopped stopped
    refine ⟨?_,written⟩
    rw [recorded.endTime,UInt64.le_iff_toNat_le] at late
    have forward := UInt64.le_iff_toNat_le.mp recorded.forward
    omega

end Loop

theorem benchmark_punctual_iff (totalExecTimeMsec : Int32) (asked : 0 ≤ totalExecTimeMsec.toInt)
    (measureIntervalMsec : Int32) (begun : UInt64) :
    (Punctual (SyntheticScheduler.runBenchmark measureIntervalMsec) totalExecTimeMsec begun ↔ Fits totalExecTimeMsec begun) ∧
    (∀ outputCpuUsage, Punctual (AsyncSyntheticScheduler.runBenchmark outputCpuUsage measureIntervalMsec)
      totalExecTimeMsec begun ↔ Fits totalExecTimeMsec begun) ∧
    (Punctual (LoadGenerator.runBenchmark measureIntervalMsec) totalExecTimeMsec begun ↔ Fits totalExecTimeMsec begun) ∧
    (Punctual (SyntheticWorker.runBenchmark measureIntervalMsec) totalExecTimeMsec begun ↔ Fits totalExecTimeMsec begun) :=
  ⟨punctual_iff asked,fun _ => punctual_iff asked,punctual_iff asked,punctual_iff asked⟩

-- Ten seconds, recorded every four.
theorem benchmark_punctual_iff_default : ∃ moves last,
    Runs (SyntheticScheduler.runBenchmark 4000) (Loop.start 1600000000000000 10000 (Marks.first 1600000000000000)) moves last ∧
      last.finished = true ∧ last.log.indices = [0,30,60,90] ∧ 1600000000000000 + 1000 * 10000 ≤ (last.currTime.toNat : Int) := by
  have path := run_sound (show run (SyntheticScheduler.runBenchmark 4000)
    (Loop.start 1600000000000000 10000 (Marks.first 1600000000000000))
    [⟨1600000004000000,30⟩,⟨1600000008000000,60⟩,⟨1600000012000000,90⟩] = some (_,_) from rfl)
  refine ⟨_,_,path,by decide +kernel,by decide +kernel,?_⟩
  have fits : Fits 10000 1600000000000000 := .inl (by decide)
  refine ((benchmark_punctual_iff 10000 (by decide) 4000 1600000000000000).1.mpr fits _ _ _ path ?_ (by decide +kernel)).1
  intro move member
  simp only [List.mem_cons,List.not_mem_nil,or_false] at member
  rcases member with rfl | rfl | rfl
  · decide
  · decide
  · decide

-- Thirty-six minutes, over after the first interval of two seconds.
theorem benchmark_stops_early : ∃ moves last,
    Runs (SyntheticScheduler.runBenchmark 2000) (Loop.start 1600000000000000 2160000 (Marks.first 1600000000000000)) moves last ∧
      Forward moves ∧ last.finished = true ∧ last.currTime = 1600000002000000 ∧
      ¬Punctual (SyntheticScheduler.runBenchmark 2000) 2160000 1600000000000000 := by
  obtain ⟨moves,last,path,stopped,same,clocked⟩ : ∃ moves last, Runs (SyntheticScheduler.runBenchmark 2000)
      (Loop.start 1600000000000000 2160000 (Marks.first 1600000000000000)) moves last ∧ last.finished = true ∧
        last.currTime = 1600000002000000 ∧ (1600000000000000 ≤ (1600000002000000 : UInt64) → Forward moves) :=
    recording_stops (Marks.first 1600000000000000) ⟨1600000002000000,7⟩ (by decide)
  have clock : Forward moves := clocked (by decide)
  refine ⟨moves,last,path,clock,stopped,same,fun punctual => ?_⟩
  have waited := (punctual _ _ _ path clock stopped).1
  rw [same] at waited
  exact absurd waited (by decide)

end DbosScheduler.Bench
