import Mathlib.Data.Nat.Prime.Basic
import DbosScheduler.Lib.Machine

namespace DbosScheduler.Bench
open Machine

structure StringMsg where
  senderId : Int32
  msg : String
  deriving Repr, DecidableEq

inductive Status where
  | OK
  | INTERNAL (message : String)
  deriving Repr, DecidableEq

inductive Handler where
  | reading
  | writing (i : Int32)
  | returned (status : Status)
  | aborted
  deriving Repr, DecidableEq

-- The local variables of StreamPingPong. A message that was never set is empty.
structure IpcBenchImpl where
  pc : Handler
  numMessages : Int32
  recvdCnt : Int32
  reply : StringMsg
  deriving Repr, DecidableEq

def IpcBenchImpl.start : IpcBenchImpl := ⟨.reading,-1,0,⟨0,""⟩⟩

-- The head of for (int i = 0; i < numMessages; ++i).
def IpcBenchImpl.loop (s : IpcBenchImpl) (i : Int32) : IpcBenchImpl :=
  {s with pc:=if i < s.numMessages then .writing i else .reading}

-- The divisions that stop the process.
def traps (dividend divisor : Int32) : Bool := divisor == 0 || (dividend == Int32.minValue && divisor == -1)

def IpcBenchImpl.count (s : IpcBenchImpl) : IpcBenchImpl :=
  let s := {s with recvdCnt:=s.recvdCnt + 1}
  if traps s.recvdCnt s.numMessages then {s with pc:=.aborted} else
  if s.recvdCnt % s.numMessages = 0 then s.loop 0 else {s with pc:=.reading}

-- The body of the loop up to the first Write.
def IpcBenchImpl.receive (s : IpcBenchImpl) (request : StringMsg) : IpcBenchImpl :=
  if s.numMessages < 0 then
    IpcBenchImpl.count {s with
      numMessages:=request.senderId
      reply:=⟨request.senderId,request.msg⟩}
  else if s.numMessages = request.senderId then s.count
  else {s with pc:=.aborted}

def IpcBenchImpl.respond (s : IpcBenchImpl) (i : Int32) (ok : Bool) : IpcBenchImpl :=
  if ok then s.loop (i + 1) else {s with pc:=.returned (.INTERNAL "Server couldn't respond.")}

inductive Call where
  | read (request : Option StringMsg)
  | write (ok : Bool)
  deriving Repr, DecidableEq

inductive Served where
  | read
  | written (reply : StringMsg)
  deriving Repr, DecidableEq

-- What stream->Read and stream->Write return is the action.
def StreamPingPong : Advance IpcBenchImpl Call Served
  | s,.read request =>
    match s.pc,request with
    | .reading,some request => some (s.receive request,[.read])
    | .reading,none => some ({s with pc:=.returned .OK},[])
    | _,_ => none
  | s,.write ok =>
    match s.pc with
    | .writing i => some (s.respond i ok,if ok then [.written s.reply] else [])
    | _ => none

def reads (past : List Served) : Nat := past.count .read
def writes (past : List Served) : Nat := past.countP fun event => event != .read

-- Whether the counter meets a multiple of the batch size at the k-th request.
def boundary (batch k : Nat) : Bool := decide (Int32.ofNat k % Int32.ofNat batch = 0)

def batches (batch : Nat) : Nat → Nat
  | 0 => 0
  | k + 1 => batches batch k + if boundary batch (k + 1) then 1 else 0

theorem boundary_iff (fits : batch < 2147483648) :
    boundary batch k = true ↔ (batch : Int) ∣ (k : Int).bmod 4294967296 := by
  have divisor : (Int32.ofNat batch).toInt = batch := Int32.toInt_ofNat_of_lt fits
  have dividend : (Int32.ofNat k).toInt = (k : Int).bmod 4294967296 := Int32.toInt_ofNat'
  rw [boundary,decide_eq_true_iff,← Int32.toInt_inj,Int32.toInt_mod,divisor,dividend,Int32.toInt_zero,
    Int.dvd_iff_tmod_eq_zero]

theorem batches_succ_exact (same : batches batch k = k / batch) :
    batches batch (k + 1) = (k + 1) / batch ↔ (boundary batch (k + 1) = true ↔ batch ∣ k + 1) := by
  rw [batches,Nat.succ_div,same]
  cases boundary batch (k + 1) with
  | false =>
    by_cases divides : batch ∣ k + 1
    · simp [divides]
    · simp [divides]
  | true =>
    by_cases divides : batch ∣ k + 1
    · simp [divides]
    · simp [divides]

theorem batches_succ_le (batch k : Nat) : batches batch (k + 1) ≤ batches batch k + 1 := by
  rw [batches]
  split
  · exact Nat.le_refl _
  · exact Nat.le_succ _

theorem batches_quiet (quiet : ∀ i < n, boundary batch (k + i + 1) = false) : batches batch (k + n) = batches batch k := by
  induction n with
  | zero => rfl
  | succ n ih =>
    rw [← Nat.add_assoc,batches,ih fun i below => quiet i (Nat.lt_succ_of_lt below),quiet n (Nat.lt_succ_self n)]
    rfl

-- Below the sign bit the counter is the number of requests.
theorem batches_short (fits : batch < 2147483648) (short : k < 2147483648) : batches batch k = k / batch := by
  induction k with
  | zero => rw [Nat.zero_div,batches]
  | succ k ih =>
    rw [batches_succ_exact (ih (by omega)),boundary_iff fits,Int.bmod_eq_of_le (by omega) (by omega)]
    exact Int.natCast_dvd_natCast

-- A batch size that divides 2^32 keeps its boundaries when the counter wraps around.
theorem batches_wrap (fits : batch < 2147483648) (divides : batch ∣ 4294967296) (k : Nat) : batches batch k = k / batch := by
  induction k with
  | zero => rw [Nat.zero_div,batches]
  | succ k ih =>
    have whole : (batch : Int) ∣ ((4294967296 : Nat) : Int) := Int.natCast_dvd_natCast.mpr divides
    rw [batches_succ_exact ih,boundary_iff fits,Int.dvd_iff_emod_eq_zero,← Int.emod_emod_of_dvd _ whole,Int.bmod_emod,
      Int.emod_emod_of_dvd _ whole,← Int.dvd_iff_emod_eq_zero]
    exact Int.natCast_dvd_natCast

-- And no other one does: at 2^32 requests the counter is 0.
theorem batches_exact (fits : batch < 2147483648) : (∀ k, batches batch k = k / batch) ↔ ∃ a, batch = 2 ^ a := by
  constructor
  · intro always
    have wrapped := (batches_succ_exact (always 4294967295)).mp (always 4294967296)
    rw [boundary_iff fits] at wrapped
    have divides : batch ∣ 2 ^ 32 := wrapped.mp (Int.dvd_zero _)
    obtain ⟨a,_,same⟩ := (Nat.dvd_prime_pow Nat.prime_two).mp divides
    exact ⟨a,same⟩
  · rintro ⟨a,rfl⟩ k
    have small : a < 31 := (Nat.pow_lt_pow_iff_right (by decide)).mp fits
    exact batches_wrap fits (Nat.pow_dvd_pow 2 (by omega : a ≤ 32)) k

-- How far the replies are, at each place of the handler, when k requests have been read
-- and w replies written.
def Placed (batch k w : Nat) : Handler → Prop
  | .reading => w = batch * batches batch k
  | .writing i => ∃ n, i = Int32.ofNat n ∧ n < batch ∧ w + batch = batch * batches batch k + n
  | .returned status => status = .OK ∧ w = batch * batches batch k
  | .aborted => False

structure Serving (batch k w : Nat) (s : IpcBenchImpl) : Prop where
  counted : s.recvdCnt = Int32.ofNat k
  size : s.numMessages = if k = 0 then -1 else Int32.ofNat batch
  place : Placed batch k w s.pc

section Handler
variable {batch k w : Nat} {s : IpcBenchImpl}

theorem ofNat_succ (n : Nat) : Int32.ofNat n + 1 = Int32.ofNat (n + 1) := by
  rw [Int32.ofNat_add]
  rfl

theorem serving_start (batch : Nat) : Serving batch 0 0 .start := ⟨rfl,rfl,rfl⟩

theorem batch_positive (positive : 0 < batch) (fits : batch < 2147483648) : (0 : Int32) < Int32.ofNat batch :=
  (Int32.ofNat_lt_iff_lt (by decide) fits).mpr positive

theorem traps_positive {dividend divisor : Int32} (above : 0 < divisor) : traps dividend divisor = false := by
  have nonzero : divisor ≠ 0 := fun zero => by
    rw [zero] at above
    exact absurd above (by decide)
  have nonnegative : divisor ≠ -1 := fun negative => by
    rw [negative] at above
    exact absurd above (by decide)
  simp [traps,nonzero,nonnegative]

theorem count_eq (above : 0 < s.numMessages) : s.count = {s with
    recvdCnt:=s.recvdCnt + 1
    pc:=if (s.recvdCnt + 1) % s.numMessages = 0 then .writing 0 else .reading} := by
  unfold IpcBenchImpl.count
  simp only [traps_positive above,Bool.false_eq_true,if_false]
  by_cases here : (s.recvdCnt + 1) % s.numMessages = 0
  · simp only [here,if_true,IpcBenchImpl.loop,above]
  · simp only [here,if_false]

theorem serving_count (positive : 0 < batch) (fits : batch < 2147483648) (counted : s.recvdCnt = Int32.ofNat k)
    (size : s.numMessages = Int32.ofNat batch) (written : w = batch * batches batch k) : Serving batch (k + 1) w s.count := by
  have next : s.recvdCnt + 1 = Int32.ofNat (k + 1) := by rw [counted,ofNat_succ]
  rw [count_eq (by rw [size]; exact batch_positive positive fits),next,size]
  refine ⟨rfl,(if_neg (Nat.succ_ne_zero k)).symm,?_⟩
  by_cases here : Int32.ofNat (k + 1) % Int32.ofNat batch = 0
  · have more : batches batch (k + 1) = batches batch k + 1 := by rw [batches,boundary,decide_eq_true here,if_pos rfl]
    rw [if_pos here]
    exact ⟨0,rfl,positive,by rw [more,written,Nat.mul_succ,Nat.add_zero]⟩
  · have same : batches batch (k + 1) = batches batch k := by rw [batches,boundary,decide_eq_false here]; rfl
    rw [if_neg here]
    exact written.trans (by rw [same])

theorem serving_receive (positive : 0 < batch) (fits : batch < 2147483648) (serving : Serving batch k w s)
    (reading : s.pc = .reading) (asked : request.senderId = Int32.ofNat batch) :
    Serving batch (k + 1) w (s.receive request) := by
  obtain ⟨counted,size,place⟩ := serving
  rw [reading] at place
  unfold IpcBenchImpl.receive
  by_cases first : k = 0
  · rw [if_pos first] at size
    rw [if_pos (by rw [size]; decide)]
    exact serving_count positive fits counted asked place
  · rw [if_neg first] at size
    have above : ¬s.numMessages < 0 := by
      rw [size]
      exact Int32.not_lt.mpr (Int32.le_of_lt (batch_positive positive fits))
    rw [if_neg above,if_pos (size.trans asked.symm)]
    exact serving_count positive fits counted size place

theorem serving_respond (fits : batch < 2147483648) (serving : Serving batch k w s) (writing : s.pc = .writing i) :
    Serving batch k (w + 1) (s.respond i true) := by
  obtain ⟨counted,size,place⟩ := serving
  rw [writing] at place
  obtain ⟨n,rfl,inside,written⟩ := place
  have started : k ≠ 0 := by
    rintro rfl
    rw [batches] at written
    omega
  unfold IpcBenchImpl.respond IpcBenchImpl.loop
  rw [if_pos rfl,ofNat_succ]
  refine ⟨counted,size,?_⟩
  rw [if_neg started] at size
  dsimp only
  rw [size]
  by_cases more : n + 1 < batch
  · rw [if_pos ((Int32.ofNat_lt_iff_lt (by omega) fits).mpr more)]
    exact ⟨n + 1,rfl,more,by omega⟩
  · rw [if_neg (fun less => more ((Int32.ofNat_lt_iff_lt (by omega) fits).mp less))]
    show w + 1 = batch * batches batch k
    omega

-- Every request names the batch size, and every write succeeds.
def Regular (batch : Nat) : Call → Prop
  | .read request => ∀ sent ∈ request, sent.senderId = Int32.ofNat batch
  | .write ok => ok = true

theorem serving_step (positive : 0 < batch) (fits : batch < 2147483648) (serving : Serving batch (reads past) (writes past) s)
    (regular : Regular batch call) (stepped : StreamPingPong s call = some (next,seen)) :
    Serving batch (reads (past ++ seen)) (writes (past ++ seen)) next := by
  unfold StreamPingPong at stepped
  split at stepped
  · split at stepped
    · rename_i reading
      cases stepped
      simpa [reads,writes] using serving_receive positive fits serving reading (regular _ rfl)
    · rename_i reading
      cases stepped
      obtain ⟨counted,size,place⟩ := serving
      rw [reading] at place
      simpa [reads,writes] using ⟨counted,size,rfl,place⟩
    · cases stepped
  · split at stepped
    · rename_i i writing
      cases stepped
      cases regular
      simpa [reads,writes] using serving_respond fits serving writing
    · cases stepped

theorem serving_run (positive : 0 < batch) (fits : batch < 2147483648) (path : Runs StreamPingPong .start moves last)
    (regular : ∀ move ∈ moves, Regular batch move.action) :
    Serving batch (reads (observed moves)) (writes (observed moves)) last := by
  refine path.history (fun past s => Serving batch (reads past) (writes past) s) (fun _ call => Regular batch call) regular
    (serving_start batch) ?_
  intro past s call next seen serving met stepped
  exact serving_step positive fits serving met stepped

-- A run that has come to a Read, after k requests.
structure Ready (batch k : Nat) (moves : List (Move IpcBenchImpl Call Served)) (s : IpcBenchImpl) : Prop where
  path : Runs StreamPingPong .start moves s
  regular : ∀ move ∈ moves, Regular batch move.action
  reading : s.pc = .reading
  taken : reads (observed moves) = k

theorem regular_snoc {moves : List (Move IpcBenchImpl Call Served)} (regular : ∀ move ∈ moves, Regular batch move.action)
    (last : Regular batch call) : ∀ move ∈ moves ++ [⟨s,call,next,seen⟩], Regular batch move.action := by
  intro move member
  rcases List.mem_append.mp member with earlier | final
  · exact regular move earlier
  · rw [List.mem_singleton.mp final]
    exact last

theorem loop_pc (s : IpcBenchImpl) (i : Int32) : (s.loop i).pc = .reading ∨ (s.loop i).pc = .writing i := by
  unfold IpcBenchImpl.loop
  by_cases more : i < s.numMessages
  · exact .inr (if_pos more)
  · exact .inl (if_neg more)

theorem receive_pc (s : IpcBenchImpl) (request : StringMsg) :
    (s.receive request).pc = .reading ∨ (s.receive request).pc = .writing 0 ∨ (s.receive request).pc = .aborted := by
  have counts : ∀ s : IpcBenchImpl, s.count.pc = .reading ∨ s.count.pc = .writing 0 ∨ s.count.pc = .aborted := by
    intro s
    unfold IpcBenchImpl.count
    dsimp only
    split
    · exact .inr (.inr rfl)
    · split
      · rcases loop_pc _ 0 with reading | writing
        · exact .inl reading
        · exact .inr (.inl writing)
      · exact .inl rfl
  unfold IpcBenchImpl.receive
  split
  · exact counts _
  · split
    · exact counts _
    · exact .inr (.inr rfl)

-- A batch of replies, once begun, is written to its end.
theorem replies_complete (positive : 0 < batch) (fits : batch < 2147483648) (left : Nat)
    (path : Runs StreamPingPong .start moves s) (regular : ∀ move ∈ moves, Regular batch move.action)
    (running : s.pc = .reading ∨ ∃ i, s.pc = .writing i)
    (missing : writes (observed moves) + left = batch * batches batch (reads (observed moves))) :
    ∃ moves' s', Ready batch (reads (observed moves)) moves' s' := by
  induction left generalizing moves s with
  | zero =>
    rcases running with reading | ⟨i,writing⟩
    · exact ⟨moves,s,path,regular,reading,rfl⟩
    · have place := (serving_run positive fits path regular).place
      rw [writing] at place
      obtain ⟨n,_,inside,written⟩ := place
      omega
  | succ left ih =>
    rcases running with reading | ⟨i,writing⟩
    · exact ⟨moves,s,path,regular,reading,rfl⟩
    · have stepped : StreamPingPong s (.write true) = some (s.respond i true,[.written s.reply]) := by
        simp only [StreamPingPong,writing]
        rfl
      have counted : reads (observed (moves ++ [⟨s,.write true,s.respond i true,[.written s.reply]⟩])) =
          reads (observed moves) := by simp [reads]
      have written : writes (observed (moves ++ [⟨s,.write true,s.respond i true,[.written s.reply]⟩])) =
          writes (observed moves) + 1 := by simp [writes]
      rw [← counted]
      refine ih (.step path stepped) (regular_snoc regular rfl) ?_ ?_
      · rcases loop_pc s (i + 1) with reading | going
        · exact .inl reading
        · exact .inr ⟨i + 1,going⟩
      · rw [counted,written]
        omega

-- The stream may be of any length.
theorem ready_exists (positive : 0 < batch) (fits : batch < 2147483648) (k : Nat) : ∃ moves s, Ready batch k moves s := by
  induction k with
  | zero => exact ⟨[],.start,.nil,by simp,rfl,rfl⟩
  | succ k ih =>
    obtain ⟨moves,s,path,regular,reading,rfl⟩ := ih
    have stepped : StreamPingPong s (.read (some ⟨Int32.ofNat batch,""⟩)) =
        some (s.receive ⟨Int32.ofNat batch,""⟩,[.read]) := by simp only [StreamPingPong,reading]
    have longer := Runs.step path stepped
    have met : Regular batch (.read (some ⟨Int32.ofNat batch,""⟩)) := by
      intro sent member
      cases member
      rfl
    have all : ∀ move ∈ moves ++ [⟨s,.read (some ⟨Int32.ofNat batch,""⟩),s.receive ⟨Int32.ofNat batch,""⟩,[.read]⟩],
        Regular batch move.action := regular_snoc regular met
    have counted : reads (observed (moves ++ [⟨s,.read (some ⟨Int32.ofNat batch,""⟩),
        s.receive ⟨Int32.ofNat batch,""⟩,[.read]⟩])) = reads (observed moves) + 1 := by simp [reads]
    have place := (serving_run positive fits longer all).place
    rw [← counted]
    rcases receive_pc s ⟨Int32.ofNat batch,""⟩ with next | next | next
    · exact ⟨_,_,longer,all,next,rfl⟩
    · rw [next] at place
      obtain ⟨n,_,inside,written⟩ := place
      exact replies_complete positive fits (batch - n) longer all (.inr ⟨0,next⟩) (by omega)
    · rw [next] at place
      exact place.elim

theorem ready_writes (positive : 0 < batch) (fits : batch < 2147483648) (ready : Ready batch k moves s) :
    writes (observed moves) = batch * batches batch k := by
  have place := (serving_run positive fits ready.path ready.regular).place
  rwa [ready.reading,ready.taken] at place

-- Whenever the handler is back at its Read, it has answered every full batch.
def Answers (batch : Nat) : Prop :=
  ∀ k moves s, Ready batch k moves s → writes (observed moves) = batch * (k / batch)

theorem answers_iff (positive : 0 < batch) (fits : batch < 2147483648) : Answers batch ↔ ∃ a, batch = 2 ^ a := by
  rw [← batches_exact fits]
  constructor
  · intro answers k
    obtain ⟨moves,s,ready⟩ := ready_exists positive fits k
    have written := answers k moves s ready
    rw [ready_writes positive fits ready] at written
    exact Nat.eq_of_mul_eq_mul_left positive written
  · intro exactly k moves s ready
    rw [ready_writes positive fits ready,exactly]

-- As long as the counter has not overflowed, every batch size is answered.
theorem answers_short (positive : 0 < batch) (fits : batch < 2147483648) (short : k < 2147483648)
    (ready : Ready batch k moves s) : writes (observed moves) = batch * (k / batch) := by
  rw [ready_writes positive fits ready,batches_short fits short]

end Handler

end DbosScheduler.Bench
