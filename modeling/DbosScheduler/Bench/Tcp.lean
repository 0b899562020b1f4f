import DbosScheduler.Bench.Recording
import DbosScheduler.Lib.Transfer

namespace DbosScheduler.Bench
open Machine Transfer

-- ints; no sum below leaves their range, because a call never moves more than it was
-- asked for.
structure TcpOptions where
  msg_size : Int
  numMessages : Int
  numReceivers : Int

-- What a blocking call returns: read and write a count, epoll_wait the descriptors with
-- something to read (none after an error or a timeout). The last one stands for the
-- shared latency index and the flag of the main thread.
inductive Return where
  | count (bytes : Int)
  | ready (fds : List Nat)
  | recorded (aryIndex : Nat) (mainFinished : Bool)
  deriving Repr, DecidableEq

-- A message that has been read to its end.
inductive Wire where
  | read (fd : Nat) (bytes : Int)
  | message (fd : Nat)
  deriving Repr, DecidableEq

def noted (size bytes result : Int) (fd : Nat) : List Wire :=
  if result < 0 then [] else
  if bytes + result < size then [.read fd result] else [.read fd result,.message fd]

namespace TCPBenchServer

inductive Receiver where
  | reading (i bytes_read : Int)
  | writing (i bytes_sent : Int)
  | spinning
  | exited
  deriving Repr, DecidableEq

-- while (true) over the two for loops. Without a message or a byte in it there is no
-- call at all.
def readLoop (options : TcpOptions) (i : Int) : Receiver :=
  if i < options.numMessages ∧ 0 < options.msg_size then .reading i 0 else
  if 0 < options.numMessages ∧ 0 < options.msg_size then .writing 0 0 else .spinning

def writeLoop (options : TcpOptions) (i : Int) : Receiver :=
  if i < options.numMessages ∧ 0 < options.msg_size then .writing i 0 else readLoop options 0

def ReceiverThread (options : TcpOptions) : Advance Receiver Return Wire
  | .reading i bytes_read,.count recvd =>
    some (transfer options.msg_size bytes_read recvd (.reading i) (readLoop options (i + 1)) .exited,
      noted options.msg_size bytes_read recvd 0)
  | .writing i bytes_sent,.count sent =>
    some (transfer options.msg_size bytes_sent sent (.writing i) (writeLoop options (i + 1)) .exited,[])
  | _,_ => none

end TCPBenchServer

namespace TCPBenchClient

inductive Sender where
  | writing (i bytes_sent : Int)
  | reading (i bytes_read : Int)
  | recording
  | returned
  | exited
  deriving Repr, DecidableEq

def readLoop (options : TcpOptions) (i : Int) : Sender :=
  if i < options.numMessages ∧ 0 < options.msg_size then .reading i 0 else .recording

def writeLoop (options : TcpOptions) (i : Int) : Sender :=
  if i < options.numMessages ∧ 0 < options.msg_size then .writing i 0 else readLoop options 0

def SenderThread (options : TcpOptions) : Advance Sender Return Wire
  | .writing i bytes_sent,.count sent =>
    some (transfer options.msg_size bytes_sent sent (.writing i) (writeLoop options (i + 1)) .exited,[])
  | .reading i bytes_read,.count recvd =>
    some (transfer options.msg_size bytes_read recvd (.reading i) (readLoop options (i + 1)) .exited,
      noted options.msg_size bytes_read recvd 0)
  | .recording,.recorded aryIndex mainFinished =>
    some (if kMaxEntries ≤ aryIndex then .exited else if mainFinished then .returned else writeLoop options 0,[])
  | _,_ => none

inductive Broadcaster where
  | writing (i total_sent : Int)
  | polling (replied : Int)
  | reading (replied : Int) (fd : Nat) (rest : List Nat) (total_read : Int)
  | recording
  | returned
  | exited
  deriving Repr, DecidableEq

def pollLoop (options : TcpOptions) (replied : Int) : Broadcaster :=
  if replied < options.numReceivers then .polling replied else .recording

def sendLoop (options : TcpOptions) (i : Int) : Broadcaster :=
  if i < options.numReceivers ∧ 0 < options.msg_size then .writing i 0 else pollLoop options 0

-- for (int i = 0; i < event_count; i++), over the events that are left.
def eventLoop (options : TcpOptions) (replied : Int) : List Nat → Broadcaster
  | [] => pollLoop options replied
  | fd :: rest => if 0 < options.msg_size then .reading replied fd rest 0 else eventLoop options (replied + 1) rest

def BroadcasterThread (options : TcpOptions) : Advance Broadcaster Return Wire
  | .writing i total_sent,.count sent =>
    some (transfer options.msg_size total_sent sent (.writing i) (sendLoop options (i + 1)) .exited,[])
  | .polling replied,.ready fds => some (eventLoop options replied fds,[])
  | .reading replied fd rest total_read,.count recvd =>
    some (transfer options.msg_size total_read recvd (.reading replied fd rest) (eventLoop options (replied + 1) rest) .exited,
      noted options.msg_size total_read recvd fd)
  | .recording,.recorded aryIndex mainFinished =>
    some (if kMaxEntries ≤ aryIndex then .exited else if mainFinished then .returned else sendLoop options 0,[])
  | _,_ => none

end TCPBenchClient

-- The thread as it goes through the calls of one loop.
def counting (thread : Advance σ Return Wire) (s : σ) (result : Int) : Option σ := (thread s (.count result)).map Prod.fst

theorem receiver_reads (options : TcpOptions) (i : Int) : Transfers (counting (TCPBenchServer.ReceiverThread options))
    options.msg_size (.reading i) (TCPBenchServer.readLoop options (i + 1)) .exited := by
  refine ⟨fun bytes result _ _ => rfl,fun bytes same => ?_,fun bytes same => by cases same⟩
  unfold TCPBenchServer.readLoop at same
  split at same
  · have here := TCPBenchServer.Receiver.reading.inj same
    omega
  · split at same
    · cases same
    · cases same

theorem sender_reads (options : TcpOptions) (i : Int) : Transfers (counting (TCPBenchClient.SenderThread options))
    options.msg_size (.reading i) (TCPBenchClient.readLoop options (i + 1)) .exited := by
  refine ⟨fun bytes result _ _ => rfl,fun bytes same => ?_,fun bytes same => by cases same⟩
  unfold TCPBenchClient.readLoop at same
  split at same
  · have here := TCPBenchClient.Sender.reading.inj same
    omega
  · cases same

theorem eventLoop_replied (options : TcpOptions) (fds : List Nat) (replied : Int)
    (here : TCPBenchClient.eventLoop options replied fds = .reading found fd rest total_read) : replied ≤ found := by
  induction fds generalizing replied with
  | nil =>
    unfold TCPBenchClient.eventLoop TCPBenchClient.pollLoop at here
    split at here
    · cases here
    · cases here
  | cons first fds ih =>
    unfold TCPBenchClient.eventLoop at here
    split at here
    · cases here
      exact Int.le_refl _
    · have later := ih (replied + 1) here
      omega

theorem broadcaster_reads (options : TcpOptions) (replied : Int) (fd : Nat) (rest : List Nat) :
    Transfers (counting (TCPBenchClient.BroadcasterThread options)) options.msg_size (.reading replied fd rest)
      (TCPBenchClient.eventLoop options (replied + 1) rest) .exited := by
  refine ⟨fun bytes result _ _ => rfl,fun bytes same => ?_,fun bytes same => by cases same⟩
  have further := eventLoop_replied options rest (replied + 1) same.symm
  omega

-- What was read from one descriptor, and how many messages that was.
def bytesFrom (fd : Nat) : List Wire → Int
  | [] => 0
  | .read other bytes :: rest => (if other = fd then bytes else 0) + bytesFrom fd rest
  | .message _ :: rest => bytesFrom fd rest

def messagesFrom (fd : Nat) (past : List Wire) : Nat := past.count (.message fd)

theorem bytesFrom_append (fd : Nat) (past seen : List Wire) : bytesFrom fd (past ++ seen) = bytesFrom fd past + bytesFrom fd seen := by
  induction past with
  | nil => exact (Int.zero_add _).symm
  | cons event past ih =>
    cases event with
    | read other bytes =>
      rw [List.cons_append,bytesFrom,bytesFrom,ih]
      omega
    | message other =>
      rw [List.cons_append,bytesFrom,bytesFrom,ih]

-- Where a thread stands in a message: the descriptor, and the bytes it has of it.
abbrev Standing := Option (Nat × Int)

def Standing.held (standing : Standing) (fd : Nat) : Int :=
  match standing with
  | some (other,bytes) => if other = fd then bytes else 0
  | none => 0

-- All that a step of a thread can mean for its messages.
inductive Reads (size : Int) (before : Standing) (action : Return) (after : Standing) : List Wire → Prop where
  | elsewhere : before.held = (fun _ => 0) → after.held = (fun _ => 0) → Reads size before action after []
  | more : before = some (fd,bytes) → action = .count result → 0 ≤ result → bytes + result < size →
      after = some (fd,bytes + result) → Reads size before action after [.read fd result]
  | last : before = some (fd,bytes) → action = .count result → 0 ≤ result → size ≤ bytes + result →
      after.held = (fun _ => 0) → Reads size before action after [.read fd result,.message fd]

-- No call returns more than it was asked for.
def Within (size : Int) (standing : Standing) (action : Return) : Prop :=
  ∀ fd bytes result, standing = some (fd,bytes) → action = .count result → result ≤ size - bytes

def Aligned (size : Int) (past : List Wire) (standing : Standing) : Prop :=
  ∀ fd, bytesFrom fd past = size * messagesFrom fd past + standing.held fd

theorem aligned_step (aligned : Aligned size past before) (reads : Reads size before action after seen)
    (within : Within size before action) : Aligned size (past ++ seen) after := by
  intro fd
  have counted : messagesFrom fd (past ++ seen) = messagesFrom fd past + messagesFrom fd seen := List.count_append
  rw [bytesFrom_append,aligned fd,counted,Int.natCast_add,Int.mul_add]
  cases reads with
  | elsewhere none_ fresh =>
    rw [none_,fresh]
    simp [bytesFrom,messagesFrom]
  | @more owner bytes result here call nonnegative short there =>
    subst here there
    by_cases mine : owner = fd
    · simp [bytesFrom,messagesFrom,Standing.held,mine]
      omega
    · simp [bytesFrom,messagesFrom,Standing.held,mine]
  | @last owner bytes result here call nonnegative full fresh =>
    have bound := within owner bytes result here call
    have exactly : bytes + result = size := by omega
    subst here
    rw [fresh]
    by_cases mine : owner = fd
    · simp [bytesFrom,messagesFrom,Standing.held,mine]
      omega
    · simp [bytesFrom,messagesFrom,Standing.held,mine]

-- A thread whose every step is of this kind, up to the exit.
structure Reader (thread : Advance σ Return Wire) (size : Int) (place : σ → Standing) (exited : σ) : Prop where
  steps : ∀ s action next seen, thread s action = some (next,seen) →
    next = exited ∨ Reads size (place s) action (place next) seen
  stops : ∀ action, thread exited action = none

-- Between two messages the bytes read are whole messages, however they came.
theorem aligned_run {thread : Advance σ Return Wire} (reader : Reader thread size place exited)
    (fresh : (place origin).held = fun _ => 0) (path : Runs thread origin moves last)
    (legal : ∀ move ∈ moves, Within size (place move.before) move.action) :
    last = exited ∨ Aligned size (observed moves) (place last) := by
  refine path.history (fun past s => s = exited ∨ Aligned size past (place s)) (fun s action => Within size (place s) action)
    legal (.inr ?_) ?_
  · intro fd
    rw [fresh]
    simp [bytesFrom,messagesFrom]
  · intro past s action next seen holds within stepped
    rcases holds with rfl | aligned
    · rw [reader.stops] at stepped
      cases stepped
    · rcases reader.steps s action next seen stepped with gone | reads
      · exact .inl gone
      · exact .inr (aligned_step aligned reads within)

-- The steps inside a receive loop and inside a send loop.
theorem transfer_reads (place : σ → Standing) {again : Int → σ} {next exited : σ} {fd : Nat}
    (inside : ∀ bytes, place (again bytes) = some (fd,bytes)) (fresh : (place next).held = fun _ => 0) (size bytes result : Int) :
    transfer size bytes result again next exited = exited ∨
      Reads size (some (fd,bytes)) (.count result) (place (transfer size bytes result again next exited))
        (noted size bytes result fd) := by
  unfold transfer noted
  by_cases negative : result < 0
  · rw [if_pos negative]
    exact .inl rfl
  · rw [if_neg negative,if_neg negative]
    by_cases short : bytes + result < size
    · rw [if_pos short,if_pos short]
      exact .inr (.more rfl rfl (by omega) short (inside _))
    · rw [if_neg short,if_neg short]
      exact .inr (.last rfl rfl (by omega) (by omega) fresh)

theorem transfer_silent (place : σ → Standing) {again : Int → σ} {next exited : σ} {standing : Standing}
    (outside : standing.held = fun _ => 0) (inside : ∀ bytes, (place (again bytes)).held = fun _ => 0)
    (fresh : (place next).held = fun _ => 0) (size bytes result : Int) (action : Return) :
    transfer size bytes result again next exited = exited ∨
      Reads size standing action (place (transfer size bytes result again next exited)) [] := by
  unfold transfer
  by_cases negative : result < 0
  · rw [if_pos negative]
    exact .inl rfl
  · rw [if_neg negative]
    by_cases short : bytes + result < size
    · rw [if_pos short]
      exact .inr (.elsewhere outside (inside _))
    · rw [if_neg short]
      exact .inr (.elsewhere outside fresh)

def TCPBenchServer.Receiver.standing : TCPBenchServer.Receiver → Standing
  | .reading _ bytes_read => some (0,bytes_read)
  | _ => none

def TCPBenchClient.Sender.standing : TCPBenchClient.Sender → Standing
  | .reading _ bytes_read => some (0,bytes_read)
  | _ => none

def TCPBenchClient.Broadcaster.standing : TCPBenchClient.Broadcaster → Standing
  | .reading _ fd _ total_read => some (fd,total_read)
  | _ => none

theorem held_zero (fd : Nat) : Standing.held (some (fd,0)) = fun _ => 0 := by
  funext other
  simp [Standing.held]

theorem receiver_fresh (options : TcpOptions) (i : Int) :
    (TCPBenchServer.readLoop options i).standing.held = (fun _ => 0) ∧
      (TCPBenchServer.writeLoop options i).standing.held = fun _ => 0 := by
  have reads : ∀ i, (TCPBenchServer.readLoop options i).standing.held = fun _ => 0 := by
    intro i
    unfold TCPBenchServer.readLoop
    split
    · exact held_zero 0
    · split
      · rfl
      · rfl
  refine ⟨reads i,?_⟩
  unfold TCPBenchServer.writeLoop
  split
  · rfl
  · exact reads 0

theorem receiver_reader (options : TcpOptions) :
    Reader (TCPBenchServer.ReceiverThread options) options.msg_size TCPBenchServer.Receiver.standing .exited := by
  refine ⟨?_,fun action => rfl⟩
  intro s action next seen stepped
  unfold TCPBenchServer.ReceiverThread at stepped
  split at stepped
  · cases stepped
    exact transfer_reads TCPBenchServer.Receiver.standing (fun _ => rfl) (receiver_fresh options _).1 _ _ _
  · cases stepped
    exact transfer_silent TCPBenchServer.Receiver.standing rfl (fun _ => rfl) (receiver_fresh options _).2 _ _ _ _
  · cases stepped

theorem sender_fresh (options : TcpOptions) (i : Int) :
    (TCPBenchClient.readLoop options i).standing.held = (fun _ => 0) ∧
      (TCPBenchClient.writeLoop options i).standing.held = fun _ => 0 := by
  have reads : ∀ i, (TCPBenchClient.readLoop options i).standing.held = fun _ => 0 := by
    intro i
    unfold TCPBenchClient.readLoop
    split
    · exact held_zero 0
    · rfl
  refine ⟨reads i,?_⟩
  unfold TCPBenchClient.writeLoop
  split
  · rfl
  · exact reads 0

theorem sender_reader (options : TcpOptions) :
    Reader (TCPBenchClient.SenderThread options) options.msg_size TCPBenchClient.Sender.standing .exited := by
  refine ⟨?_,fun action => rfl⟩
  intro s action next seen stepped
  unfold TCPBenchClient.SenderThread at stepped
  split at stepped
  · cases stepped
    exact transfer_silent TCPBenchClient.Sender.standing rfl (fun _ => rfl) (sender_fresh options _).2 _ _ _ _
  · cases stepped
    exact transfer_reads TCPBenchClient.Sender.standing (fun _ => rfl) (sender_fresh options _).1 _ _ _
  · cases stepped
    split
    · exact .inl rfl
    · refine .inr (.elsewhere rfl ?_)
      split
      · rfl
      · exact (sender_fresh options 0).2
  · cases stepped

theorem broadcaster_fresh (options : TcpOptions) (fds : List Nat) (replied : Int) :
    (TCPBenchClient.eventLoop options replied fds).standing.held = fun _ => 0 := by
  induction fds generalizing replied with
  | nil =>
    unfold TCPBenchClient.eventLoop TCPBenchClient.pollLoop
    split
    · rfl
    · rfl
  | cons fd fds ih =>
    unfold TCPBenchClient.eventLoop
    split
    · exact held_zero fd
    · exact ih (replied + 1)

theorem broadcaster_sends (options : TcpOptions) (i : Int) :
    (TCPBenchClient.sendLoop options i).standing.held = fun _ => 0 := by
  unfold TCPBenchClient.sendLoop
  split
  · rfl
  · exact broadcaster_fresh options [] 0

theorem broadcaster_reader (options : TcpOptions) :
    Reader (TCPBenchClient.BroadcasterThread options) options.msg_size TCPBenchClient.Broadcaster.standing .exited := by
  refine ⟨?_,fun action => rfl⟩
  intro s action next seen stepped
  unfold TCPBenchClient.BroadcasterThread at stepped
  split at stepped
  · cases stepped
    exact transfer_silent TCPBenchClient.Broadcaster.standing rfl (fun _ => rfl) (broadcaster_sends options _) _ _ _ _
  · cases stepped
    exact .inr (.elsewhere rfl (broadcaster_fresh options _ _))
  · cases stepped
    exact transfer_reads TCPBenchClient.Broadcaster.standing (fun _ => rfl) (broadcaster_fresh options _ _) _ _ _
  · cases stepped
    split
    · exact .inl rfl
    · refine .inr (.elsewhere rfl ?_)
      split
      · rfl
      · exact broadcaster_sends options 0
  · cases stepped

-- Every message that a thread reads starts where the last one ended.
def KeepsAligned (thread : Advance σ Return Wire) (msg_size : Int) (place : σ → Standing) (origin exited : σ) : Prop :=
  ∀ moves last, Runs thread origin moves last → (∀ move ∈ moves, Within msg_size (place move.before) move.action) →
    last = exited ∨ Aligned msg_size (observed moves) (place last)

theorem messages_aligned (options : TcpOptions) :
    KeepsAligned (TCPBenchServer.ReceiverThread options) options.msg_size TCPBenchServer.Receiver.standing
      (TCPBenchServer.readLoop options 0) .exited ∧
    KeepsAligned (TCPBenchClient.SenderThread options) options.msg_size TCPBenchClient.Sender.standing
      (TCPBenchClient.writeLoop options 0) .exited ∧
    KeepsAligned (TCPBenchClient.BroadcasterThread options) options.msg_size TCPBenchClient.Broadcaster.standing
      (TCPBenchClient.sendLoop options 0) .exited := by
  refine ⟨?_,?_,?_⟩
  · intro moves last path within
    exact aligned_run (receiver_reader options) (receiver_fresh options 0).1 path within
  · intro moves last path within
    exact aligned_run (sender_reader options) (sender_fresh options 0).2 path within
  · intro moves last path within
    exact aligned_run (broadcaster_reader options) (broadcaster_sends options 0) path within

-- The receive loop that a thread is in, with some bytes of the message read, ends exactly
-- when the stream does not end within the message.
def EndsUnlessCut (thread : Advance σ Return Wire) (msg_size : Int) (loop : Int → σ) (next exited : σ) : Prop :=
  ∀ bytes_read results, 0 ≤ bytes_read → bytes_read < msg_size → Legal (msg_size - bytes_read) results →
    ((∃ n, Over (counting thread) (loop bytes_read) (msg_size - bytes_read) results next exited n) ↔
      ¬Cut (msg_size - bytes_read) results)

theorem receive_loops_end_iff (options : TcpOptions) :
    (∀ i, EndsUnlessCut (TCPBenchServer.ReceiverThread options) options.msg_size (.reading i)
      (TCPBenchServer.readLoop options (i + 1)) .exited) ∧
    (∀ i, EndsUnlessCut (TCPBenchClient.SenderThread options) options.msg_size (.reading i)
      (TCPBenchClient.readLoop options (i + 1)) .exited) ∧
    (∀ replied fd rest, EndsUnlessCut (TCPBenchClient.BroadcasterThread options) options.msg_size (.reading replied fd rest)
      (TCPBenchClient.eventLoop options (replied + 1) rest) .exited) ∧
    KeepsAligned (TCPBenchServer.ReceiverThread options) options.msg_size TCPBenchServer.Receiver.standing
      (TCPBenchServer.readLoop options 0) .exited ∧
    KeepsAligned (TCPBenchClient.SenderThread options) options.msg_size TCPBenchClient.Sender.standing
      (TCPBenchClient.writeLoop options 0) .exited ∧
    KeepsAligned (TCPBenchClient.BroadcasterThread options) options.msg_size TCPBenchClient.Broadcaster.standing
      (TCPBenchClient.sendLoop options 0) .exited := by
  refine ⟨fun i => ?_,fun i => ?_,fun replied fd rest => ?_,messages_aligned options⟩
  · intro bytes_read results nonnegative inside legal
    exact transfers_end_iff (receiver_reads options i) nonnegative inside legal
  · intro bytes_read results nonnegative inside legal
    exact transfers_end_iff (sender_reads options i) nonnegative inside legal
  · intro bytes_read results nonnegative inside legal
    exact transfers_end_iff (broadcaster_reads options replied fd rest) nonnegative inside legal

-- Five bytes, two of them first.
def twoPieces (n : Nat) : Int := if n = 0 then 2 else 3

theorem twoPieces_moved (n : Nat) : moved twoPieces (n + 1) = 2 + 3 * n := by
  induction n with
  | zero => rfl
  | succ n ih =>
    rw [moved,ih,twoPieces,if_neg (Nat.succ_ne_zero n)]
    omega

theorem receive_loop_ends_split : Legal 5 twoPieces ∧
    ∃ n, Over (counting (TCPBenchServer.ReceiverThread ⟨5,1,1⟩)) (.reading 0 0) 5 twoPieces (.writing 0 0) .exited n := by
  have nonzero : ∀ n, twoPieces n ≠ 0 := by
    intro n
    unfold twoPieces
    split
    · decide
    · decide
  have legal : Legal 5 twoPieces := by
    intro n _ less
    refine ⟨?_,fun zero => absurd zero (nonzero n)⟩
    cases n with
    | zero => decide
    | succ n =>
      rw [twoPieces_moved] at less ⊢
      rw [twoPieces,if_neg (Nat.succ_ne_zero n)]
      omega
  refine ⟨legal,((receive_loops_end_iff ⟨5,1,1⟩).1 0 0 twoPieces (by decide) (by decide) legal).mpr ?_⟩
  rintro ⟨n,_,_,zero⟩
  exact nonzero n zero

-- The peer has closed the connection: the receiver reads nothing, for ever.
theorem receiver_misses_end : Legal 2048 (fun _ => 0) ∧
    (∀ n, stateAfter (counting (TCPBenchServer.ReceiverThread ⟨2048,1,1⟩)) (.reading 0 0) (fun _ => 0) n =
      some (.reading 0 0)) ∧
    ¬∃ n, Over (counting (TCPBenchServer.ReceiverThread ⟨2048,1,1⟩)) (.reading 0 0) 2048 (fun _ => 0) (.writing 0 0)
      .exited n := by
  have legal : Legal 2048 (fun _ => 0) := by
    intro n _ less
    refine ⟨?_,fun _ => rfl⟩
    show 0 ≤ _
    omega
  have stays : ∀ n, stateAfter (counting (TCPBenchServer.ReceiverThread ⟨2048,1,1⟩)) (.reading 0 0) (fun _ => 0) n =
      some (.reading 0 0) := by
    intro n
    induction n with
    | zero => rfl
    | succ n ih =>
      rw [stateAfter,ih]
      rfl
  refine ⟨legal,stays,?_⟩
  rintro ⟨n,⟨_,onward⟩ | ⟨_,away⟩⟩
  · rw [stays] at onward
    cases onward
  · rw [stays] at away
    cases away

end DbosScheduler.Bench
