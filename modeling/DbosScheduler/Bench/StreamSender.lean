import DbosScheduler.Bench.Recording
import DbosScheduler.Bench.Stream

namespace DbosScheduler.Bench
open Machine

inductive Sender where
  | sending (i : Int32)
  | receiving (recvMsg : Int32)
  | recording
  | finishing
  | returned
  | aborted
  | exited
  deriving Repr, DecidableEq

-- The thread with its handler at the other end, and what is under way between them.
structure Streams where
  client : Sender
  received : StringMsg
  requests : List StringMsg
  writesDone : Bool
  server : IpcBenchImpl
  replies : List StringMsg

structure StreamOptions where
  numMessages : Int32
  msg_size : Nat

def StreamOptions.rpcRequest (options : StreamOptions) : StringMsg :=
  ⟨options.numMessages,String.ofList (List.replicate options.msg_size 'a')⟩

-- while ((recvMsg < numMessages) && stream->Read(&reply)), and behind it the assertion.
def StreamOptions.receiveLoop (options : StreamOptions) (recvMsg : Int32) : Sender :=
  if recvMsg < options.numMessages then .receiving recvMsg else
  if recvMsg = options.numMessages then .recording else .aborted

def StreamOptions.sendLoop (options : StreamOptions) (i : Int32) : Sender :=
  if i < options.numMessages then .sending i else options.receiveLoop 0

def Streams.start (options : StreamOptions) : Streams := ⟨options.sendLoop 0,⟨0,""⟩,[],false,.start,[]⟩

-- aryIndex comes from a counter that all threads share, mainFinished from the main one.
inductive Turn where
  | send
  | receive
  | record (aryIndex : Nat) (mainFinished : Bool)
  | finish
  | serve
  | reply (ok : Bool)
  deriving Repr, DecidableEq

inductive Traffic where
  | sent
  | received
  | served (event : Served)
  deriving Repr, DecidableEq

def Handler.gone : Handler → Bool
  | .returned _ => true
  | .aborted => true
  | _ => false

def Sender.gone : Sender → Bool
  | .aborted => true
  | .exited => true
  | _ => false

-- A Read that has nothing to return waits, unless the other end is gone.
def StreamSenderThread (options : StreamOptions) : Advance Streams Turn Traffic
  | s,.send =>
    match s.client with
    | .sending i => some ({s with
        client:=options.sendLoop (i + 1)
        requests:=s.requests ++ [options.rpcRequest]},[.sent])
    | _ => none
  | s,.receive =>
    match s.client,s.replies with
    | .receiving recvMsg,reply :: rest => some ({s with
        client:=options.receiveLoop (recvMsg + 1)
        received:=reply
        replies:=rest},[.received])
    | .receiving _,[] => if s.server.pc.gone then some ({s with client:=.aborted},[]) else none
    | _,_ => none
  | s,.record aryIndex mainFinished =>
    if s.client = .recording then
      if s.received.msg.utf8ByteSize ≠ options.msg_size then some ({s with client:=.aborted},[])
      else if kMaxEntries ≤ aryIndex then some ({s with client:=.exited},[])
      else if mainFinished then some ({s with
        client:=.finishing
        writesDone:=true},[])
      else some ({s with client:=options.sendLoop 0},[])
    else none
  | s,.finish =>
    if s.client = .finishing ∧ s.server.pc.gone then
      some ({s with client:=if s.server.pc = .returned .OK then .returned else .exited},[])
    else none
  | s,.serve =>
    match s.requests with
    | request :: rest => (StreamPingPong s.server (.read (some request))).map fun step =>
        ({s with
          server:=step.1
          requests:=rest},step.2.map .served)
    | [] =>
      if s.writesDone || s.client.gone then (StreamPingPong s.server (.read none)).map fun step =>
        ({s with server:=step.1},step.2.map .served)
      else none
  | s,.reply ok => (StreamPingPong s.server (.write ok)).map fun step =>
      ({s with
        server:=step.1
        replies:=if ok then s.replies ++ [s.server.reply] else s.replies},step.2.map .served)

def Traffic.atServer : Traffic → Option Served
  | .served event => some event
  | _ => none

def servedOf (past : List Traffic) : List Served := past.filterMap Traffic.atServer

@[simp] theorem servedOf_append (past seen : List Traffic) : servedOf (past ++ seen) = servedOf past ++ servedOf seen :=
  List.filterMap_append

@[simp] theorem servedOf_served (seen : List Served) : servedOf (seen.map .served) = seen := by
  induction seen with
  | nil => rfl
  | cons event rest ih =>
    rw [List.map_cons,servedOf,List.filterMap_cons_some (by rfl : Traffic.atServer (.served event) = some event)]
    exact congrArg (List.cons event) ih

theorem served_counts (seen : List Served) : (seen.map Traffic.served).count .sent = 0 ∧
    (seen.map Traffic.served).count .received = 0 := by
  constructor
  · exact List.count_eq_zero.mpr (by simp)
  · exact List.count_eq_zero.mpr (by simp)

-- How many requests the thread has sent and how many replies it has had, at each place
-- of a round.
def InRound (batch round sent received : Nat) : Sender → Prop
  | .sending i => ∃ n, i = Int32.ofNat n ∧ n < batch ∧ sent = batch * round + n ∧ received = batch * round
  | .receiving recvMsg => ∃ n, recvMsg = Int32.ofNat n ∧ n < batch ∧ sent = batch * (round + 1) ∧ received = batch * round + n
  | .recording | .finishing | .returned => sent = batch * round ∧ received = batch * round
  | .aborted | .exited => True

def Sender.done : Sender → Bool
  | .finishing => true
  | .returned => true
  | .aborted => true
  | .exited => true
  | _ => false

theorem gone_done {client : Sender} (finished : client.gone = true) : client.done = true := by
  cases client with
  | aborted => rfl
  | exited => rfl
  | sending => cases finished
  | receiving => cases finished
  | recording => cases finished
  | finishing => cases finished
  | returned => cases finished

structure Joint (batch : Nat) (past : List Traffic) (s : Streams) : Prop where
  serving : Serving batch (reads (servedOf past)) (writes (servedOf past)) s.server
  requests : past.count .sent = reads (servedOf past) + s.requests.length
  asked : ∀ request ∈ s.requests, request.senderId = Int32.ofNat batch
  replies : writes (servedOf past) = past.count .received + s.replies.length
  round : ∃ round, InRound batch round (past.count .sent) (past.count .received) s.client
  ended : s.writesDone = true ∨ s.server.pc.gone = true → s.client.done = true

section Rounds
variable {batch : Nat} {options : StreamOptions}

theorem receiveLoop_round (round : Nat) (fits : batch < 2147483648) (named : options.numMessages = Int32.ofNat batch) (inside : n ≤ batch) :
    ∃ next, InRound batch next (batch * (round + 1)) (batch * round + n) (options.receiveLoop (Int32.ofNat n)) := by
  unfold StreamOptions.receiveLoop
  rw [named]
  rcases Nat.lt_or_eq_of_le inside with more | rfl
  · rw [if_pos ((Int32.ofNat_lt_iff_lt (by omega) fits).mpr more)]
    exact ⟨round,n,rfl,more,rfl,rfl⟩
  · rw [if_neg (Int32.lt_irrefl),if_pos rfl]
    exact ⟨round + 1,rfl,rfl⟩

theorem sendLoop_round (round : Nat) (fits : batch < 2147483648) (named : options.numMessages = Int32.ofNat batch) (inside : n ≤ batch) :
    ∃ next, InRound batch next (batch * round + n) (batch * round) (options.sendLoop (Int32.ofNat n)) := by
  unfold StreamOptions.sendLoop
  rw [named]
  rcases Nat.lt_or_eq_of_le inside with more | rfl
  · rw [if_pos ((Int32.ofNat_lt_iff_lt (by omega) fits).mpr more)]
    exact ⟨round,n,rfl,more,rfl,rfl⟩
  · rw [if_neg (Int32.lt_irrefl)]
    exact receiveLoop_round round fits named (Nat.zero_le n)

theorem joint_start (fits : batch < 2147483648) (named : options.numMessages = Int32.ofNat batch) :
    Joint batch [] (.start options) := by
  refine ⟨serving_start batch,rfl,by simp [Streams.start],rfl,?_,by simp [Streams.start,IpcBenchImpl.start,Handler.gone]⟩
  have first := sendLoop_round 0 fits named (Nat.zero_le batch)
  rwa [Nat.mul_zero] at first

theorem handler_gone (stepped : StreamPingPong s call = some (next,seen)) (stopped : next.pc.gone = true) :
    next.pc = .aborted ∨ call = .read none ∨ call = .write false := by
  unfold StreamPingPong at stepped
  split at stepped
  · split at stepped
    · rename_i request _
      cases stepped
      rcases receive_pc s request with reading | writing | failed
      · rw [reading] at stopped
        cases stopped
      · rw [writing] at stopped
        cases stopped
      · exact .inl failed
    · exact .inr (.inl rfl)
    · cases stepped
  · rename_i ok
    cases ok with
    | false => exact .inr (.inr rfl)
    | true =>
      split at stepped
      · rename_i i _
        cases stepped
        rcases loop_pc s (i + 1) with reading | writing
        · rw [IpcBenchImpl.respond,if_pos rfl,reading] at stopped
          cases stopped
        · rw [IpcBenchImpl.respond,if_pos rfl,writing] at stopped
          cases stopped
      · cases stepped

-- What the server does is a step of its handler, and leaves the thread alone.
theorem joint_served (positive : 0 < batch) (fits : batch < 2147483648) (joint : Joint batch past s)
    (regular : Regular batch call) (stepped : StreamPingPong s.server call = some (server,seen))
    (requests : reads seen + rest.length = s.requests.length) (asked : ∀ request ∈ rest, request.senderId = Int32.ofNat batch)
    (replies : replied.length = s.replies.length + writes seen) (finished : call = .read none → s.client.done = true) :
    Joint batch (past ++ seen.map .served) {s with
      server:=server
      requests:=rest
      replies:=replied} := by
  obtain ⟨sent,received⟩ := served_counts seen
  have counted : reads (servedOf past ++ seen) = reads (servedOf past) + reads seen := List.count_append
  have written : writes (servedOf past ++ seen) = writes (servedOf past) + writes seen := List.countP_append
  obtain ⟨serving,sending,_,receiving,round,ended⟩ := joint
  have served := serving_step positive fits serving regular stepped
  refine ⟨?_,?_,asked,?_,?_,?_⟩
  · rwa [servedOf_append,servedOf_served]
  · rw [List.count_append,sent,servedOf_append,servedOf_served,counted,sending]
    dsimp only
    omega
  · rw [List.count_append,received,servedOf_append,servedOf_served,written,receiving]
    dsimp only
    omega
  · rwa [List.count_append,List.count_append,sent,received]
  · rintro (closed | stopped)
    · exact ended (.inl closed)
    · rcases handler_gone stepped stopped with failed | last | unanswered
      · have place := served.place
        rw [failed] at place
        exact place.elim
      · exact finished last
      · rw [unanswered] at regular
        cases regular

-- What the thread does itself leaves the handler alone.
theorem joint_moved (joint : Joint batch past s) (away : servedOf seen = [])
    (requests : rest.length = s.requests.length + seen.count .sent)
    (asked : ∀ request ∈ rest, request.senderId = Int32.ofNat batch)
    (replies : replied.length + seen.count .received = s.replies.length)
    (round : ∃ round, InRound batch round (past.count .sent + seen.count .sent) (past.count .received + seen.count .received) client)
    (finished : writesDone = true ∨ s.server.pc.gone = true → client.done = true) :
    Joint batch (past ++ seen) ⟨client,received,rest,writesDone,s.server,replied⟩ := by
  obtain ⟨serving,sending,_,receiving,_⟩ := joint
  refine ⟨?_,?_,asked,?_,?_,finished⟩
  · rwa [servedOf_append,away,List.append_nil]
  · rw [servedOf_append,away,List.append_nil,List.count_append,sending,requests,Nat.add_assoc]
  · rw [servedOf_append,away,List.append_nil,List.count_append,receiving,← replies]
    dsimp only
    omega
  · rwa [List.count_append,List.count_append]

theorem read_seen (stepped : StreamPingPong s (.read request) = some (next,seen)) :
    s.pc = .reading ∧ seen = request.toList.map fun _ => .read := by
  unfold StreamPingPong at stepped
  dsimp only at stepped
  split at stepped
  · rename_i reading
    cases stepped
    exact ⟨reading,rfl⟩
  · rename_i reading
    cases stepped
    exact ⟨reading,rfl⟩
  · cases stepped

theorem write_seen (stepped : StreamPingPong s (.write true) = some (next,seen)) :
    (∃ i, s.pc = .writing i) ∧ seen = [.written s.reply] := by
  unfold StreamPingPong at stepped
  dsimp only at stepped
  split at stepped
  · rename_i i writing
    cases stepped
    exact ⟨⟨i,writing⟩,rfl⟩
  · cases stepped

-- One lemma for each turn of the two sides.
theorem joint_send (fits : batch < 2147483648) (named : options.numMessages = Int32.ofNat batch) (joint : Joint batch past s)
    (stepped : StreamSenderThread options s .send = some (next,seen)) : Joint batch (past ++ seen) next := by
  obtain ⟨_,_,asked,_,⟨round,placed⟩,ended⟩ := id joint
  unfold StreamSenderThread at stepped
  dsimp only at stepped
  split at stepped
  · rename_i i here
    cases stepped
    rw [here] at placed ended
    obtain ⟨n,rfl,inside,sent,had⟩ := placed
    refine joint_moved joint rfl (by simp) ?_ rfl ?_ (fun finished => absurd (ended finished) Bool.false_ne_true)
    · intro request member
      rcases List.mem_append.mp member with earlier | last
      · exact asked request earlier
      · rw [List.mem_singleton.mp last]
        exact named
    · rw [sent,had,ofNat_succ,List.count_singleton_self,show [Traffic.sent].count .received = 0 from rfl,Nat.add_assoc]
      exact sendLoop_round round fits named inside
  · cases stepped

theorem joint_receive (fits : batch < 2147483648) (named : options.numMessages = Int32.ofNat batch) (joint : Joint batch past s)
    (stepped : StreamSenderThread options s .receive = some (next,seen)) : Joint batch (past ++ seen) next := by
  obtain ⟨_,_,asked,_,⟨round,placed⟩,ended⟩ := id joint
  unfold StreamSenderThread at stepped
  dsimp only at stepped
  split at stepped
  · rename_i recvMsg reply rest here under
    cases stepped
    rw [here] at placed ended
    obtain ⟨n,rfl,inside,sent,had⟩ := placed
    refine joint_moved joint rfl rfl asked (by rw [under]; rfl) ?_ (fun finished => absurd (ended finished) Bool.false_ne_true)
    rw [sent,had,ofNat_succ,List.count_singleton_self,show [Traffic.received].count .sent = 0 from rfl,Nat.add_assoc]
    exact receiveLoop_round round fits named inside
  · obtain ⟨_,done⟩ := Option.ite_none_right_eq_some.mp stepped
    cases done
    exact joint_moved joint rfl rfl asked rfl ⟨round,trivial⟩ fun _ => rfl
  · cases stepped

theorem joint_record (fits : batch < 2147483648) (named : options.numMessages = Int32.ofNat batch) (joint : Joint batch past s)
    (stepped : StreamSenderThread options s (.record aryIndex mainFinished) = some (next,seen)) :
    Joint batch (past ++ seen) next := by
  obtain ⟨_,_,asked,_,⟨round,placed⟩,ended⟩ := id joint
  obtain ⟨here,stepped⟩ := Option.ite_none_right_eq_some.mp stepped
  rw [here] at placed ended
  obtain ⟨sent,had⟩ := placed
  split at stepped
  · cases stepped
    exact joint_moved joint rfl rfl asked rfl ⟨round,trivial⟩ fun _ => rfl
  · split at stepped
    · cases stepped
      exact joint_moved joint rfl rfl asked rfl ⟨round,trivial⟩ fun _ => rfl
    · split at stepped
      · cases stepped
        exact joint_moved joint rfl rfl asked rfl ⟨round,sent,had⟩ fun _ => rfl
      · cases stepped
        refine joint_moved joint rfl rfl asked rfl ?_ (fun finished => absurd (ended finished) Bool.false_ne_true)
        rw [sent,had]
        exact sendLoop_round round fits named (Nat.zero_le batch)

theorem joint_finish (joint : Joint batch past s) (stepped : StreamSenderThread options s .finish = some (next,seen)) :
    Joint batch (past ++ seen) next := by
  obtain ⟨_,_,asked,_,⟨round,placed⟩,_⟩ := id joint
  obtain ⟨here,done⟩ := Option.ite_none_right_eq_some.mp stepped
  rw [here.1] at placed
  cases done
  split
  · exact joint_moved joint rfl rfl asked rfl ⟨round,placed⟩ fun _ => rfl
  · exact joint_moved joint rfl rfl asked rfl ⟨round,trivial⟩ fun _ => rfl

theorem joint_serve (positive : 0 < batch) (fits : batch < 2147483648) (joint : Joint batch past s)
    (stepped : StreamSenderThread options s .serve = some (next,seen)) : Joint batch (past ++ seen) next := by
  have asked := joint.asked
  unfold StreamSenderThread at stepped
  dsimp only at stepped
  split at stepped
  · rename_i request rest under
    obtain ⟨⟨server,did⟩,handled,same⟩ := Option.map_eq_some_iff.mp stepped
    cases same
    obtain ⟨_,rfl⟩ := read_seen handled
    rw [under] at asked
    refine joint_served positive fits joint ?_ handled ?_ (fun other member => asked other (List.mem_cons_of_mem _ member)) rfl
      (by simp)
    · intro sent member
      cases member
      exact asked request List.mem_cons_self
    · rw [under,List.length_cons]
      exact Nat.add_comm _ _
  · obtain ⟨finished,stepped⟩ := Option.ite_none_right_eq_some.mp stepped
    obtain ⟨⟨server,did⟩,handled,same⟩ := Option.map_eq_some_iff.mp stepped
    cases same
    obtain ⟨_,rfl⟩ := read_seen handled
    refine joint_served positive fits joint (by intro sent member; cases member) handled (Nat.zero_add _) asked rfl fun _ => ?_
    rcases Bool.or_eq_true_iff.mp finished with closed | gone
    · exact joint.ended (.inl closed)
    · exact gone_done gone

theorem joint_reply (positive : 0 < batch) (fits : batch < 2147483648) (joint : Joint batch past s)
    (stepped : StreamSenderThread options s (.reply true) = some (next,seen)) : Joint batch (past ++ seen) next := by
  obtain ⟨⟨server,did⟩,handled,same⟩ := Option.map_eq_some_iff.mp stepped
  cases same
  obtain ⟨_,rfl⟩ := write_seen handled
  refine joint_served positive fits joint (show Regular batch (.write true) from rfl) handled (Nat.zero_add _) joint.asked ?_
    (by simp)
  rw [if_pos rfl,List.length_append]
  rfl

theorem joint_step (positive : 0 < batch) (fits : batch < 2147483648) (named : options.numMessages = Int32.ofNat batch)
    (joint : Joint batch past s) (regular : turn ≠ .reply false)
    (stepped : StreamSenderThread options s turn = some (next,seen)) : Joint batch (past ++ seen) next := by
  cases turn with
  | send => exact joint_send fits named joint stepped
  | receive => exact joint_receive fits named joint stepped
  | record aryIndex mainFinished => exact joint_record fits named joint stepped
  | finish => exact joint_finish joint stepped
  | serve => exact joint_serve positive fits joint stepped
  | reply ok =>
    cases ok with
    | false => exact absurd rfl regular
    | true => exact joint_reply positive fits joint stepped

theorem joint_run (positive : 0 < batch) (fits : batch < 2147483648) (named : options.numMessages = Int32.ofNat batch)
    (path : Runs (StreamSenderThread options) (.start options) moves s) (regular : ∀ move ∈ moves, move.action ≠ .reply false) :
    Joint batch (observed moves) s := by
  refine path.history (Joint batch) (fun _ turn => turn ≠ .reply false) regular (joint_start fits named) ?_
  intro past s turn next seen joint met stepped
  exact joint_step positive fits named joint met stepped

-- The handler has read everything that was sent, and waits.
structure Idle (s : Streams) : Prop where
  reading : s.server.pc = .reading
  taken : s.requests = []

theorem idle_replies (joint : Joint batch past s) (idle : Idle s) (receiving : s.client = .receiving recvMsg) :
    ∃ round n, recvMsg = Int32.ofNat n ∧ n < batch ∧
      batch * round + n + s.replies.length = batch * batches batch (batch * (round + 1)) := by
  obtain ⟨⟨_,_,place⟩,sending,_,received,⟨round,placed⟩,_⟩ := joint
  rw [receiving] at placed
  obtain ⟨n,same,inside,sent,had⟩ := placed
  rw [idle.reading] at place
  rw [idle.taken,List.length_nil,Nat.add_zero,sent] at sending
  refine ⟨round,n,same,inside,?_⟩
  rw [← had,← received,sending]
  exact place

theorem serve_next (options : StreamOptions) (reading : s.server.pc = .reading) (under : s.requests = request :: rest) :
    StreamSenderThread options s .serve = some ({s with
      server:=s.server.receive request
      requests:=rest},[.served .read]) := by
  simp only [StreamSenderThread,under,StreamPingPong,reading]
  rfl

theorem reply_next (options : StreamOptions) (writing : s.server.pc = .writing i) :
    StreamSenderThread options s (.reply true) = some ({s with
      server:=s.server.respond i true
      replies:=s.replies ++ [s.server.reply]},[.served (.written s.server.reply)]) := by
  simp only [StreamSenderThread,StreamPingPong,writing]
  rfl

-- While the thread is in a round, the handler has a request to read, a reply to write,
-- or nothing to do.
theorem handler_cases (joint : Joint batch past s) (waiting : s.client.done = false) :
    Idle s ∨ (∃ request rest, s.server.pc = .reading ∧ s.requests = request :: rest) ∨ ∃ i, s.server.pc = .writing i := by
  cases pc : s.server.pc with
  | reading =>
    cases under : s.requests with
    | nil => exact .inl ⟨pc,under⟩
    | cons request rest => exact .inr (.inl ⟨request,rest,rfl,rfl⟩)
  | writing i => exact .inr (.inr ⟨i,rfl⟩)
  | returned status =>
    have done := joint.ended (.inr (by rw [pc]; rfl))
    rw [waiting] at done
    cases done
  | aborted =>
    have place := joint.serving.place
    rw [pc] at place
    exact place.elim

-- Alone, the handler reads what was sent and writes what it owes for it. The budget
-- counts one call for every request and at most one batch of replies after it.
theorem server_idles (positive : 0 < batch) (fits : batch < 2147483648) (named : options.numMessages = Int32.ofNat batch)
    (budget : Nat) (joint : Joint batch past s) (waiting : s.client.done = false)
    (work : s.requests.length * (batch + 1) + batch * batches batch (reads (servedOf past)) ≤ writes (servedOf past) + budget) :
    ∃ moves s', Runs (StreamSenderThread options) s moves s' ∧
      (∀ move ∈ moves, move.action = .serve ∨ move.action = .reply true) ∧ Idle s' ∧ s'.client = s.client := by
  have place := joint.serving.place
  induction budget generalizing past s with
  | zero =>
    rcases handler_cases joint waiting with idle | ⟨request,rest,reading,under⟩ | ⟨i,writing⟩
    · exact ⟨[],s,.nil,by simp,idle,rfl⟩
    · rw [reading] at place
      rw [under,List.length_cons,Nat.succ_mul,place] at work
      omega
    · rw [writing] at place
      obtain ⟨n,_,inside,written⟩ := place
      omega
  | succ budget ih =>
    rcases handler_cases joint waiting with idle | ⟨request,rest,reading,under⟩ | ⟨i,writing⟩
    · exact ⟨[],s,.nil,by simp,idle,rfl⟩
    · have stepped := serve_next options reading under
      have after := joint_step positive fits named joint (by simp) stepped
      have counted : reads (servedOf (past ++ [.served .read])) = reads (servedOf past) + 1 := by
        simp [reads,servedOf,Traffic.atServer]
      have written : writes (servedOf (past ++ [.served .read])) = writes (servedOf past) := by
        simp [writes,servedOf,Traffic.atServer]
      have more := batches_succ_le batch (reads (servedOf past))
      have fewer : rest.length * (batch + 1) + batch * batches batch (reads (servedOf (past ++ [.served .read]))) ≤
          writes (servedOf (past ++ [.served .read])) + budget := by
        rw [counted,written]
        rw [under,List.length_cons,Nat.succ_mul] at work
        have scaled := Nat.mul_le_mul_left batch more
        rw [Nat.mul_succ] at scaled
        omega
      obtain ⟨moves,last,path,alone,idle,same⟩ := ih after waiting fewer after.serving.place
      refine ⟨_,last,(Runs.step .nil stepped).append path,?_,idle,same⟩
      intro move member
      rcases List.mem_cons.mp member with rfl | later
      · exact .inl rfl
      · exact alone move later
    · have stepped := reply_next options writing
      have after := joint_step positive fits named joint (by simp) stepped
      have counted : reads (servedOf (past ++ [.served (.written s.server.reply)])) = reads (servedOf past) := by
        simp [reads,servedOf,Traffic.atServer]
      have written : writes (servedOf (past ++ [.served (.written s.server.reply)])) = writes (servedOf past) + 1 := by
        simp [writes,servedOf,Traffic.atServer]
      obtain ⟨moves,last,path,alone,idle,same⟩ := ih after waiting (by rw [counted,written]; dsimp only; omega) after.serving.place
      refine ⟨_,last,(Runs.step .nil stepped).append path,?_,idle,same⟩
      intro move member
      rcases List.mem_cons.mp member with rfl | later
      · exact .inr rfl
      · exact alone move later

-- The thread waits for its replies: as soon as the handler has read all it was sent, the
-- rest of the batch is there, and the handler gets to that point by itself.
def Finds (batch : Nat) (options : StreamOptions) : Prop :=
  ∀ moves s recvMsg, Runs (StreamSenderThread options) (.start options) moves s → (∀ move ∈ moves, move.action ≠ .reply false) →
    s.client = .receiving recvMsg →
    (Idle s → recvMsg.toInt + s.replies.length = batch) ∧
    ∃ others last, Runs (StreamSenderThread options) s others last ∧
      (∀ move ∈ others, move.action = .serve ∨ move.action = .reply true) ∧ Idle last ∧
      last.client = .receiving recvMsg ∧ recvMsg.toInt + last.replies.length = batch

theorem finds_of_exact (positive : 0 < batch) (fits : batch < 2147483648) (named : options.numMessages = Int32.ofNat batch)
    (exactly : ∀ k, batches batch k = k / batch) : Finds batch options := by
  have complete : ∀ moves s recvMsg, Runs (StreamSenderThread options) (.start options) moves s →
      (∀ move ∈ moves, move.action ≠ .reply false) → s.client = .receiving recvMsg → Idle s →
      recvMsg.toInt + s.replies.length = batch := by
    intro moves s recvMsg path regular receiving idle
    obtain ⟨round,n,rfl,inside,written⟩ := idle_replies (joint_run positive fits named path regular) idle receiving
    rw [exactly,Nat.mul_div_cancel_left _ positive,Nat.mul_succ] at written
    rw [Int32.toInt_ofNat_of_lt (by omega)]
    omega
  intro moves s recvMsg path regular receiving
  refine ⟨complete moves s recvMsg path regular receiving,?_⟩
  have joint := joint_run positive fits named path regular
  obtain ⟨others,last,more,alone,idle,same⟩ := server_idles positive fits named _ joint (by rw [receiving]; rfl)
    (Nat.le_add_left _ _)
  rw [receiving] at same
  refine ⟨others,last,more,alone,idle,same,complete (moves ++ others) last recvMsg (path.append more) ?_ same idle⟩
  intro move member
  rcases List.mem_append.mp member with earlier | later
  · exact regular move earlier
  · rcases alone move later with served | replied
    · rw [served]
      simp
    · rw [replied]
      simp

end Rounds

theorem stream_answered_iff (batch : Nat) (positive : 0 < batch) (fits : batch < 2147483648) :
    (Answers batch ∧ ∀ msg_size, Finds batch ⟨Int32.ofNat batch,msg_size⟩) ↔ ∃ a, batch = 2 ^ a := by
  constructor
  · rintro ⟨answers,_⟩
    exact (answers_iff positive fits).mp answers
  · intro power
    refine ⟨(answers_iff positive fits).mpr power,fun msg_size => ?_⟩
    exact finds_of_exact positive fits rfl ((batches_exact fits).mpr power)

-- Eight messages at a time.
theorem stream_answered_eight : Answers 8 ∧ Finds 8 ⟨8,2048⟩ := by
  have both := (stream_answered_iff 8 (by decide) (by decide)).mpr ⟨3,rfl⟩
  exact ⟨both.1,both.2 2048⟩

-- Thirty-five at a time: the batch in which the counter overflows, number 61356676, is
-- not answered when it is complete.
theorem stream_drifts : (∀ moves s, Ready 35 2147483660 moves s → writes (observed moves) = 2147483625) ∧
    (∃ moves s, Ready 35 2147483660 moves s) ∧ 35 * (2147483660 / 35) = 2147483660 ∧ ¬Answers 35 := by
  have quiet : batches 35 2147483660 = 61356675 := by
    have short : batches 35 2147483647 = 61356675 := batches_short (by decide) (by decide)
    rw [← short]
    exact batches_quiet (k := 2147483647) (n := 13) (by decide +kernel)
  have written : ∀ moves s, Ready 35 2147483660 moves s → writes (observed moves) = 2147483625 := by
    intro moves s ready
    rw [ready_writes (by decide) (by decide) ready,quiet]
  obtain ⟨moves,s,ready⟩ := ready_exists (show 0 < 35 by decide) (by decide) 2147483660
  refine ⟨written,⟨moves,s,ready⟩,by decide,fun answers => ?_⟩
  have claimed := answers _ _ _ ready
  rw [written _ _ ready] at claimed
  exact absurd claimed (by decide)

end DbosScheduler.Bench
