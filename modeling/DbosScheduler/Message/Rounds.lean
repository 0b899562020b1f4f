import Mathlib.Tactic.Linarith
import DbosScheduler.Message.PingPong

namespace DbosScheduler.Message
open Machine Sql

variable {cfg : Bench} {s next : State} {who other : Party} {t t' : Thread} {rows rows' : List MessageRow}
  {past seen : List Event}

-- What one step does to the thread that takes it and to the Message table.
inductive Turn (cfg : Bench) (rows : List MessageRow) (who : Party) (t : Thread) :
    Thread → List MessageRow → List Event → Prop where
  | send {i : Nat} {row : MessageRow} : t.pc = .sending i → i < cfg.numMessages → row.receiverID = t.peer →
      row.senderID = who.threadId →
      Turn cfg rows who t {t with pc:=.sending (i + 1),flying:=t.flying ++ [row]} rows [.issued who row]
  | commit {position : Nat} {row : MessageRow} : t.flying[position]? = some row →
      Turn cfg rows who t {t with flying:=t.flying.eraseIdx position,acks:=t.acks + 1} (rows ++ [row])
        [.committed who row]
  | callback : t.acks ≠ 0 → t.count ≠ 1 → Turn cfg rows who t {t with acks:=t.acks - 1,count:=t.count - 1} rows []
  | wrapped : t.acks ≠ 0 → t.count = 1 → t.pc ≠ .sending cfg.numMessages →
      Turn cfg rows who t {t with acks:=t.acks - 1,count:=cfg.numMessages} rows []
  | returned : t.acks ≠ 0 → t.count = 1 → t.pc = .sending cfg.numMessages →
      Turn cfg rows who t ({t with acks:=t.acks - 1,count:=cfg.numMessages}.sent who) rows [.returned who]
  | recv {contents : List Content} : t.pc = .receiving → contents.Perm (waiting who.threadId rows) →
      Turn cfg rows who t {t with recvd:=t.recvd + contents.length,peer:=t.senderId who contents}
        (rows.filter fun row => !(row.receiverID == who.threadId)) [.received who contents]
  | leave : t.pc = .receiving → cfg.numMessages ≤ t.recvd → Turn cfg rows who t (t.drained who) rows [.exited who t.recvd]
  | arrive : t.pc = .connecting → Turn cfg rows who t {t with pc:=.waiting} rows []
  | cross : t.pc = .waiting → Turn cfg rows who t (t.crossed who) rows []
  | again {i : Nat} : who = .client i → t.pc = .measured → Turn cfg rows who t {t with recvd:=0,pc:=.sending 0} rows []
  | ended : t.pc = .measured → Turn cfg rows who t {t with pc:=.ended} rows []

-- A step changes one thread, or none and then nothing else that matters either.
def Moved (cfg : Bench) (s next : State) (seen : List Event) : Prop :=
  (next.threads = s.threads ∧ next.db.message = s.db.message ∧ seen = []) ∨
  ∃ who t, (who.index < cfg.pairs ∨ (s.threads who).flying ≠ []) ∧
    Turn cfg s.db.message who (s.threads who) t next.db.message seen ∧
    ∀ other, next.threads other = if other = who then t else s.threads other

theorem receive_contents (ran : invoke s.db (ReceiveMessage.request receiverID) choice = (db,some (.messages contents))) :
    contents.Perm (waiting receiverID s.db.message) ∧
      db.message = s.db.message.filter fun row => !(row.receiverID == receiverID) := by
  rcases invoke_cases (.receiveMessage receiverID) rfl ran with ⟨missing,_⟩ | ⟨answer,given,committed⟩
  · cases missing
  · cases given
    obtain ⟨value,chosen,same⟩ := reply_some committed
    cases same
    obtain ⟨picked,all,rfl,rfl⟩ := ReceiveMessage.run_some chosen
    exact ⟨all.map content,rfl⟩

theorem send_row (ran : invoke s.db (SendMessage.request row) choice = (db,some answer)) :
    db.message = s.db.message ++ [row] := by
  rcases invoke_cases (.sendMessage row.receiverID row.senderID row.messageID row.data) rfl ran with
    ⟨missing,_⟩ | ⟨_,_,committed⟩
  · cases missing
  · obtain ⟨_,chosen,_⟩ := reply_some committed
    obtain ⟨middle,added,ended⟩ := Option.bind_eq_some_iff.mp chosen
    cases ended
    rw [insertMessage_some added]

theorem moves_turn (alive : action.who.all (s.alive cfg) = true) (stepped : s.moves cfg action = some (next,seen)) :
    Moved cfg s next seen := by
  have active : ∀ who, action.who = some who → who.index < cfg.pairs := by
    intro who named
    rw [named] at alive
    simp only [Option.all_some,State.alive,Bool.and_eq_true,decide_eq_true_eq] at alive
    exact alive.1
  cases action with
  | commit => cases stepped
  | finish => cases stepped
  | send who time =>
    simp only [State.moves] at stepped
    split at stepped
    · rename_i i here
      split at stepped
      · cases stepped
        exact .inr ⟨who,_,.inl (active who rfl),.send here ‹_› rfl rfl,fun _ => rfl⟩
      · cases stepped
    · cases stepped
  | callback who =>
    simp only [State.moves] at stepped
    split at stepped
    · cases stepped
    · rename_i answered
      by_cases last : (s.threads who).count = 1
      · by_cases here : (s.threads who).pc = .sending cfg.numMessages
        · simp only [SendCallback.callback,last,here,beq_self_eq_true,Bool.and_true,Int.sub_self,if_true] at stepped
          cases stepped
          exact .inr ⟨who,_,.inl (active who rfl),.returned answered last here,fun _ => rfl⟩
        · simp only [SendCallback.callback,last,beq_eq_false_iff_ne.mpr here,Bool.and_false,Int.sub_self,if_true] at stepped
          cases stepped
          exact .inr ⟨who,_,.inl (active who rfl),.wrapped answered last here,fun _ => rfl⟩
      · have more : ¬(s.threads who).count - 1 = 0 := by omega
        simp only [SendCallback.callback,more,if_false,Bool.false_and] at stepped
        cases stepped
        exact .inr ⟨who,_,.inl (active who rfl),.callback answered last,fun _ => rfl⟩
  | recv who choice =>
    simp only [State.moves] at stepped
    split at stepped
    · rename_i here
      split at stepped
      · rename_i db contents ran
        cases stepped
        obtain ⟨all,left⟩ := receive_contents ran
        refine .inr ⟨who,_,.inl (active who rfl),?_,fun _ => rfl⟩
        simp only [State.put,left]
        exact .recv here.1 all
      · cases stepped
    · cases stepped
  | leave who =>
    simp only [State.moves] at stepped
    split at stepped
    · rename_i here
      cases stepped
      exact .inr ⟨who,_,.inl (active who rfl),.leave here.1 (by omega),fun _ => rfl⟩
    · cases stepped
  | arrive who =>
    simp only [State.moves] at stepped
    split at stepped
    · rename_i here
      cases stepped
      refine .inr ⟨who,{s.threads who with pc:=.waiting},.inl (active who rfl),?_,fun _ => by cases who <;> rfl⟩
      cases who <;> exact .arrive here
    · cases stepped
  | cross who =>
    simp only [State.moves] at stepped
    split at stepped
    · rename_i here
      cases stepped
      exact .inr ⟨who,_,.inl (active who rfl),.cross here.1,fun _ => rfl⟩
    · cases stepped
  | again i =>
    simp only [State.moves] at stepped
    split at stepped
    · rename_i here
      split at stepped
      · cases stepped
        exact .inl ⟨rfl,rfl,rfl⟩
      · split at stepped
        · cases stepped
          exact .inr ⟨_,_,.inl (active _ rfl),.ended here,fun _ => rfl⟩
        · cases stepped
          exact .inr ⟨_,_,.inl (active _ rfl),.again rfl here,fun _ => rfl⟩
    · cases stepped

theorem advance_turn (stepped : advance cfg s action = some (next,seen)) : Moved cfg s next seen := by
  by_cases committing : ∃ who position choice, action = .commit who position choice
  · obtain ⟨who,position,choice,rfl⟩ := committing
    simp only [advance] at stepped
    split at stepped
    · cases stepped
    · rename_i row found
      split at stepped
      · rename_i db answer ran
        cases stepped
        have filled : (s.threads who).flying ≠ [] := List.ne_nil_of_mem (List.mem_of_getElem? found)
        refine .inr ⟨who,_,.inr filled,?_,fun _ => rfl⟩
        simp only [State.put,send_row ran]
        exact .commit found
      · cases stepped
  · by_cases finishing : action = .finish
    · cases finishing
      cases stepped
      exact .inl ⟨rfl,rfl,rfl⟩
    · have ordinary : advance cfg s action = if action.who.all (s.alive cfg) then s.moves cfg action else none := by
        cases action with
        | commit who position choice => exact absurd ⟨who,position,choice,rfl⟩ committing
        | finish => exact absurd rfl finishing
        | _ => rfl
      rw [ordinary] at stepped
      split at stepped
      · exact moves_turn ‹_› stepped
      · cases stepped

-- The history in numbers. A receive counts the rows it returned.
def Event.issuedBy (who : Party) : Event → Nat
  | .issued by_ _ => if by_ = who then 1 else 0
  | _ => 0

def Event.committedBy (who : Party) : Event → Nat
  | .committed by_ _ => if by_ = who then 1 else 0
  | _ => 0

def Event.returnedBy (who : Party) : Event → Nat
  | .returned by_ => if by_ = who then 1 else 0
  | _ => 0

def Event.receivedBy (who : Party) : Event → Nat
  | .received by_ rows => if by_ = who then rows.length else 0
  | _ => 0

def Event.exitedBy (who : Party) : Event → Nat
  | .exited by_ _ => if by_ = who then 1 else 0
  | _ => 0

def total (measure : Event → Nat) (past : List Event) : Nat := (past.map measure).sum

@[simp] theorem total_nil (measure : Event → Nat) : total measure [] = 0 := rfl

@[simp] theorem total_append (measure : Event → Nat) (left right : List Event) :
    total measure (left ++ right) = total measure left + total measure right := by
  simp [total]

@[simp] theorem total_single (measure : Event → Nat) (event : Event) : total measure [event] = measure event := by
  simp [total]

def Pc.sends : Pc → Bool
  | .sending _ => true
  | _ => false

-- The part of the current batch that dbos_send has issued, and the part that the
-- receive loop has counted.
def Thread.batch (t : Thread) : Nat :=
  match t.pc with
  | .sending i => i
  | _ => 0

def Thread.counted (t : Thread) : Nat :=
  match t.pc with
  | .receiving => t.recvd
  | _ => 0

-- A client sends first: it is one batch ahead while it waits for the replies. A
-- server is one batch behind while it replies.
def InTurn (pc : Pc) (returns exits : Nat) : Party → Prop
  | .client _ => returns = exits + if pc = .receiving then 1 else 0
  | .server _ => exits = returns + if pc.sends then 1 else 0

-- What each thread keeps by itself, whatever the others do.
structure Steady (cfg : Bench) (past : List Event) (who : Party) (t : Thread) : Prop where
  issued : total (Event.issuedBy who) past = cfg.numMessages * total (Event.returnedBy who) past + t.batch
  within : t.batch ≤ cfg.numMessages
  received : total (Event.receivedBy who) past = cfg.numMessages * total (Event.exitedBy who) past + t.counted
  committed : total (Event.committedBy who) past + t.flying.length = total (Event.issuedBy who) past
  turn : InTurn t.pc (total (Event.returnedBy who) past) (total (Event.exitedBy who) past) who
  callbacks : (t.flying.length + t.acks + cfg.numMessages : Int) = t.batch + t.count ∧ 0 < t.count ∧
    t.count ≤ cfg.numMessages
  reset : ∀ i, who = .client i → t.pc.sends = true → t.recvd = 0

theorem start_steady (positive : 0 < cfg.numMessages) (who : Party) : Steady cfg [] who (Thread.start cfg who) := by
  cases who with
  | client i =>
    refine ⟨rfl,Nat.zero_le _,rfl,rfl,rfl,⟨?_,?_,?_⟩,fun _ _ _ => rfl⟩ <;> simp [Thread.start,Thread.batch,positive]
  | server i =>
    refine ⟨rfl,Nat.zero_le _,rfl,rfl,rfl,⟨?_,?_,?_⟩,nofun⟩ <;> simp [Thread.start,Thread.batch,positive]

-- The steps of the other threads are not counted for this one.
theorem Turn.elsewhere (turn : Turn cfg rows who t t' rows' seen) (apart : other ≠ who) :
    total (Event.issuedBy other) seen = 0 ∧ total (Event.committedBy other) seen = 0 ∧
      total (Event.returnedBy other) seen = 0 ∧ total (Event.receivedBy other) seen = 0 ∧
      total (Event.exitedBy other) seen = 0 := by
  have away : ¬who = other := fun same => apart same.symm
  cases turn <;>
    simp [Event.issuedBy,Event.committedBy,Event.returnedBy,Event.receivedBy,Event.exitedBy,away]

theorem Steady.elsewhere (steady : Steady cfg past other t) (apart : other ≠ who)
    (turn : Turn cfg rows who old t' rows' seen) : Steady cfg (past ++ seen) other t := by
  obtain ⟨issued,committed,returned,received,exited⟩ := turn.elsewhere apart
  refine ⟨?_,steady.within,?_,?_,?_,steady.callbacks,steady.reset⟩
  · simpa [issued,returned] using steady.issued
  · simpa [received,exited] using steady.received
  · simpa [issued,committed] using steady.committed
  · simpa [returned,exited] using steady.turn

-- All of the batch was issued, and the last response is about to be handled.
theorem Steady.last (steady : Steady cfg past who t) (answered : t.acks ≠ 0) (one : t.count = 1) :
    t.batch = cfg.numMessages ∧ t.flying = [] ∧ t.acks = 1 ∧ t.pc = .sending cfg.numMessages := by
  obtain ⟨account,low,high⟩ := steady.callbacks
  have within := steady.within
  have full : t.batch = cfg.numMessages := by omega
  refine ⟨full,List.length_eq_zero_iff.mp (by omega),by omega,?_⟩
  unfold Thread.batch at full
  split at full
  · rename_i i here
    rw [here,full]
  · omega

-- The moves between two phases touch neither the callback nor its requests.
@[simp] theorem sent_frame (t : Thread) (who : Party) :
    (t.sent who).flying = t.flying ∧ (t.sent who).acks = t.acks ∧ (t.sent who).count = t.count ∧
      (t.sent who).peer = t.peer ∧ (t.sent who).pc.sends = false := by
  cases who with
  | client => exact ⟨rfl,rfl,rfl,rfl,rfl⟩
  | server => cases connected : t.connected <;> simp [Thread.sent,connected,Pc.sends]

@[simp] theorem drained_frame (t : Thread) (who : Party) :
    (t.drained who).flying = t.flying ∧ (t.drained who).acks = t.acks ∧ (t.drained who).count = t.count ∧
      (t.drained who).peer = t.peer ∧ (t.drained who).batch = 0 ∧ (t.drained who).counted = 0 := by
  cases who with
  | client => cases connected : t.connected <;> simp [Thread.drained,connected,Thread.batch,Thread.counted]
  | server => exact ⟨rfl,rfl,rfl,rfl,rfl,rfl⟩

@[simp] theorem crossed_frame (t : Thread) (who : Party) :
    (t.crossed who).flying = t.flying ∧ (t.crossed who).acks = t.acks ∧ (t.crossed who).count = t.count ∧
      (t.crossed who).peer = t.peer ∧ (t.crossed who).batch = 0 ∧ (t.crossed who).counted = 0 := by
  cases who <;> exact ⟨rfl,rfl,rfl,rfl,rfl,rfl⟩

theorem batch_resting (resting : t.pc.sends = false) : t.batch = 0 := by
  unfold Thread.batch
  split
  · rename_i i here
    simp [here,Pc.sends] at resting
  · rfl

-- A thread that moves without an event keeps its account if it neither sends nor
-- receives on either side of the move.
theorem Steady.silent (steady : Steady cfg past who t)
    (requests : t'.flying = t.flying ∧ t'.acks = t.acks ∧ t'.count = t.count)
    (batch : t'.batch = t.batch) (counted : t'.counted = t.counted)
    (turn : ∀ returns exits, InTurn t.pc returns exits who → InTurn t'.pc returns exits who)
    (reset : ∀ i, who = .client i → t'.pc.sends = true → t'.recvd = 0) : Steady cfg past who t' := by
  obtain ⟨flying,acks,count⟩ := requests
  refine ⟨?_,?_,?_,?_,turn _ _ steady.turn,?_,reset⟩
  · rw [batch]
    exact steady.issued
  · rw [batch]
    exact steady.within
  · rw [counted]
    exact steady.received
  · rw [flying]
    exact steady.committed
  · rw [flying,acks,count,batch]
    exact steady.callbacks

theorem Steady.send (steady : Steady cfg past who t) (here : t.pc = .sending i) (more : i < cfg.numMessages)
    (row : MessageRow) :
    Steady cfg (past ++ [.issued who row]) who {t with pc:=.sending (i + 1),flying:=t.flying ++ [row]} := by
  have issued := steady.issued
  have received := steady.received
  have committed := steady.committed
  have inTurn := steady.turn
  obtain ⟨account,bounds⟩ := steady.callbacks
  simp only [Thread.batch,Thread.counted,here] at issued received account
  refine ⟨?_,more,?_,?_,?_,⟨?_,bounds⟩,fun j named _ => steady.reset j named (by simp [here,Pc.sends])⟩
  · simp only [total_append,total_single,Event.issuedBy,Event.returnedBy,if_true,Thread.batch,Nat.add_zero]
    omega
  · simpa [Event.receivedBy,Event.exitedBy,Thread.counted] using received
  · simp only [total_append,total_single,Event.issuedBy,Event.committedBy,if_true,List.length_append,List.length_singleton]
    omega
  · cases who <;> simpa [InTurn,here,Pc.sends,Event.returnedBy,Event.exitedBy] using inTurn
  · simp only [Thread.batch,List.length_append,List.length_singleton]
    push_cast
    omega

theorem Steady.commit (steady : Steady cfg past who t) (found : t.flying[position]? = some row) :
    Steady cfg (past ++ [.committed who row]) who {t with flying:=t.flying.eraseIdx position,acks:=t.acks + 1} := by
  obtain ⟨inside,_⟩ := List.getElem?_eq_some_iff.mp found
  have committed := steady.committed
  obtain ⟨account,bounds⟩ := steady.callbacks
  have shorter : (t.flying.eraseIdx position).length + 1 = t.flying.length := by
    rw [List.length_eraseIdx_of_lt inside]
    omega
  refine ⟨?_,steady.within,?_,?_,?_,⟨?_,bounds⟩,steady.reset⟩
  · simpa [Event.issuedBy,Event.returnedBy,Thread.batch] using steady.issued
  · simpa [Event.receivedBy,Event.exitedBy,Thread.counted] using steady.received
  · simp only [total_append,total_single,Event.issuedBy,Event.committedBy,if_true]
    omega
  · simpa [Event.returnedBy,Event.exitedBy] using steady.turn
  · simp only [Thread.batch] at account ⊢
    push_cast
    omega

theorem Steady.returned (steady : Steady cfg past who t) (answered : t.acks ≠ 0) (one : t.count = 1) :
    Steady cfg (past ++ [.returned who]) who ({t with acks:=t.acks - 1,count:=cfg.numMessages}.sent who) := by
  obtain ⟨_,empty,single,here⟩ := steady.last answered one
  have positive := steady.callbacks.2
  have issued := steady.issued
  have received := steady.received
  have inTurn := steady.turn
  simp only [Thread.batch,Thread.counted,here] at issued received
  have frame := sent_frame {t with acks:=t.acks - 1,count:=cfg.numMessages} who
  obtain ⟨flying,acks,count,_,resting⟩ := frame
  have batch := batch_resting resting
  have counted : ({t with acks:=t.acks - 1,count:=cfg.numMessages}.sent who).counted = 0 := by
    cases who with
    | client i => exact steady.reset i rfl (by simp [here,Pc.sends])
    | server i => cases connected : t.connected <;> simp [Thread.sent,Thread.counted]
  refine ⟨?_,?_,?_,?_,?_,?_,?_⟩
  · rw [batch]
    simp only [total_append,total_single,Event.issuedBy,Event.returnedBy,if_true,Nat.mul_add,Nat.mul_one]
    omega
  · rw [batch]
    exact Nat.zero_le _
  · rw [counted]
    simpa [Event.receivedBy,Event.exitedBy] using received
  · rw [flying]
    simpa [Event.issuedBy,Event.committedBy] using steady.committed
  · cases who with
    | client i => simpa [InTurn,here,Event.returnedBy,Event.exitedBy,Thread.sent] using inTurn
    | server i =>
      simp only [InTurn,here,Pc.sends,if_true] at inTurn
      simpa [InTurn,resting,Event.returnedBy,Event.exitedBy] using inTurn
  · rw [flying,acks,count,batch,empty]
    simp only [List.length_nil]
    omega
  · rw [resting]
    intro _ _ sends
    cases sends

theorem Steady.recv (steady : Steady cfg past who t) (here : t.pc = .receiving) (contents : List Content) (peer : Int) :
    Steady cfg (past ++ [.received who contents]) who {t with recvd:=t.recvd + contents.length,peer:=peer} := by
  have received := steady.received
  simp only [Thread.counted,here] at received
  refine ⟨?_,steady.within,?_,?_,?_,steady.callbacks,?_⟩
  · simpa [Event.issuedBy,Event.returnedBy,Thread.batch] using steady.issued
  · simp only [total_append,total_single,Event.receivedBy,Event.exitedBy,if_true,Thread.counted,here,Nat.add_zero]
    omega
  · simpa [Event.issuedBy,Event.committedBy] using steady.committed
  · simpa [Event.returnedBy,Event.exitedBy] using steady.turn
  · simp [here,Pc.sends]

theorem Steady.leave (steady : Steady cfg past who t) (here : t.pc = .receiving) (exact : t.recvd = cfg.numMessages) :
    Steady cfg (past ++ [.exited who t.recvd]) who (t.drained who) := by
  obtain ⟨flying,acks,count,_,batch,counted⟩ := drained_frame t who
  have resting : t.batch = 0 := batch_resting (by simp [here,Pc.sends])
  have received := steady.received
  have inTurn := steady.turn
  simp only [Thread.counted,here] at received
  refine ⟨?_,?_,?_,?_,?_,?_,?_⟩
  · have issued := steady.issued
    rw [resting] at issued
    simpa [Event.issuedBy,Event.returnedBy,batch] using issued
  · rw [batch]
    exact Nat.zero_le _
  · rw [counted]
    simp only [total_append,total_single,Event.receivedBy,Event.exitedBy,if_true,Nat.mul_add,Nat.mul_one]
    omega
  · rw [flying]
    simpa [Event.issuedBy,Event.committedBy] using steady.committed
  · cases who with
    | client i =>
      cases connected : t.connected <;>
        simpa [InTurn,here,Event.returnedBy,Event.exitedBy,Thread.drained,connected] using inTurn
    | server i => simpa [InTurn,here,Event.returnedBy,Event.exitedBy,Thread.drained,Pc.sends] using inTurn
  · rw [flying,acks,count,batch,← resting]
    exact steady.callbacks
  · intro i named sends
    subst named
    cases connected : t.connected <;> simp [Thread.drained,connected,Pc.sends] at sends

theorem Steady.own (steady : Steady cfg past who t) (turn : Turn cfg rows who t t' rows' seen)
    (bounded : t.pc = .receiving → t.recvd ≤ cfg.numMessages) : Steady cfg (past ++ seen) who t' := by
  cases turn with
  | send here more => exact steady.send here more _
  | commit found => exact steady.commit found
  | callback answered more =>
    obtain ⟨account,low,high⟩ := steady.callbacks
    rw [List.append_nil]
    refine ⟨steady.issued,steady.within,steady.received,steady.committed,steady.turn,?_,steady.reset⟩
    simp only [Thread.batch] at account ⊢
    omega
  | wrapped answered one away => exact absurd (steady.last answered one).2.2.2 away
  | returned answered one => exact steady.returned answered one
  | recv here => exact steady.recv here _ _
  | leave here enough => exact steady.leave here (Nat.le_antisymm (bounded here) enough)
  | arrive here =>
    rw [List.append_nil]
    refine steady.silent ⟨rfl,rfl,rfl⟩ ?_ ?_ ?_ (by simp [Pc.sends])
    · simp [Thread.batch,here]
    · simp [Thread.counted,here]
    · intro returns exits
      cases who <;> simp [InTurn,here,Pc.sends]
  | cross here =>
    rw [List.append_nil]
    obtain ⟨flying,acks,count,_,batch,counted⟩ := crossed_frame t who
    refine steady.silent ⟨flying,acks,count⟩ ?_ ?_ ?_ (fun i named _ => by subst named; rfl)
    · rw [batch,batch_resting (by simp [here,Pc.sends])]
    · rw [counted]
      simp [Thread.counted,here]
    · intro returns exits
      cases who <;> simp [InTurn,here,Pc.sends,Thread.crossed]
  | again named here =>
    subst named
    rw [List.append_nil]
    refine steady.silent ⟨rfl,rfl,rfl⟩ ?_ ?_ ?_ (fun _ _ _ => rfl)
    · simp [Thread.batch,here]
    · simp [Thread.counted,here]
    · intro returns exits
      simp [InTurn,here]
  | ended here =>
    rw [List.append_nil]
    refine steady.silent ⟨rfl,rfl,rfl⟩ ?_ ?_ ?_ (by simp [Pc.sends])
    · simp [Thread.batch,here]
    · simp [Thread.counted,here]
    · intro returns exits
      cases who <;> simp [InTurn,here,Pc.sends]

end DbosScheduler.Message
