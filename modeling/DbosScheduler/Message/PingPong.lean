import DbosScheduler.Message.Delivery

namespace DbosScheduler.Message
open Machine Sql

-- DBCommBenchClient and DBCommBenchServer over one database, broadcast off. Both
-- processes are started with the same number of threads and messages.
structure Bench where
  pairs : Nat
  numMessages : Nat
  clientSize : Nat
  serverSize : Nat
  deriving Repr, DecidableEq

-- A SenderThread or a ReceiverThread.
inductive Party where
  | client (i : Nat)
  | server (i : Nat)
  deriving Repr, DecidableEq

-- "Assumes that receivers have receiverId = senderId + 100."
def Party.threadId : Party → Int
  | .client i => i
  | .server i => i + 100

def Party.partner : Party → Party
  | .client i => .server i
  | .server i => .client i

def Party.index : Party → Nat
  | .client i => i
  | .server i => i

-- Where a thread stands: in dbos_send with i invocations made (with all of them
-- made it is in client->run()), in the receive loop, before or inside the
-- barrier, at the end of a measured round, or returned.
inductive Pc where
  | sending (i : Nat)
  | receiving
  | connecting
  | waiting
  | measured
  | ended
  deriving Repr, DecidableEq

-- `count` is m_count of the thread's SendCallback. `flying` are the invocations
-- that have not committed yet, `acks` the responses not yet given to the callback.
structure Thread where
  pc : Pc
  connected : Bool
  recvd : Nat
  peer : Int
  count : Int
  flying : List MessageRow
  acks : Nat
  deriving Repr, DecidableEq

def Thread.start (cfg : Bench) : Party → Thread
  | .client i => ⟨.sending 0,false,0,i + 100,cfg.numMessages,[],0⟩
  | .server _ => ⟨.receiving,false,0,-1,cfg.numMessages,[],0⟩

structure State where
  db : Database
  threads : Party → Thread
  senders : Nat
  receivers : Nat
  msgLatsArrayIndex : Nat
  mainFinished : Bool
  exited : Bool

def State.start (cfg : Bench) (db : Database) : State := ⟨db,Thread.start cfg,0,0,0,false,false⟩

def State.put (s : State) (who : Party) (t : Thread) : State :=
  {s with threads:=fun other => if other = who then t else s.threads other}

inductive Action where
  | send (who : Party) (time : Int)
  | commit (who : Party) (position : Nat) (choice : Choice)
  | callback (who : Party)
  | recv (who : Party) (choice : Choice)
  | leave (who : Party)
  | arrive (who : Party)
  | cross (who : Party)
  | again (i : Nat)
  | finish
  deriving Repr, DecidableEq

inductive Event where
  | issued (who : Party) (row : MessageRow)
  | committed (who : Party) (row : MessageRow)
  | returned (who : Party)
  | received (who : Party) (rows : List Content)
  | exited (who : Party) (recvd : Nat)
  deriving Repr, DecidableEq

def kMaxEntries : Nat := 67108864

-- std::string data(msg_size, '0')
def data (cfg : Bench) : Party → String
  | .client _ => String.ofList (List.replicate cfg.clientSize '0')
  | .server _ => String.ofList (List.replicate cfg.serverSize '0')

def SendMessage.request (row : MessageRow) : Request :=
  ⟨.sendMessage,[.int row.receiverID,.int row.senderID,.int row.messageID,.string row.data]⟩

def ReceiveMessage.request (receiverID : Int) : Request := ⟨.receiveMessage,[.int receiverID]⟩

-- SendCallback::callback; the result tells the event loop to break.
def SendCallback.callback (numMessages : Nat) (count : Int) : Int × Bool :=
  if count - 1 = 0 then (numMessages,true) else (count - 1,false)

-- The server keeps the sender of the first row it gets.
def Thread.senderId (t : Thread) : Party → List Content → Int
  | .server _,row :: _ => row.1
  | _,_ => t.peer

-- dbos_send returns.
def Thread.sent (t : Thread) : Party → Thread
  | .client _ => {t with pc:=.receiving}
  | .server _ => if t.connected then {t with recvd:=0,pc:=.receiving} else {t with pc:=.connecting}

-- The receive loop ends.
def Thread.drained (t : Thread) : Party → Thread
  | .client _ => if t.connected then {t with pc:=.measured} else {t with pc:=.connecting}
  | .server _ => {t with pc:=.sending 0}

-- pthread_barrier_wait returns.
def Thread.crossed (t : Thread) : Party → Thread
  | .client _ => {t with connected:=true,recvd:=0,pc:=.sending 0}
  | .server _ => {t with connected:=true,recvd:=0,pc:=.receiving}

-- exit(1) of the client process ends all its threads; what they had sent by then
-- is with the database.
def State.alive (cfg : Bench) (s : State) (who : Party) : Bool :=
  decide (who.index < cfg.pairs) &&
    match who with
    | .client _ => !s.exited
    | .server _ => true

def State.arrived (s : State) : Party → Nat
  | .client _ => s.senders
  | .server _ => s.receivers

def State.arrive (s : State) : Party → State
  | .client _ => {s with senders:=s.senders + 1}
  | .server _ => {s with receivers:=s.receivers + 1}

-- One step of a thread that can move. An invocation that would fail is no step:
-- the runs are those without a failing invocation.
def State.moves (cfg : Bench) (s : State) : Action → Option (State × List Event)
  | .send who time =>
    let t := s.threads who
    match t.pc with
    | .sending i =>
      if i < cfg.numMessages then
        let row : MessageRow := ⟨t.peer,who.threadId,time,data cfg who⟩
        some (s.put who {t with pc:=.sending (i + 1),flying:=t.flying ++ [row]},[.issued who row])
      else none
    | _ => none
  | .callback who =>
    let t := s.threads who
    if t.acks = 0 then none else
    let (count,breaks) := SendCallback.callback cfg.numMessages t.count
    let t := {t with acks:=t.acks - 1,count:=count}
    if breaks && t.pc == .sending cfg.numMessages then some (s.put who (t.sent who),[.returned who])
    else some (s.put who t,[])
  | .recv who choice =>
    let t := s.threads who
    if t.pc = .receiving ∧ t.recvd < cfg.numMessages then
      match invoke s.db (ReceiveMessage.request who.threadId) choice with
      | (db,some (.messages rows)) =>
        some ({s with db:=db}.put who {t with recvd:=t.recvd + rows.length,peer:=t.senderId who rows},
          [.received who rows])
      | _ => none
    else none
  | .leave who =>
    let t := s.threads who
    if t.pc = .receiving ∧ ¬t.recvd < cfg.numMessages then
      some (s.put who (t.drained who),[.exited who t.recvd])
    else none
  | .arrive who =>
    let t := s.threads who
    if t.pc = .connecting then some ((s.arrive who).put who {t with pc:=.waiting},[]) else none
  | .cross who =>
    let t := s.threads who
    if t.pc = .waiting ∧ cfg.pairs ≤ s.arrived who then some (s.put who (t.crossed who),[]) else none
  | .again i =>
    let t := s.threads (.client i)
    if t.pc = .measured then
      let s := {s with msgLatsArrayIndex:=s.msgLatsArrayIndex + 1}
      if kMaxEntries < s.msgLatsArrayIndex then some ({s with exited:=true},[])
      else if s.mainFinished then some (s.put (.client i) {t with pc:=.ended},[])
      else some (s.put (.client i) {t with recvd:=0,pc:=.sending 0},[])
    else none
  | _ => none

def Action.who : Action → Option Party
  | .send who _ | .callback who | .recv who _ | .leave who | .arrive who | .cross who => some who
  | .again i => some (.client i)
  | _ => none

-- Requests commit in any order, whatever their sender does meanwhile.
def advance (cfg : Bench) : Advance State Action Event
  | s,.commit who position choice =>
    let t := s.threads who
    match t.flying[position]? with
    | none => none
    | some row =>
      match invoke s.db (SendMessage.request row) choice with
      | (db,some _) =>
        some ({s with db:=db}.put who {t with flying:=t.flying.eraseIdx position,acks:=t.acks + 1},[.committed who row])
      | _ => none
  | s,.finish => some ({s with mainFinished:=true},[])
  | s,action => if action.who.all (s.alive cfg) then s.moves cfg action else none

end DbosScheduler.Message
