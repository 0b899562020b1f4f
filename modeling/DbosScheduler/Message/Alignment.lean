import DbosScheduler.Message.Rounds

namespace DbosScheduler.Message
open Machine Sql

variable {cfg : Bench} {s next : State} {who other : Party} {t t' : Thread} {rows rows' : List MessageRow}
  {past seen : List Event}

-- A row goes from a thread to its partner.
def Routed (who : Party) (row : MessageRow) : Prop :=
  row.receiverID = who.partner.threadId ∧ row.senderID = who.threadId

-- Replies go to the client of the pair, and what a thread gets comes from its partner.
def Event.Faithful : Event → Prop
  | .issued who row | .committed who row => Routed who row
  | .received who rows => ∀ item ∈ rows, item.1 = who.partner.threadId
  | _ => True

-- A server knows its client from the first message on.
def Known (past : List Event) : Party → Prop
  | .client _ => True
  | .server i => 0 < total (Event.receivedBy (.server i)) past

structure Aligned (cfg : Bench) (past : List Event) (s : State) : Prop where
  steady : ∀ who, Steady cfg past who (s.threads who)
  outside : ∀ who, cfg.pairs ≤ who.index → (s.threads who).flying = []
  flying : ∀ who, ∀ row ∈ (s.threads who).flying, Routed who row
  peer : ∀ who, Known past who → (s.threads who).peer = who.partner.threadId
  table : ∀ row ∈ s.db.message, ∃ who, who.index < cfg.pairs ∧ Routed who row
  mail : ∀ who, who.index < cfg.pairs → total (Event.committedBy who.partner) past =
    total (Event.receivedBy who) past + (waiting who.threadId s.db.message).length
  faithful : ∀ event ∈ past, event.Faithful

@[simp] theorem partner_partner (who : Party) : who.partner.partner = who := by cases who <;> rfl

@[simp] theorem partner_index (who : Party) : who.partner.index = who.index := by cases who <;> rfl

-- The numbers 0..N-1 and 100..100+N-1 are all different.
theorem threadId_inj (few : cfg.pairs ≤ 100) (left : who.index < cfg.pairs) (right : other.index < cfg.pairs) :
    who.threadId = other.threadId ↔ who = other := by
  constructor
  · intro same
    cases who <;> cases other <;> simp only [Party.threadId,Party.index] at same left right
    · rw [Int.ofNat.inj same]
    · omega
    · omega
    · congr 1
      omega
  · intro same
    rw [same]

-- No thread is ahead of its turn: a client by at most the batch of its current
-- round, a server not at all.
theorem Steady.client_limit (steady : Steady cfg past (.client i) t) : total (Event.issuedBy (.client i)) past ≤
    cfg.numMessages * (total (Event.exitedBy (.client i)) past + 1) := by
  have within := steady.within
  have turn := steady.turn
  simp only [InTurn] at turn
  split at turn
  · rename_i here
    rw [steady.issued,turn,batch_resting (by simp [here,Pc.sends])]
    omega
  · simp only [steady.issued,turn,Nat.mul_add,Nat.mul_one,Nat.add_zero]
    omega

theorem Steady.server_limit (steady : Steady cfg past (.server i) t) : total (Event.issuedBy (.server i)) past ≤
    cfg.numMessages * total (Event.exitedBy (.server i)) past := by
  have within := steady.within
  have turn := steady.turn
  simp only [InTurn] at turn
  split at turn
  · simp only [steady.issued,turn,Nat.mul_add,Nat.mul_one]
    omega
  · rename_i resting
    simp only [steady.issued,turn,batch_resting (by simpa using resting),Nat.add_zero]
    omega

theorem Aligned.flow (aligned : Aligned cfg past s) (who : Party) (active : who.index < cfg.pairs) :
    total (Event.receivedBy who) past + (waiting who.threadId s.db.message).length ≤
      total (Event.issuedBy who.partner) past := by
  have mail := aligned.mail who active
  have committed := (aligned.steady who.partner).committed
  omega

-- Each batch answers the one before it, so a mailbox never holds more than what
-- is left of the round its owner is in.
theorem Aligned.room (aligned : Aligned cfg past s) (active : who.index < cfg.pairs) :
    total (Event.receivedBy who) past + (waiting who.threadId s.db.message).length ≤
      cfg.numMessages * (total (Event.exitedBy who) past + 1) := by
  have pair : ∀ i, i < cfg.pairs → ∀ one, one = Party.client i ∨ one = Party.server i →
      total (Event.receivedBy one) past + (waiting one.threadId s.db.message).length ≤
        cfg.numMessages * (total (Event.exitedBy one) past + 1) := by
    intro i inside one named
    have toClient := aligned.flow (.client i) inside
    have toServer := aligned.flow (.server i) inside
    have clientLimit := (aligned.steady (.client i)).client_limit
    have serverLimit := (aligned.steady (.server i)).server_limit
    have clientFloor := (aligned.steady (.client i)).received
    have serverFloor := (aligned.steady (.server i)).received
    simp only [Party.partner,Nat.mul_add,Nat.mul_one] at toClient toServer clientLimit ⊢
    rcases named with rfl | rfl <;> omega
  cases who with
  | client i => exact pair i active _ (.inl rfl)
  | server i => exact pair i active _ (.inr rfl)

theorem Aligned.bounded (aligned : Aligned cfg past s) (active : who.index < cfg.pairs)
    (here : (s.threads who).pc = .receiving) :
    (s.threads who).recvd + (waiting who.threadId s.db.message).length ≤ cfg.numMessages := by
  have room := aligned.room active
  have received := (aligned.steady who).received
  simp only [Thread.counted,here] at received
  rw [received,Nat.mul_add] at room
  omega

theorem Aligned.knows (aligned : Aligned cfg past s) (positive : 0 < cfg.numMessages)
    (here : (s.threads who).pc = .sending i) : Known past who := by
  cases who with
  | client => trivial
  | server j =>
    have turn := (aligned.steady (.server j)).turn
    have received := (aligned.steady (.server j)).received
    simp only [InTurn,here,Pc.sends,if_true] at turn
    rw [turn,Nat.mul_add] at received
    simp only [Known]
    omega

-- The sender of every waiting row is the partner of the receiver.
theorem Aligned.sender (aligned : Aligned cfg past s) (few : cfg.pairs ≤ 100) (active : who.index < cfg.pairs)
    (member : item ∈ waiting who.threadId s.db.message) : item.1 = who.partner.threadId := by
  obtain ⟨row,found,rfl⟩ := List.mem_map.mp member
  obtain ⟨present,mine⟩ := List.mem_filter.mp found
  obtain ⟨author,inside,goes,comes⟩ := aligned.table row present
  have same : author.partner = who :=
    (threadId_inj few (by simpa using inside) active).mp (goes.symm.trans (addressed_iff.mp mine))
  have author_eq : author = who.partner := by rw [← same,partner_partner]
  rw [← author_eq]
  exact comes

-- What a turn does to the requests in flight, to the stored client id, to the
-- table and to the mailboxes.
theorem Turn.flying (turn : Turn cfg rows who t t' rows' seen) (member : row ∈ t'.flying) :
    row ∈ t.flying ∨ ((∃ i, t.pc = .sending i) ∧ row.receiverID = t.peer ∧ row.senderID = who.threadId) := by
  cases turn with
  | @send i new here _ goes comes =>
    rcases List.mem_append.mp member with old | last
    · exact .inl old
    · cases List.mem_singleton.mp last
      exact .inr ⟨⟨i,here⟩,goes,comes⟩
  | commit => exact .inl (List.mem_of_mem_eraseIdx member)
  | returned =>
    rw [(sent_frame _ who).1] at member
    exact .inl member
  | leave =>
    rw [(drained_frame t who).1] at member
    exact .inl member
  | cross =>
    rw [(crossed_frame t who).1] at member
    exact .inl member
  | _ => exact .inl member

theorem Turn.table (turn : Turn cfg rows who t t' rows' seen) (member : row ∈ rows') : row ∈ rows ∨ row ∈ t.flying := by
  cases turn with
  | commit found =>
    rcases List.mem_append.mp member with old | new
    · exact .inl old
    · cases List.mem_singleton.mp new
      exact .inr (List.mem_of_getElem? found)
  | recv => exact .inl (List.mem_filter.mp member).1
  | _ => exact .inl member

theorem Turn.peer (turn : Turn cfg rows who t t' rows' seen) :
    (t'.peer = t.peer ∧ total (Event.receivedBy who) seen = 0) ∨
      ∃ head rest, t'.peer = t.senderId who (head :: rest) ∧ head ∈ waiting who.threadId rows := by
  cases turn with
  | @recv contents here all =>
    cases contents with
    | nil =>
      refine .inl ⟨?_,by simp [Event.receivedBy]⟩
      cases who <;> rfl
    | cons head rest => exact .inr ⟨head,rest,rfl,all.subset List.mem_cons_self⟩
  | returned => exact .inl ⟨(sent_frame _ who).2.2.2.1,rfl⟩
  | leave => exact .inl ⟨(drained_frame t who).2.2.2.1,rfl⟩
  | cross => exact .inl ⟨(crossed_frame t who).2.2.2.1,rfl⟩
  | _ => exact .inl ⟨rfl,rfl⟩

theorem Turn.mail (turn : Turn cfg rows who t t' rows' seen) (few : cfg.pairs ≤ 100) (active : who.index < cfg.pairs)
    (routed : ∀ row ∈ t.flying, Routed who row) (inside : other.index < cfg.pairs) :
    total (Event.committedBy other.partner) seen + (waiting other.threadId rows).length =
      total (Event.receivedBy other) seen + (waiting other.threadId rows').length := by
  cases turn with
  | @commit position row found =>
    have goes := (routed row (List.mem_of_getElem? found)).1
    by_cases mine : who = other.partner
    · subst mine
      simp [Event.committedBy,Event.receivedBy,waiting,addressed,goes]
      omega
    · have away : ¬other.threadId = who.partner.threadId := by
        intro same
        have equal := (threadId_inj few inside (by simpa using active)).mp same
        exact mine (by rw [equal,partner_partner])
      simp [Event.committedBy,Event.receivedBy,waiting,addressed,goes,mine,Ne.symm away]
  | @recv contents here all =>
    rw [waiting_received]
    by_cases mine : other = who
    · subst mine
      simp [Event.committedBy,Event.receivedBy,all.length_eq]
    · have away : ¬other.threadId = who.threadId := fun same => mine ((threadId_inj few inside active).mp same)
      simp [Event.committedBy,Event.receivedBy,Ne.symm mine,away]
  | _ => simp [Event.committedBy,Event.receivedBy]

theorem Aligned.own_faithful (aligned : Aligned cfg past s) (few : cfg.pairs ≤ 100) (positive : 0 < cfg.numMessages)
    (active : who.index < cfg.pairs) (turn : Turn cfg s.db.message who (s.threads who) t' rows' seen) :
    ∀ event ∈ seen, event.Faithful := by
  cases turn with
  | send here _ goes comes =>
    intro event member
    cases List.mem_singleton.mp member
    exact ⟨goes.trans (aligned.peer who (aligned.knows positive here)),comes⟩
  | commit found =>
    intro event member
    cases List.mem_singleton.mp member
    exact aligned.flying who _ (List.mem_of_getElem? found)
  | recv here all =>
    intro event member
    cases List.mem_singleton.mp member
    exact fun item present => aligned.sender few active (all.subset present)
  | returned | leave =>
    intro event member
    cases List.mem_singleton.mp member
    trivial
  | _ =>
    intro event member
    cases member

theorem Aligned.step (aligned : Aligned cfg past s) (few : cfg.pairs ≤ 100) (positive : 0 < cfg.numMessages)
    (moved : Moved cfg s next seen) : Aligned cfg (past ++ seen) next := by
  rcases moved with ⟨threads,message,rfl⟩ | ⟨who,t,acting,turn,threads⟩
  · rw [List.append_nil]
    obtain ⟨steady,outside,flying,peer,table,mail,faithful⟩ := aligned
    refine ⟨?_,?_,?_,?_,?_,?_,faithful⟩
    all_goals simp only [threads,message]
    all_goals assumption
  · have active : who.index < cfg.pairs := by
      rcases acting with inside | filled
      · exact inside
      · by_contra out
        exact filled (aligned.outside who (by omega))
    have mine : next.threads who = t := by simp [threads]
    have others : ∀ other, other ≠ who → next.threads other = s.threads other := by
      intro other apart
      simp [threads,apart]
    have small : (s.threads who).pc = .receiving → (s.threads who).recvd ≤ cfg.numMessages := by
      intro here
      have := aligned.bounded active here
      omega
    have own := aligned.own_faithful few positive active turn
    refine ⟨?_,?_,?_,?_,?_,?_,?_⟩
    · intro other
      by_cases same : other = who
      · subst same
        rw [mine]
        exact (aligned.steady other).own turn small
      · rw [others other same]
        exact (aligned.steady other).elsewhere same turn
    · intro other outside
      have apart : other ≠ who := by
        rintro rfl
        omega
      rw [others other apart]
      exact aligned.outside other outside
    · intro other row member
      by_cases same : other = who
      · subst same
        rw [mine] at member
        rcases turn.flying member with old | ⟨⟨i,here⟩,goes,comes⟩
        · exact aligned.flying other row old
        · exact ⟨goes.trans (aligned.peer other (aligned.knows positive here)),comes⟩
      · rw [others other same] at member
        exact aligned.flying other row member
    · intro other known
      by_cases same : other = who
      · subst same
        rw [mine]
        rcases turn.peer with ⟨kept,nothing⟩ | ⟨head,rest,given,present⟩
        · rw [kept]
          refine aligned.peer other ?_
          cases other with
          | client => trivial
          | server i => simpa [Known,nothing] using known
        · rw [given]
          cases other with
          | client i => exact aligned.peer (.client i) trivial
          | server i => exact aligned.sender few active present
      · rw [others other same]
        refine aligned.peer other ?_
        cases other with
        | client => trivial
        | server i => simpa [Known,(turn.elsewhere same).2.2.2.1] using known
    · intro row member
      rcases turn.table member with old | sent
      · exact aligned.table row old
      · exact ⟨who,active,aligned.flying who row sent⟩
    · intro other inside
      have before := aligned.mail other inside
      have moved := turn.mail few active (aligned.flying who) inside
      simp only [total_append]
      omega
    · intro event member
      rcases List.mem_append.mp member with old | new
      · exact aligned.faithful event old
      · exact own event new

theorem start_aligned (positive : 0 < cfg.numMessages) (empty : db.message = []) : Aligned cfg [] (State.start cfg db) := by
  refine ⟨start_steady positive,?_,?_,?_,?_,?_,nofun⟩
  · intro who _
    cases who <;> rfl
  · intro who row member
    cases who <;> cases member
  · intro who known
    cases who with
    | client i => rfl
    | server i => exact absurd known (Nat.lt_irrefl 0)
  · simp [State.start,empty]
  · simp [State.start,empty,waiting]

theorem Turn.exited (turn : Turn cfg rows who t t' rows' seen) (member : .exited other recvd ∈ seen) :
    other = who ∧ recvd = t.recvd ∧ t.pc = .receiving ∧ cfg.numMessages ≤ t.recvd ∧ t' = t.drained who ∧
      rows' = rows ∧ seen = [.exited who t.recvd] := by
  cases turn with
  | leave here enough =>
    cases List.mem_singleton.mp member
    exact ⟨rfl,rfl,here,enough,rfl,rfl,rfl⟩
  | send | commit | recv | returned => cases List.mem_singleton.mp member
  | _ => cases member

theorem Turn.sent (turn : Turn cfg rows who t t' rows' seen) (member : .returned other ∈ seen) :
    other = who ∧ t'.pc.sends = false := by
  cases turn with
  | returned =>
    cases List.mem_singleton.mp member
    exact ⟨rfl,(sent_frame _ who).2.2.2.2⟩
  | send | commit | recv | leave => cases List.mem_singleton.mp member
  | _ => cases member

-- A receive loop has ended: it counted one batch, nothing is left for the thread,
-- and all that it and its partner ever exchanged are whole rounds.
structure RoundComplete (cfg : Bench) (past : List Event) (who : Party) (recvd : Nat) (s : State) : Prop where
  exact : recvd = cfg.numMessages
  drained : waiting who.threadId s.db.message = []
  counted : total (Event.receivedBy who) past = cfg.numMessages * total (Event.exitedBy who) past
  answered : total (Event.committedBy who.partner) past = cfg.numMessages * total (Event.exitedBy who) past
  peer : (s.threads who).peer = who.partner.threadId

-- dbos_send has returned: every insert of the batch is in, and the callback is
-- as good as new.
structure BatchComplete (cfg : Bench) (past : List Event) (who : Party) (s : State) : Prop where
  committed : total (Event.committedBy who) past = cfg.numMessages * total (Event.returnedBy who) past
  nothing : (s.threads who).flying = [] ∧ (s.threads who).acks = 0
  counter : (s.threads who).count = cfg.numMessages

theorem Aligned.round (aligned : Aligned cfg past s) (few : cfg.pairs ≤ 100) (positive : 0 < cfg.numMessages)
    (moved : Moved cfg s next seen) (member : .exited who recvd ∈ seen) :
    RoundComplete cfg (past ++ seen) who recvd next := by
  have after := aligned.step few positive moved
  rcases moved with ⟨_,_,rfl⟩ | ⟨actor,t,acting,turn,threads⟩
  · cases member
  · obtain ⟨rfl,rfl,here,enough,rfl,table,rfl⟩ := turn.exited member
    have active : who.index < cfg.pairs := by
      rcases acting with inside | filled
      · exact inside
      · by_contra out
        exact filled (aligned.outside who (by omega))
    have bounded := aligned.bounded active here
    have drained : waiting who.threadId next.db.message = [] := by
      rw [table]
      exact List.length_eq_zero_iff.mp (by omega)
    have counted := (after.steady who).received
    rw [threads,if_pos rfl,(drained_frame _ who).2.2.2.2.2,Nat.add_zero] at counted
    have mail := after.mail who active
    rw [drained,List.length_nil,Nat.add_zero,counted] at mail
    refine ⟨by omega,drained,counted,mail,after.peer who ?_⟩
    cases who with
    | client => trivial
    | server i =>
      simp only [Known,counted]
      refine Nat.mul_pos positive ?_
      simp [Event.exitedBy]

theorem Aligned.batch (aligned : Aligned cfg past s) (few : cfg.pairs ≤ 100) (positive : 0 < cfg.numMessages)
    (moved : Moved cfg s next seen) (member : .returned who ∈ seen) : BatchComplete cfg (past ++ seen) who next := by
  have after := (aligned.step few positive moved).steady who
  rcases moved with ⟨_,_,rfl⟩ | ⟨actor,t,_,turn,threads⟩
  · cases member
  · obtain ⟨rfl,resting⟩ := turn.sent member
    have batch : (next.threads who).batch = 0 := batch_resting (by rw [threads,if_pos rfl,resting])
    have issued := after.issued
    have committed := after.committed
    obtain ⟨account,_,high⟩ := after.callbacks
    rw [batch] at issued account
    have empty : (next.threads who).flying.length = 0 := by omega
    exact ⟨by omega,⟨List.length_eq_zero_iff.mp empty,by omega⟩,by omega⟩

theorem rounds_stay_aligned {moves : List (Move State Action Event)} {last : State} {db : Database}
    (few : cfg.pairs ≤ 100) (positive : 1 ≤ cfg.numMessages) (empty : db.message = [])
    (path : Runs (advance cfg) (State.start cfg db) moves last) :
    (∀ earlier move later, moves = earlier ++ move :: later →
      (∀ who recvd, .exited who recvd ∈ move.seen →
        RoundComplete cfg (observed (earlier ++ [move])) who recvd move.after) ∧
      (∀ who, .returned who ∈ move.seen → BatchComplete cfg (observed (earlier ++ [move])) who move.after)) ∧
    ∀ event ∈ observed moves, event.Faithful := by
  have reached : ∀ {moves last}, Runs (advance cfg) (State.start cfg db) moves last → Aligned cfg (observed moves) last := by
    intro moves last path
    refine path.past (Aligned cfg) (start_aligned positive empty) ?_
    intro past s action next seen aligned stepped
    exact aligned.step few positive (advance_turn stepped)
  constructor
  · intro earlier move later cut
    obtain ⟨before,stepped,_⟩ := path.split cut
    have aligned := reached before
    rw [observed_append,observed_single]
    exact ⟨fun who recvd member => aligned.round few positive (advance_turn stepped) member,
      fun who member => aligned.batch few positive (advance_turn stepped) member⟩
  · exact (reached path).faithful

-- One pair, two messages a batch; the first poll of the server gets half of one.
def onePair : Bench := ⟨1,2,1,1⟩

def firstRound : List Action :=
  [.send (.client 0) 10,.send (.client 0) 11,.commit (.client 0) 1 {},.recv (.server 0) {},.commit (.client 0) 0 {},
    .callback (.client 0),.callback (.client 0),.recv (.client 0) {},.recv (.server 0) {},.leave (.server 0),
    .send (.server 0) 12,.commit (.server 0) 0 {},.send (.server 0) 13,.callback (.server 0),.commit (.server 0) 0 {},
    .recv (.client 0) {},.callback (.server 0),.leave (.client 0)]

theorem rounds_stay_aligned_first : ∃ moves last earlier, ∃ move : Move State Action Event,
    Runs (advance onePair) (State.start onePair Database.empty) moves last ∧ .returned (.server 0) ∈ observed moves ∧
      .exited (.client 0) 2 ∈ move.seen ∧ RoundComplete onePair (observed (earlier ++ [move])) (.client 0) 2 move.after := by
  obtain ⟨moves,last,path,checked⟩ := run_reaches (advance onePair) (State.start onePair Database.empty)
    (fun moves _ => decide (Event.returned (.server 0) ∈ observed moves ∧ Event.exited (.client 0) 2 ∈ observed moves))
    firstRound (by decide +kernel)
  obtain ⟨returned,left⟩ := of_decide_eq_true checked
  obtain ⟨move,member,here⟩ := List.mem_flatMap.mp left
  obtain ⟨earlier,later,cut⟩ := List.append_of_mem member
  have aligned := rounds_stay_aligned (by decide) (by decide) rfl path
  exact ⟨moves,last,earlier,move,path,returned,here,(aligned.1 earlier move later cut).1 _ _ here⟩

end DbosScheduler.Message
