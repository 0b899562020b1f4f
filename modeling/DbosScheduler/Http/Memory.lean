import DbosScheduler.Http.Turns
import Mathlib.Algebra.Ring.Int.Defs
import Mathlib.Algebra.BigOperators.Group.List.Basic

namespace DbosScheduler.Http
open Machine

structure Stream.SameBuffer (s t : Stream) : Prop where
  allocated : t.allocated = s.allocated
  capacity : t.capacity = s.capacity

namespace Stream.SameBuffer
variable {s t u : Stream}

theorem rfl : s.SameBuffer s := ⟨Eq.refl _,Eq.refl _⟩

theorem trans (first : s.SameBuffer t) (second : t.SameBuffer u) : s.SameBuffer u :=
  ⟨second.allocated.trans first.allocated,second.capacity.trans first.capacity⟩

theorem charge (same : s.SameBuffer t) : t.charge = s.charge := by
  rw [Stream.charge,Stream.charge,same.allocated,same.capacity]

end Stream.SameBuffer

-- The parser moves in the buffer: it never gives it up or takes another.
section Parsing
open Stream.SameBuffer

theorem next_sameBuffer (s : Stream) : s.SameBuffer s.next.1 := by
  dsimp only [Stream.next]
  split <;> exact ⟨by rfl,by rfl⟩

theorem consume_sameBuffer (s : Stream) : s.SameBuffer s.consume := by
  unfold Stream.consume
  split <;> exact ⟨by rfl,by rfl⟩

theorem shift_sameBuffer (s : Stream) : s.SameBuffer s.shift := by
  unfold Stream.shift
  split <;> exact ⟨by rfl,by rfl⟩

theorem jump_sameBuffer (s : Stream) (offset : Int) : s.SameBuffer (s.jump offset).1 := by
  dsimp only [Stream.jump]
  split <;> exact ⟨by rfl,by rfl⟩

theorem enterState_sameBuffer (p : Parser) (s : Stream) (old new : State) :
    s.SameBuffer (enterState p s old new).2.1 := by
  dsimp only [enterState]
  have begun : s.SameBuffer (if tokenStart new ≠ .none then s.beginToken (tokenStart new) else s) := by
    split <;> exact ⟨by rfl,by rfl⟩
  cases new <;> exact begun.trans ⟨by rfl,by rfl⟩

theorem readBody_sameBuffer (p : Parser) (s : Stream) (new : State) (emitted : Token) :
    s.SameBuffer (readBody p s new emitted).2.1 := by
  have begun : s.SameBuffer (if p.metaState = .str then s.beginToken .chunkBody else s) := by
    split <;> exact ⟨by rfl,by rfl⟩
  dsimp only [readBody]
  generalize (if p.metaState = .str then s.beginToken .chunkBody else s) = t at begun ⊢
  have jumped := jump_sameBuffer t (int32 (p.contentLength - p.bodyConsumed))
  generalize t.jump (int32 (p.contentLength - p.bodyConsumed)) = landed at jumped ⊢
  obtain ⟨u,reached⟩ := landed
  have moved := begun.trans jumped
  cases reached with
  | true => exact moved.trans ⟨by rfl,by rfl⟩
  | false =>
    dsimp only
    split
    · exact moved.trans (Stream.SameBuffer.trans ⟨by rfl,by rfl⟩ (shift_sameBuffer _))
    · exact moved.trans ⟨by rfl,by rfl⟩

theorem transitionAction_sameBuffer (p : Parser) (s : Stream) (c : UInt8) (old new : State) :
    s.SameBuffer (transitionAction p s c old new).2.1 := by
  have anchored : s.SameBuffer (if old = .hn then s.setAnchor else s) := by
    split <;> exact ⟨by rfl,by rfl⟩
  dsimp only [transitionAction]
  generalize (if old = .hn then s.setAnchor else s) = t at anchored ⊢
  have entered : t.SameBuffer (if old ≠ new then enterState p t old new else (p,t,{})).2.1 := by
    split
    · exact enterState_sameBuffer p t old new
    · exact .rfl
  generalize (if old ≠ new then enterState p t old new else (p,t,{})) = state at entered ⊢
  obtain ⟨q,u,emitted⟩ := state
  have moved := anchored.trans entered
  cases new <;> dsimp only <;> try exact moved.trans ⟨by rfl,by rfl⟩
  · split
    · exact moved
    · split <;> exact moved
  · exact moved.trans (readBody_sameBuffer q u .bd emitted)
  · exact moved.trans (readBody_sameBuffer q u .cb emitted)

theorem parseChar_sameBuffer (p : Parser) (s : Stream) (c : UInt8) : s.SameBuffer (parseChar p s c).2.1 := by
  unfold parseChar
  exact (transitionAction_sameBuffer _ _ _ _ _).trans (consume_sameBuffer _)

theorem parseEnd_sameBuffer (p : Parser) (s : Stream) : s.SameBuffer (parseEnd p s).2.1 := by
  have shifted : s.SameBuffer (if p.state = .cb then s.shift else s) := by
    split
    · exact shift_sameBuffer s
    · exact .rfl
  dsimp only [parseEnd]
  generalize (if p.state = .cb then s.shift else s) = t at shifted ⊢
  split <;> exact shifted

theorem parseLoop_sameBuffer (fuel : Nat) (p : Parser) (s : Stream) : s.SameBuffer (parseLoop fuel p s).2.1 := by
  induction fuel generalizing p s with
  | zero => exact parseEnd_sameBuffer p s
  | succ fuel ih =>
    have read := next_sameBuffer s
    unfold parseLoop
    generalize s.next = taken at read ⊢
    obtain ⟨t,_ | c⟩ := taken
    · exact read.trans (parseEnd_sameBuffer p t)
    · have parsed := read.trans (parseChar_sameBuffer p t c)
      dsimp only
      split
      · exact parsed
      · exact parsed.trans (ih _ _)

theorem httpParse_sameBuffer (p : Parser) (s : Stream) : s.SameBuffer (httpParse p s).2.1 := by
  unfold httpParse
  dsimp only
  split
  · exact .rfl
  · exact parseLoop_sameBuffer _ _ s

end Parsing

-- The account without the session that is at work.
def Work.others (w : Work) : Int := w.memused - w.session.stream.charge

-- A session that waits for its first byte has no buffer.
def Session.Bare (r : Session) : Prop := r.state = .init → r.stream.allocated = false

variable {w v : Work}

theorem charge_free {s : Stream} (free : s.allocated = false) : s.charge = 0 := by
  simp [Stream.charge,free]

theorem freeBuffer_free (w : Work) : w.freeBuffer.session.stream.allocated = false := by
  unfold Work.freeBuffer
  split
  · rfl
  · rename_i without
    simpa using without

theorem freeBuffer_memused (w : Work) : w.freeBuffer.memused = w.others := by
  unfold Work.freeBuffer Work.others Stream.charge
  split <;> simp

theorem advanced_others (w : Work) (count : Nat) (rest : List WriteResult) : (w.advanced count rest).others = w.others := rfl

theorem wrote_account (how : Wrote w v) (bare : w.session.Bare) : v.others = w.others ∧ v.session.Bare := by
  cases how with
  | closing => exact ⟨rfl,bare⟩
  | pausing _ => exact ⟨rfl,nofun⟩
  | renewing _ _ =>
    have free := freeBuffer_free {w with session:={w.session with state:=.init}}
    have memory := freeBuffer_memused {w with session:={w.session with state:=.init}}
    refine ⟨?_,fun _ => free⟩
    simp only [Work.others,Work.renewing,charge_free free,Int.sub_zero]
    exact memory

theorem writeResponse_account (wrote : w.writeResponse = some v) (bare : w.session.Bare) :
    v.others = w.others ∧ v.session.Bare := by
  obtain ⟨count,rest,_,how⟩ := writeResponse_cases wrote
  have kept := wrote_account how bare
  rwa [advanced_others] at kept

theorem detected_stream (r : Session) : r.detected.stream = r.stream := by
  unfold Session.detected Session.autoDetectKeepAlive
  split
  · split <;> rfl
  · rfl

-- The buffer of the request goes, and that of the response comes into the account.
theorem loaded_others (w : Work) (ctx : Printer) : (w.loaded ctx).others = w.others := by
  have memory := freeBuffer_memused {w with session:=w.session.detected,memused:=w.memused+ctx.capacity}
  simp only [Work.others,detected_stream] at memory ⊢
  have all : (w.loaded ctx).memused = w.memused + ctx.capacity - w.session.stream.charge := memory
  have buffer : (w.loaded ctx).session.stream.charge = ctx.capacity := rfl
  rw [all,buffer]
  omega

variable {ω : Type} {handler : Handler ω} {date : Bytes} {events : List (Event ω)}

theorem respond_account {response : Response} (responded : w.respond date response = some v) :
    v.others = w.others ∧ v.session.Bare := by
  obtain ⟨ctx,_,wrote⟩ := respond_cases responded
  have kept := writeResponse_account wrote nofun
  rwa [loaded_others] at kept

theorem errorResponse_account {code : Int} {message : Bytes} (responded : w.errorResponse date code message = some v) :
    v.others = w.others ∧ v.session.Bare := by
  obtain ⟨u,first,second⟩ := errorResponse_cases responded
  obtain ⟨same,bare⟩ := respond_account first
  obtain ⟨again,after⟩ := writeResponse_account second bare
  exact ⟨again.trans same,after⟩

theorem outcome_account (reading : w.session.state = .read) (how : Outcome handler date w token v events) :
    v.others = w.others ∧ v.session.Bare := by
  cases how with
  | refused _ responded => exact errorResponse_account responded
  | failed _ _ => exact ⟨rfl,nofun⟩
  | answered _ _ responded =>
    obtain ⟨same,bare⟩ := respond_account responded
    exact ⟨same,bare⟩
  | chunk _ => exact ⟨rfl,nofun⟩
  | waits _ => exact ⟨rfl,fun state => by rw [reading] at state; cases state⟩

theorem process_account (reading : w.session.state = .read) (done : w.process handler date fuel = some (v,events)) :
    v.others = w.others ∧ v.session.Bare := by
  obtain ⟨session,token,same,still,how⟩ :=
    process_cases (fun r => w.session.stream.SameBuffer r.stream) .rfl reading
      (fun r same => same.trans (httpParse_sameBuffer _ _)) done
  obtain ⟨kept,bare⟩ := outcome_account still how
  refine ⟨kept.trans ?_,bare⟩
  simp only [Work.others,same.charge]

theorem readSocket_account {reads : List ReadResult} (read : w.readSocket reads = some (v,going)) :
    v.others = w.others ∧ v.session.state = w.session.state := by
  unfold Work.readSocket at read
  split at read
  · split at read <;> cases read
    exact ⟨rfl,rfl⟩
  · obtain ⟨⟨stream,result⟩,_,same⟩ := Option.bind_eq_some_iff.mp read
    cases same
    refine ⟨?_,rfl⟩
    simp only [Work.others]
    omega

theorem readAndProcess_account {reads : List ReadResult}
    (done : w.readAndProcess handler date reads = some (v,events)) : v.others = w.others ∧ v.session.Bare := by
  obtain ⟨u,⟨read,rfl,_⟩ | ⟨read,processed⟩⟩ := readAndProcess_cases done
  · obtain ⟨same,state⟩ := readSocket_account read
    exact ⟨same,fun initial => by rw [show u.closing.session.state = .read from state] at initial; cases initial⟩
  · obtain ⟨same,state⟩ := readSocket_account read
    obtain ⟨kept,bare⟩ := process_account state processed
    exact ⟨kept.trans same,bare⟩

theorem turned_account {io : Io} (bare : w.session.Bare) (turned : Turned handler io w v events ending) :
    v.others = w.others ∧ v.session.Bare := by
  have begun (initial : w.session.state = .init) : Work.others {w with session:=w.session.initial} = w.others := by
    simp only [Work.others,charge_free (bare initial)]
    rfl
  cases turned with
  | overloaded initial _ responded =>
    obtain ⟨same,after⟩ := errorResponse_account responded
    exact ⟨same.trans (begun initial),after⟩
  | begins initial read =>
    obtain ⟨same,after⟩ := readAndProcess_account read
    exact ⟨same.trans (begun initial),after⟩
  | reads _ read => exact readAndProcess_account read
  | writes _ wrote => exact writeResponse_account wrote bare
  | rests _ => exact ⟨rfl,bare⟩

-- The account of the server and the buffers of its sessions.
def chargeOf : Option Session → Int
  | none => 0
  | some r => r.stream.charge

def held (sessions : List (Option Session)) : Int := (sessions.map chargeOf).sum

theorem held_set {sessions : List (Option Session)} (found : sessions[i]? = some old) (new : Option Session) :
    held (sessions.set i new) = held sessions - chargeOf old + chargeOf new := by
  induction sessions generalizing i with
  | nil => cases found
  | cons first rest ih =>
    cases i with
    | zero =>
      cases found
      simp only [held,List.set_cons_zero,List.map_cons,List.sum_cons]
      omega
    | succ i =>
      have inner := ih (i:=i) found
      simp only [held,List.set_cons_succ,List.map_cons,List.sum_cons] at inner ⊢
      omega

structure Accounted (server : Server) : Prop where
  balance : server.memused = held server.sessions
  bare : ∀ r, some r ∈ server.sessions → r.Bare

theorem slot_account (w : Work) (ending : Bool) : (w.slot ending).2 = w.others + chargeOf (w.slot ending).1 := by
  cases ending with
  | true =>
    have freed : (w.slot true).2 = w.freeBuffer.memused := rfl
    rw [freed,freeBuffer_memused]
    exact (Int.add_zero _).symm
  | false =>
    have kept : (w.slot false).2 = w.memused := rfl
    have charged : chargeOf (w.slot false).1 = w.session.stream.charge := rfl
    rw [kept,charged,Work.others]
    omega

theorem slot_session (w : Work) (member : (w.slot ending).1 = some r) : r = w.session := by
  cases ending <;> cases member
  rfl

-- A session of the list is replaced: the account moves by what it had and what it has.
theorem Accounted.replace {sessions : List (Option Session)} (balance : memused = held sessions)
    (bare : ∀ r, some r ∈ sessions → r.Bare) (found : sessions[i]? = some (some r)) (w : Work) (ending crashed : Bool)
    (after : w.session.Bare) (others : w.others = memused - r.stream.charge) :
    Accounted ⟨(w.slot ending).2,sessions.set i (w.slot ending).1,crashed⟩ := by
  constructor
  · change (w.slot ending).2 = _
    rw [slot_account,held_set found,others,balance]
    rfl
  · intro other member
    rcases List.mem_or_eq_of_mem_set member with old | new
    · exact bare other old
    · rw [slot_session w new.symm]
      exact after

theorem accounted_step {server next : Server} {seen : List (Seen ω)} (inv : Accounted server)
    (stepped : Stepped handler server next seen) : Accounted next := by
  cases stepped with
  | @turn base i r io w seen ending here _ turned =>
    have extended : server.memused = held base ∧ ∀ r, some r ∈ base → r.Bare := by
      rcases here with ⟨rfl,_⟩ | ⟨rfl,_,_⟩
      · exact ⟨inv.balance,inv.bare⟩
      · refine ⟨by simpa [held,chargeOf,Stream.charge] using inv.balance,?_⟩
        intro r member
        rcases List.mem_append.mp member with old | new
        · exact inv.bare r old
        · cases List.mem_singleton.mp new
          exact fun _ => rfl
    have before : r.Bare := extended.2 r (List.mem_of_getElem? here.found)
    obtain ⟨same,after⟩ := turned_account before turned
    exact .replace extended.1 extended.2 here.found w ending _ after same
  | @timer i r found =>
    exact .replace inv.balance inv.bare found ⟨{r with timeout:=r.timeout-1},server.memused,[],[],[]⟩ _ _
      (inv.bare r (List.mem_of_getElem? found)) rfl

theorem accounted_run {moves : List (Move Server Act (Seen ω))} (path : Runs (advance handler) {} moves last) :
    Accounted last := by
  refine path.invariant Accounted ⟨rfl,by simp⟩ ?_
  intro s action next seen inv stepped
  exact accounted_step inv (advance_cases stepped).2

theorem held_closed {sessions : List (Option Session)} (closed : ∀ slot ∈ sessions, slot = none) : held sessions = 0 := by
  induction sessions with
  | nil => rfl
  | cons slot rest ih =>
    rw [held,List.map_cons,List.sum_cons,closed slot (List.mem_cons_self ..)]
    exact (Int.zero_add _).trans (ih fun other member => closed other (List.mem_cons_of_mem _ member))

-- Nothing is lost from the account and nothing is counted twice: whatever the connections
-- did, it is the sum of the buffers that are there.
theorem memused_accounts (handler : Handler ω) (path : Runs (advance handler) {} moves last) :
    last.memused = held last.sessions ∧
      (∀ r, some r ∈ last.sessions → r.state = .init → r.stream.allocated = false) ∧
      ((∀ slot ∈ last.sessions, slot = none) → last.memused = 0) := by
  have inv := accounted_run path
  exact ⟨inv.balance,inv.bare,fun closed => inv.balance.trans (held_closed closed)⟩

theorem memused_accounts_two : ∃ moves last,
    Runs (advance fun _ => some (({} : Response),())) {} moves last ∧ last.memused = 2048 ∧
      last.memused = held last.sessions := by
  obtain ⟨moves,last,path,much⟩ := run_reaches (advance fun _ => some (({} : Response),())) {}
    (fun _ last => last.memused == 2048)
    [.accept ⟨[],[.data [71],.blocked],[]⟩,.accept ⟨[],[.data [80,79],.blocked],[]⟩] (by decide)
  exact ⟨moves,last,path,by simpa using much,(memused_accounts _ path).1⟩

end DbosScheduler.Http
