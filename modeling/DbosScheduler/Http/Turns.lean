import DbosScheduler.Http.Session

namespace DbosScheduler.Http
open Machine

-- What each operation of a session can do, said once.

def Stream.unsent (s : Stream) : Bytes := s.buf.drop s.totalBytes.toNat

-- The work after a write that took `count` bytes.
def Work.advanced (w : Work) (count : Nat) (rest : List WriteResult) : Work :=
  {w with
    session:={w.session with stream:={w.session.stream with totalBytes:=w.session.stream.totalBytes+count}}
    writes:=rest
    sent:=w.sent ++ w.session.stream.unsent.take count}

variable {w v : Work} {going : Bool}

theorem advanced_zero (w : Work) (rest : List WriteResult) : w.advanced 0 rest = {w with writes:=rest} := by
  simp [Work.advanced]

theorem writeClientSocket_cases (wrote : w.writeClientSocket = some (v,going)) :
    ∃ count rest, count ≤ w.session.stream.unsent.length ∧ v = w.advanced count rest := by
  dsimp only [Work.writeClientSocket] at wrote
  split at wrote
  · cases wrote
  · rename_i count stale rest _
    split at wrote <;> cases wrote
    rename_i fits
    exact ⟨count,rest,Nat.le_of_not_lt fun more => fits (.inl more),rfl⟩
  · rename_i rest _
    cases wrote
    exact ⟨0,rest,Nat.zero_le _,(advanced_zero w rest).symm⟩
  · rename_i rest _
    cases wrote
    exact ⟨0,rest,Nat.zero_le _,(advanced_zero w rest).symm⟩

def Work.closing (w : Work) : Work := {w with session:={w.session with endSession:=true}}
def Work.pausing (w : Work) : Work := {w with session:={w.session with state:=.write,timeout:=20}}

-- hs_write_response with the whole response sent on a connection that is kept.
def Work.renewing (w : Work) : Work :=
  let w := Work.freeBuffer {w with session:={w.session with state:=.init}}
  {w with session:={w.session with timeout:=120}}

inductive Wrote (w : Work) : Work → Prop where
  | closing : Wrote w w.closing
  | pausing : w.session.stream.totalBytes ≠ w.session.stream.length → Wrote w w.pausing
  | renewing : w.session.stream.totalBytes = w.session.stream.length → w.session.keepAlive = true → Wrote w w.renewing

theorem writeResponse_cases (wrote : w.writeResponse = some v) :
    ∃ count rest, count ≤ w.session.stream.unsent.length ∧ Wrote (w.advanced count rest) v := by
  obtain ⟨⟨u,going⟩,socket,wrote⟩ := Option.bind_eq_some_iff.mp wrote
  obtain ⟨count,rest,fits,rfl⟩ := writeClientSocket_cases socket
  refine ⟨count,rest,fits,?_⟩
  dsimp only at wrote
  split at wrote
  · cases wrote
    exact .closing
  · split at wrote
    · rename_i unfinished
      cases wrote
      exact .pausing unfinished
    · rename_i finished
      split at wrote <;> cases wrote
      · rename_i kept
        exact .renewing (not_not.mp finished) kept
      · exact .closing

-- The session that answers, with its own buffer given back, and the text in its place.
def Session.detected (r : Session) : Session := if r.automatic then r.autoDetectKeepAlive else r

def Work.loaded (w : Work) (ctx : Printer) : Work :=
  let w := Work.freeBuffer {w with session:=w.session.detected,memused:=w.memused+ctx.capacity}
  {w with session:={w.session with
    state:=.write
    stream:={w.session.stream with buf:=ctx.buf,allocated:=true,totalBytes:=0,capacity:=ctx.capacity}}}

theorem respond_cases {date : Bytes} {response : Response} (responded : w.respond date response = some v) :
    ∃ ctx, w.session.detected.render date response = some ctx ∧ (w.loaded ctx).writeResponse = some v := by
  obtain ⟨ctx,rendered,responded⟩ := Option.bind_eq_some_iff.mp responded
  exact ⟨ctx,rendered,responded⟩

def refusal (code : Int) (message : Bytes) : Response :=
  {(({} : Response).setStatus code).header (bytes "Content-Type") (bytes "text/plain") with body:=message}

theorem errorResponse_cases {date message : Bytes} {code : Int} (responded : w.errorResponse date code message = some v) :
    ∃ u, w.respond date (refusal code message) = some u ∧ u.writeResponse = some v :=
  Option.bind_eq_some_iff.mp responded

-- A response is under way or sent when http_respond returns.
theorem writeResponse_state (wrote : w.writeResponse = some v) (before : w.session.state ≠ .read) :
    v.session.state ≠ .read := by
  obtain ⟨count,rest,_,how⟩ := writeResponse_cases wrote
  cases how with
  | closing => exact before
  | pausing _ => exact nofun
  | renewing _ _ =>
    unfold Work.renewing Work.freeBuffer
    dsimp only
    split <;> exact nofun

theorem respond_state {date : Bytes} {response : Response} (responded : w.respond date response = some v) :
    v.session.state ≠ .read := by
  obtain ⟨ctx,_,wrote⟩ := respond_cases responded
  exact writeResponse_state wrote nofun

-- What becomes of a request that has been read as far as it goes.
variable {ω : Type}

inductive Outcome (handler : Handler ω) (date : Bytes) (w : Work) (token : Token) : Work → List (Event ω) → Prop where
  | refused : token.type = .error → w.errorResponse date 400 (bytes "Bad Request") = some u →
      Outcome handler date w token u []
  | failed : token.type = .body ∨ token.type = .bodyStream → handler (w.session.called token) = none →
      Outcome handler date w token {w with session:=w.session.called token} [.crashed]
  | answered : token.type = .body ∨ token.type = .bodyStream → handler (w.session.called token) = some (response,effect) →
      Work.respond {w with session:=w.session.called token} date response = some u →
      Outcome handler date w token u [.called effect]
  | chunk : token.type = .chunkBody → Outcome handler date w token {w with session:={w.session with state:=.nop}} [.crashed]
  | waits : token.type = .none → Outcome handler date w token w []

-- The tokens after which the session goes on reading.
def TokenType.inside : TokenType → Bool
  | .method | .target | .version | .headerKey | .headerVal | .reqEnd | .eof => true
  | _ => false

variable {handler : Handler ω} {date : Bytes} {token : Token} {events : List (Event ω)}

theorem handle_inside (inside : token.type.inside = true) : w.handle handler date token = some (w,[]) := by
  unfold Work.handle
  cases type : token.type <;> simp_all [TokenType.inside]

theorem handle_request (request : token.type = .body ∨ token.type = .bodyStream) :
    w.handle handler date token =
      match handler (w.session.called token) with
      | none => some ({w with session:=w.session.called token},[.crashed])
      | some (response,effect) =>
        (Work.respond {w with session:=w.session.called token} date response).map fun v => (v,[.called effect]) := by
  unfold Work.handle
  rcases request with type | type <;> rw [type] <;> dsimp only
  all_goals
    generalize handler (w.session.called token) = answer
    cases answer with
    | none => rfl
    | some pair => exact Option.map_eq_bind.symm

theorem handle_cases (inside : token.type.inside = false) (handled : w.handle handler date token = some (v,events)) :
    Outcome handler date w token v events ∧ (token.type = .none ∨ v.session.state ≠ .read) := by
  have asked : token.type = .body ∨ token.type = .bodyStream →
      Outcome handler date w token v events ∧ (token.type = .none ∨ v.session.state ≠ .read) := by
    intro request
    rw [handle_request request] at handled
    split at handled
    · rename_i failed
      cases handled
      exact ⟨.failed request failed,.inr nofun⟩
    · rename_i response effect answered
      obtain ⟨u,responded,same⟩ := Option.map_eq_some_iff.mp handled
      cases same
      exact ⟨.answered request answered responded,.inr (respond_state responded)⟩
  cases type : token.type
  case error =>
    rw [Work.handle,type] at handled
    obtain ⟨u,responded,same⟩ := Option.bind_eq_some_iff.mp handled
    cases same
    obtain ⟨t,first,second⟩ := errorResponse_cases responded
    exact ⟨.refused type responded,.inr (writeResponse_state second (respond_state first))⟩
  case body =>
    rw [← type]
    exact asked (.inl type)
  case bodyStream =>
    rw [← type]
    exact asked (.inr type)
  case chunkBody =>
    rw [Work.handle,type] at handled
    cases handled
    exact ⟨.chunk type,.inr nofun⟩
  case none =>
    rw [Work.handle,type] at handled
    cases handled
    exact ⟨.waits type,.inl rfl⟩
  all_goals
    rw [type] at inside
    cases inside

-- A turn of the loop: it goes on behind a token from inside the head, and else it ends.
theorem process_inside (reading : w.session.state = .read) (inside : w.session.parsed.2.type.inside = true) (fuel : Nat) :
    w.process handler date (fuel+1) = Work.process handler date fuel {w with session:=w.session.parsed.1} := by
  have more : w.session.parsed.2.type ≠ .none := by
    intro nothing
    rw [nothing] at inside
    cases inside
  have still : w.session.parsed.1.state = .read := reading
  conv_lhs => unfold Work.process
  dsimp only
  rw [handle_inside inside]
  simp only [bind,Option.bind_some,if_pos (And.intro more still),List.nil_append]
  exact Option.bind_fun_some _

theorem process_last (inside : w.session.parsed.2.type.inside = false) (fuel : Nat) :
    w.process handler date (fuel+1) =
      Work.handle handler date {w with session:=w.session.parsed.1} w.session.parsed.2 := by
  conv_lhs => unfold Work.process
  dsimp only
  cases handled : Work.handle handler date {w with session:=w.session.parsed.1} w.session.parsed.2 with
  | none => rfl
  | some result =>
    obtain ⟨v,events⟩ := result
    have ended : ¬(w.session.parsed.2.type ≠ .none ∧ v.session.state = .read) := by
      rintro ⟨more,reading⟩
      exact (handle_cases inside handled).2.elim more fun other => other reading
    simp only [bind,Option.bind_some,if_neg ended]
    rfl

-- What every token keeps, holds of the session that the outcome is about.
theorem process_cases (Keeps : Session → Prop) (start : Keeps w.session) (reading : w.session.state = .read)
    (keeps : ∀ r, Keeps r → Keeps r.parsed.1) (done : w.process handler date fuel = some (v,events)) :
    ∃ session token, Keeps session ∧ session.state = .read ∧
      Outcome handler date {w with session:=session} token v events := by
  induction fuel generalizing w with
  | zero => cases done
  | succ fuel ih =>
    cases inside : w.session.parsed.2.type.inside with
    | true =>
      rw [process_inside reading inside] at done
      exact ih (w:={w with session:=w.session.parsed.1}) (keeps _ start) reading done
    | false =>
      rw [process_last inside] at done
      exact ⟨w.session.parsed.1,w.session.parsed.2,keeps _ start,reading,(handle_cases inside done).1⟩

def Session.reading (r : Session) : Session := {r with state:=.read,timeout:=20}

theorem readAndProcess_cases {reads : List ReadResult} (done : w.readAndProcess handler date reads = some (v,events)) :
    ∃ u, (Work.readSocket {w with session:=w.session.reading} reads = some (u,false) ∧ v = u.closing ∧ events = []) ∨
      (Work.readSocket {w with session:=w.session.reading} reads = some (u,true) ∧
        u.process handler date ((u.session.stream.length - u.session.stream.index).toNat+2) = some (v,events)) := by
  obtain ⟨⟨u,going⟩,read,done⟩ := Option.bind_eq_some_iff.mp done
  cases going with
  | false =>
    cases done
    exact ⟨u,.inl ⟨read,rfl,rfl⟩⟩
  | true => exact ⟨u,.inr ⟨read,done⟩⟩

def Session.initial (r : Session) : Session := {state:=.read,automatic:=true,timeout:=r.timeout}

-- http_session, by what it comes to.
inductive Turned (handler : Handler ω) (io : Io) (w : Work) : Work → List (Event ω) → Bool → Prop where
  | overloaded : w.session.state = .init → maxTotalEstMemUsage < w.memused →
      Work.errorResponse {w with session:=w.session.initial} io.date 503 (bytes "Service Unavailable") = some u →
      Turned handler io w u [] false
  | begins : w.session.state = .init →
      Work.readAndProcess handler io.date io.reads {w with session:=w.session.initial} = some (u,seen) →
      Turned handler io w u seen u.session.endSession
  | reads : w.session.state = .read → w.readAndProcess handler io.date io.reads = some (u,seen) →
      Turned handler io w u seen u.session.endSession
  | writes : w.session.state = .write → w.writeResponse = some u → Turned handler io w u [] u.session.endSession
  | rests : w.session.state = .nop → Turned handler io w w [] w.session.endSession

theorem turn_cases {io : Io} (turned : w.turn handler io = some (v,events,ending)) : Turned handler io w v events ending := by
  unfold Work.turn at turned
  split at turned <;> rename_i state
  · dsimp only at turned
    split at turned
    · rename_i much
      obtain ⟨u,responded,same⟩ := Option.bind_eq_some_iff.mp turned
      cases same
      exact .overloaded state much responded
    · obtain ⟨⟨u,seen⟩,read,same⟩ := Option.bind_eq_some_iff.mp turned
      cases same
      exact .begins state read
  · obtain ⟨⟨u,seen⟩,read,same⟩ := Option.bind_eq_some_iff.mp turned
    cases same
    exact .reads state read
  · obtain ⟨u,wrote,same⟩ := Option.bind_eq_some_iff.mp turned
    cases same
    exact .writes state wrote
  · cases turned
    exact .rests state

-- A step of the server is a turn of one session, which may just have been accepted, or a
-- tick of its timer.
def Server.Base (server : Server) (base : List (Option Session)) (i : Nat) (r : Session) : Prop :=
  (base = server.sessions ∧ base[i]? = some (some r)) ∨
    (base = server.sessions ++ [some ({} : Session)] ∧ i = server.sessions.length ∧ r = {})

theorem Server.Base.found {server : Server} (here : server.Base base i r) : base[i]? = some (some r) := by
  rcases here with ⟨_,found⟩ | ⟨rfl,rfl,rfl⟩
  · exact found
  · simp

inductive Stepped (handler : Handler ω) (server : Server) : Server → List (Seen ω) → Prop where
  | turn : server.Base base i r → io.date.length ≤ 31 →
      Turned handler io ⟨r,server.memused,io.writes,[],[]⟩ u seen ending →
      Stepped handler server ⟨(u.slot ending).2,base.set i (u.slot ending).1,seen.any Event.isCrash⟩
        [⟨i,seen,u.received,u.sent⟩]
  | timer : server.sessions[i]? = some (some r) → Stepped handler server (server.timer i r) []

theorem session_cases {server next : Server} {r : Session} {io : Io} {seen : List (Seen ω)}
    (stepped : server.session handler i r io = some (next,seen)) :
    ∃ w events ending, io.date.length ≤ 31 ∧ Turned handler io ⟨r,server.memused,io.writes,[],[]⟩ w events ending ∧
      next = ⟨(w.slot ending).2,server.sessions.set i (w.slot ending).1,events.any Event.isCrash⟩ ∧
      seen = [⟨i,events,w.received,w.sent⟩] := by
  unfold Server.session at stepped
  split at stepped
  · cases stepped
  · rename_i short
    obtain ⟨⟨w,events,ending⟩,turned,stepped⟩ := Option.bind_eq_some_iff.mp stepped
    dsimp only at stepped
    split at stepped <;> cases stepped
    exact ⟨w,events,ending,Nat.le_of_not_lt short,turn_cases turned,rfl,rfl⟩

theorem advance_cases {server next : Server} {seen : List (Seen ω)}
    (stepped : advance handler server action = some (next,seen)) :
    server.crashed = false ∧ Stepped handler server next seen := by
  cases action with
  | accept io =>
    simp only [advance] at stepped
    split at stepped
    · cases stepped
    · rename_i up
      obtain ⟨w,events,ending,short,turned,rfl,rfl⟩ := session_cases stepped
      exact ⟨by simpa using up,.turn (.inr ⟨rfl,rfl,rfl⟩) short turned⟩
  | ready i io =>
    simp only [advance] at stepped
    split at stepped
    · cases stepped
    · rename_i up
      obtain ⟨r,found,stepped⟩ := Option.bind_eq_some_iff.mp stepped
      obtain ⟨w,events,ending,short,turned,rfl,rfl⟩ := session_cases stepped
      exact ⟨by simpa using up,.turn (.inl ⟨rfl,Option.join_eq_some_iff.mp found⟩) short turned⟩
  | timer i =>
    simp only [advance] at stepped
    split at stepped
    · cases stepped
    · rename_i up
      obtain ⟨r,found,stepped⟩ := Option.bind_eq_some_iff.mp stepped
      cases stepped
      exact ⟨by simpa using up,.timer (Option.join_eq_some_iff.mp found)⟩

end DbosScheduler.Http
