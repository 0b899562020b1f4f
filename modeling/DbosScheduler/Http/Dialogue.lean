import DbosScheduler.Http.Reading

namespace DbosScheduler.Http
open Machine

-- A connection is a sequence of requests, each with its answer.
structure Exchange (ω : Type) where
  request : Bytes
  text : Bytes
  effect : Option ω

-- The session as a handler gets it: the whole request, with its tokens.
def Session.Presents (r : Session) (request : Bytes) : Prop :=
  r.stream.buf = request ∧ r.automatic = true ∧ ∃ line headers last, feedHead .start request = .request line headers last ∧
    r.tokens = headTokens line headers ++ [last]

def Session.Renders (r : Session) (response : Response) (text : Bytes) : Prop :=
  ∃ date ctx, date.length ≤ 31 ∧ r.detected.render date response = some ctx ∧ ctx.buf = text

inductive Proper {ω : Type} (handler : Handler ω) : Exchange ω → Prop where
  | answered (r : Session) : r.Presents request → handler r = some (response,effect) → r.Renders response text →
      Proper handler ⟨request,text,some effect⟩
  | refused (r : Session) : feedHead .start request = .refused → r.Renders (refusal 400 (bytes "Bad Request")) text →
      Proper handler ⟨request,text,none⟩
  | overloaded (r : Session) : r.Renders (refusal 503 (bytes "Service Unavailable")) text →
      Proper handler ⟨[],text,none⟩

def Exchange.calls {ω : Type} (e : Exchange ω) : List (Event ω) := e.effect.toList.map .called

def requests {ω : Type} (exchanges : List (Exchange ω)) : Bytes := exchanges.flatMap Exchange.request
def texts {ω : Type} (exchanges : List (Exchange ω)) : Bytes := exchanges.flatMap Exchange.text

-- A response on its way: the text is in the buffer, and the first bytes of it are out.
structure Sending (r : Session) (out earlier text : Bytes) : Prop where
  buf : r.stream.buf = text
  low : 0 ≤ r.stream.totalBytes
  high : r.stream.totalBytes ≤ text.length
  out : out = earlier ++ text.take r.stream.totalBytes.toNat
  state : r.state = .write ∨ (r.state = .init ∧ r.stream.totalBytes = text.length)

def Standing {ω : Type} (r : Session) (exchanges : List (Exchange ω)) (input output : Bytes) : Prop :=
  match r.state with
  | .init => input = requests exchanges ∧ output = texts exchanges
  | .read => ∃ phase : Phase, phase.Valid ∧ phase.Held r [] ∧ input = requests exchanges ++ r.stream.buf ∧
      output = texts exchanges
  | .write => input = requests exchanges ∧ ∃ earlier last, exchanges = earlier ++ [last] ∧
      Sending r output (texts earlier) last.text
  | .nop => False

structure Chat {ω : Type} (handler : Handler ω) (r : Session) (input output : Bytes) (calls : List (Event ω)) : Prop where
  held : ∃ exchanges : List (Exchange ω), (∀ e ∈ exchanges, Proper handler e) ∧
    calls = exchanges.flatMap Exchange.calls ∧ Standing r exchanges input output

-- A connection that is over: the last answer may have been cut off.
structure Over {ω : Type} (handler : Handler ω) (input output : Bytes) (calls : List (Event ω)) : Prop where
  held : ∃ exchanges : List (Exchange ω), (∀ e ∈ exchanges, Proper handler e) ∧
    calls = exchanges.flatMap Exchange.calls ∧ requests exchanges <+: input ∧
    (output = texts exchanges ∨
      ∃ earlier last, exchanges = earlier ++ [last] ∧ ∃ part, part <+: last.text ∧ output = texts earlier ++ part)

-- What a turn of a reading session comes to when it gets some bytes.
inductive Heard {ω : Type} (handler : Handler ω) (date : Bytes) (w : Work) (phase : Phase) (got : Bytes) :
    Work → List (Event ω) → Prop where
  | gone {v : Work} : v.received = w.received ++ got → v.sent = w.sent → v.session.endSession = true →
      Heard handler date w phase got v []
  | waits {v : Work} : v.received = w.received ++ got → v.sent = w.sent → v.session.state = .read →
      feed phase got = .waits next → next.Held v.session [] → Heard handler date w phase got v []
  | refused (u : Work) : u.received = w.received ++ got → u.sent = w.sent → feed phase got = .refused →
      u.errorResponse date 400 (bytes "Bad Request") = some v → Heard handler date w phase got v []
  | answered (u : Work) : u.received = w.received ++ got → u.sent = w.sent → u.session.Presents (phase.print ++ got) →
      handler u.session = some (response,effect) → u.respond date response = some v →
      Heard handler date w phase got v [.called effect]
  | failed {v : Work} (r : Session) : v.received = w.received ++ got → r.Presents (phase.print ++ got) → handler r = none →
      Heard handler date w phase got v [.crashed]

variable {ω : Type} {handler : Handler ω} {w v : Work} {out earlier text : Bytes}

-- What a read adds to a session.
def Session.extended (r : Session) (got : Bytes) (allocated : Bool) (totalBytes : Int) (capacity : Nat) : Session :=
  {r with stream:={r.stream with
    buf:=r.stream.buf ++ got,allocated:=allocated,totalBytes:=totalBytes,capacity:=capacity}}

theorem Phase.Held.used {phase : Phase} {r : Session} (held : phase.Held r []) :
    r.stream.index = r.stream.length ∧ r.stream.buf = phase.print := by
  cases phase with
  | head draft => exact ⟨held.1.used,by rw [held.1.buf,List.append_nil]; rfl⟩
  | body line headers got => exact ⟨held.1.used,by rw [held.1.buf,List.append_nil]; rfl⟩

theorem Phase.Held.extended {phase : Phase} {r : Session} (held : phase.Held r []) (got : Bytes) (allocated : Bool)
    (totalBytes : Int) (capacity : Nat) : phase.Held (r.extended got allocated totalBytes capacity) got := by
  cases phase with
  | head draft =>
    obtain ⟨here,tokens,automatic⟩ := held
    have buf := here.buf
    rw [List.append_nil] at buf
    exact ⟨⟨here.here,here.knows,⟨here.stands.index,here.stands.token⟩,by simp [Session.extended,buf]⟩,tokens,automatic⟩
  | body line headers had =>
    obtain ⟨here,tokens,automatic⟩ := held
    have buf := here.buf
    rw [List.append_nil] at buf
    exact ⟨⟨here.ahead,here.state,here.metaState,here.amount,here.consumed,here.index,here.token,
      by simp [Session.extended,buf]⟩,tokens,automatic⟩

theorem Phase.Held.left {phase : Phase} {r : Session} (held : phase.Held r rest) :
    (r.stream.length - r.stream.index).toNat = rest.length := by
  cases phase with
  | head draft => exact held.1.left
  | body line headers got => exact held.1.left

theorem Phase.Held.buf {phase : Phase} {r : Session} (held : phase.Held r rest) : r.stream.buf = phase.print ++ rest := by
  cases phase with
  | head draft => exact held.1.buf
  | body line headers got =>
    rw [held.1.buf,Phase.print,List.append_assoc]

theorem Phase.Held.automatic {phase : Phase} {r : Session} (held : phase.Held r rest) : r.automatic = true := by
  cases phase with
  | head draft => exact held.2.2
  | body line headers got => exact held.2.2

variable {date : Bytes} {events : List (Event ω)} {phase : Phase}

theorem Phase.Held.reading {r : Session} (held : phase.Held r rest) : phase.Held r.reading rest := by
  cases phase <;> exact held

variable {input output : Bytes} {calls : List (Event ω)} {exchanges : List (Exchange ω)} {e : Exchange ω} {r : Session}

theorem requests_snoc : requests (exchanges ++ [e]) = requests exchanges ++ e.request := by simp [requests]

theorem texts_snoc : texts (exchanges ++ [e]) = texts exchanges ++ e.text := by simp [texts]

-- A new exchange begins with its answer under way.
theorem Sending.standing (sends : Sending r output (texts exchanges) e.text) (asked : input = requests (exchanges ++ [e])) :
    Standing r (exchanges ++ [e]) input output := by
  unfold Standing
  rcases sends.state with writing | ⟨initial,finished⟩
  · rw [writing]
    exact ⟨asked,exchanges,e,rfl,sends⟩
  · rw [initial]
    refine ⟨asked,?_⟩
    rw [sends.out,finished,Int.toNat_natCast,List.take_length,texts_snoc]

theorem Sending.chat (proper : ∀ e ∈ exchanges, Proper handler e) (called : calls = exchanges.flatMap Exchange.calls)
    (new : Proper handler e) (sends : Sending r output (texts exchanges) e.text)
    (asked : input = requests exchanges ++ e.request) : Chat handler r input output (calls ++ e.calls) := by
  refine ⟨exchanges ++ [e],?_,?_,sends.standing (by rw [asked,requests_snoc])⟩
  · intro other member
    rcases List.mem_append.mp member with old | latest
    · exact proper other old
    · rw [List.mem_singleton.mp latest]
      exact new
  · simp [called]

theorem Chat.ended (chat : Chat handler r input output calls) : Over handler input output calls := by
  obtain ⟨exchanges,proper,called,standing⟩ := chat
  refine ⟨exchanges,proper,called,?_⟩
  unfold Standing at standing
  split at standing
  · obtain ⟨rfl,rfl⟩ := standing
    exact ⟨List.prefix_rfl,.inl rfl⟩
  · obtain ⟨phase,_,_,rfl,rfl⟩ := standing
    exact ⟨List.prefix_append _ _,.inl rfl⟩
  · obtain ⟨rfl,earlier,last,rfl,sends⟩ := standing
    exact ⟨List.prefix_rfl,.inr ⟨earlier,last,rfl,_,List.take_prefix _ _,sends.out⟩⟩
  · exact standing.elim

-- Time only matters for when a session ends.
theorem Chat.tick (chat : Chat handler r input output calls) (timeout : Int) :
    Chat handler {r with timeout:=timeout} input output calls := by
  obtain ⟨exchanges,proper,called,standing⟩ := chat
  refine ⟨exchanges,proper,called,?_⟩
  unfold Standing at standing ⊢
  dsimp only
  split at standing <;> rename_i state
  · exact standing
  · obtain ⟨phase,valid,held,rest⟩ := standing
    exact ⟨phase,valid,by cases phase <;> exact held,rest⟩
  · obtain ⟨asked,earlier,last,same,sends⟩ := standing
    exact ⟨asked,earlier,last,same,sends.buf,sends.low,sends.high,sends.out,.inl state⟩
  · exact standing

variable {server following : Server} {past seen : List (Seen ω)} {base : List (Option Session)}

end DbosScheduler.Http
