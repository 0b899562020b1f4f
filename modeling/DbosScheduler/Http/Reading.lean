import DbosScheduler.Http.Feeding

namespace DbosScheduler.Http

-- The parts of a stream that the parser leaves alone.
def Stream.core (s : Stream) : Stream := {s with index:=0,anchor:=0,token:={},consumed:=false}

def Stream.fresh (s : Stream) : Stream := {s with consumed:=false}

-- A session in the head, and one in the body, with `rest` still to be parsed.
structure At (draft : Draft) (p : Parser) (s : Stream) (rest : Bytes) : Prop where
  here : draft.Open
  knows : Knows draft p
  stands : Stands draft s
  buf : s.buf = draft.print ++ rest

structure InBody (line : RequestLine) (headers : List Header) (got : Bytes) (p : Parser) (s : Stream) (rest : Bytes) :
    Prop where
  ahead : BodyAhead line headers got
  state : p.state = if got = [] then .hn else .bd
  metaState : p.metaState = .bdy
  amount : p.contentLength = (framing headers).amount
  consumed : p.bodyConsumed = got.length
  index : s.index = headSize line headers + got.length
  token : s.token = if got = [] then {} else ⟨headSize line headers,got.length,.body⟩
  buf : s.buf = (Draft.done line headers).print ++ (got ++ rest)

inductive Settles (core : Stream) (tokens : List Token) : Verdict → Parser → Stream → Token → Prop where
  | waitsHead : At draft p s [] → s.core = core → tokens = draft.tokens →
      Settles core tokens (.waits (.head draft)) p s {}
  | waitsBody : InBody line headers got p s [] → s.core = core → tokens = headTokens line headers →
      Settles core tokens (.waits (.body line headers got)) p s {}
  | refused : token.type = .error → Settles core tokens .refused p s token
  | request : s.core = core → tokens = headTokens line headers → Settles core tokens (.request line headers last) p s last

def Phase.Held (r : Session) (rest : Bytes) : Phase → Prop
  | .head draft => At draft r.parser r.stream rest ∧ r.tokens = draft.tokens ∧ r.automatic = true
  | .body line headers got =>
    InBody line headers got r.parser r.stream rest ∧ r.tokens = headTokens line headers ∧ r.automatic = true

-- The session as the loop of tokens leaves it, with the last token.
structure Decided (before : Session) (verdict : Verdict) (after : Session) (token : Token) : Prop where
  same : ∃ parser stream tokens, after = {before with parser:=parser,stream:=stream,tokens:=tokens}
  waits : ∀ phase, verdict = .waits phase → token.type = .none ∧ phase.Held after [] ∧ after.stream.core = before.stream.core
  refused : verdict = .refused → token.type = .error
  request : ∀ line headers last, verdict = .request line headers last →
    token = last ∧ after.tokens = headTokens line headers ++ [last] ∧ after.stream.core = before.stream.core

-- The parser does what the verdicts say. First the loop over characters.
variable {p q : Parser} {s t : Stream} {c : UInt8} {draft next : Draft} {rest : Bytes}
variable {line : RequestLine} {headers : List Header} {got : Bytes}

theorem quiet_metaState (draft : Draft) : draft.metaState ≠ .sen ∧ draft.metaState ≠ .reqend := by
  have settled (framing : Framing) : framing.settled ≠ .sen ∧ framing.settled ≠ .reqend := by
    cases framing <;> simp [Framing.settled]
  cases draft with
  | inKey line headers key =>
    simp only [Draft.metaState,Framing.inKey]
    split
    · split_ifs <;> simp
    · exact settled _
  | inGap line headers key gap =>
    simp only [Draft.metaState,Framing.inGap]
    split
    · split_ifs <;> simp
    · exact settled _
  | inValue line headers header =>
    simp only [Draft.metaState,Framing.inValue]
    split
    · split_ifs <;> simp
    · exact settled _
  | valueCr line headers header => exact settled _
  | valueLf line headers => exact settled _
  | endCr line headers => exact settled _
  | _ => simp [Draft.metaState]

theorem metaEmit_quiet (silent : p.metaState ≠ .sen ∧ p.metaState ≠ .reqend) : metaEmit p = (p,{}) := by
  unfold metaEmit
  split
  · rename_i now
    exact absurd now silent.1
  · rename_i now
    exact absurd now silent.2
  · rfl

theorem At.metaEmit (here : At draft p s rest) : metaEmit p = (p,{}) := by
  apply metaEmit_quiet
  rw [here.knows.metaState]
  exact quiet_metaState draft

theorem InBody.metaEmit (here : InBody line headers got p s rest) : metaEmit p = (p,{}) := by
  apply metaEmit_quiet
  rw [here.metaState]
  exact ⟨nofun,nofun⟩

theorem InBody.fresh (here : InBody line headers got p s rest) : InBody line headers got p s.fresh rest :=
  ⟨here.ahead,here.state,here.metaState,here.amount,here.consumed,here.index,here.token,here.buf⟩

theorem InBody.place (here : InBody line headers got p s rest) :
    s.buf = ((Draft.done line headers).print ++ got) ++ rest ∧
      s.index = ((Draft.done line headers).print ++ got).length := by
  refine ⟨by rw [here.buf,List.append_assoc],?_⟩
  rw [here.index,List.length_append]
  exact (Int.natCast_add _ _).symm

theorem InBody.used (here : InBody line headers got p s []) : s.index = s.buf.length := by
  obtain ⟨buf,index⟩ := here.place
  rw [index,buf,List.append_nil]

theorem At.place (here : At draft p s rest) : s.buf = draft.print ++ rest ∧ s.index = draft.print.length :=
  ⟨here.buf,here.stands.index⟩

theorem At.used (here : At draft p s []) : s.index = s.buf.length := by
  rw [here.stands.index,here.buf,List.append_nil]

theorem moved_core (s : Stream) (draft : Draft) : (s.moved draft).core = s.core := rfl

theorem ending_type {framing : Framing} (now : framing.ending size ≠ .none) :
    framing.ending size = .body ∨ framing.ending size = .bodyStream := by
  cases framing with
  | undecided => exact .inl rfl
  | chunked => exact .inr rfl
  | length contentLength =>
    simp only [Framing.ending] at now ⊢
    split_ifs at now ⊢
    · exact .inl rfl
    · exact absurd rfl now
    · exact .inr rfl

theorem Ending.type (ending : Ending line headers rest last) : last.type = .body ∨ last.type = .bodyStream := by
  rcases ending with ⟨now,rfl⟩ | ⟨_,_,_,rfl⟩
  · exact ending_type now
  · exact .inl rfl

-- What settles in the parser is decided for the session.
theorem Settles.decided {r : Session} (settled : Settles r.stream.core r.tokens verdict q t token) (said : verdict.Says all)
    (automatic : r.automatic = true) :
    token.type.inside = false ∧
      Decided r verdict {r with parser:=q,stream:=t,tokens:=if token.type = .none then r.tokens else r.tokens ++ [token]}
        token := by
  cases settled with
  | waitsHead here core tokens =>
    refine ⟨rfl,⟨⟨_,_,_,rfl⟩,?_,nofun,nofun⟩⟩
    rintro phase ⟨⟩
    exact ⟨rfl,⟨here,tokens,automatic⟩,core⟩
  | waitsBody here core tokens =>
    refine ⟨rfl,⟨⟨_,_,_,rfl⟩,?_,nofun,nofun⟩⟩
    rintro phase ⟨⟩
    exact ⟨rfl,⟨here,tokens,automatic⟩,core⟩
  | refused error =>
    refine ⟨by rw [error]; rfl,⟨⟨_,_,_,rfl⟩,nofun,fun _ => error,nofun⟩⟩
  | request core tokens =>
    obtain ⟨_,rest,_,ending⟩ := said
    have given : token.type ≠ .none ∧ token.type.inside = false := by
      rcases ending.type with type | type <;> rw [type] <;> exact ⟨nofun,rfl⟩
    refine ⟨given.2,⟨⟨_,_,_,rfl⟩,nofun,nofun,?_⟩⟩
    rintro line headers last ⟨⟩
    refine ⟨rfl,?_,core⟩
    simp only [if_neg given.1,tokens]

theorem At.left (here : At draft p s rest) : (s.length - s.index).toNat = rest.length := by
  rw [Stream.length,here.stands.index,here.buf,List.length_append]
  omega

theorem InBody.left (here : InBody line headers got p s rest) : (s.length - s.index).toNat = rest.length := by
  rw [Stream.length,here.place.1,here.place.2,List.length_append]
  omega

theorem At.httpParse (here : At draft p s rest) : httpParse p s = parseLoop (rest.length+1) p s := by
  simp only [DbosScheduler.Http.httpParse,here.metaEmit,here.left,ne_eq,not_true,if_false]

theorem InBody.httpParse (here : InBody line headers got p s rest) : httpParse p s = parseLoop (rest.length+1) p s := by
  simp only [DbosScheduler.Http.httpParse,here.metaEmit,here.left,ne_eq,not_true,if_false]

variable {ω : Type} {handler : Handler ω} {date : Bytes} {w : Work}

end DbosScheduler.Http
