import Mathlib.Data.FinEnum
import DbosScheduler.Http.Framing

namespace DbosScheduler.Http

-- Where the parts of a head stand in the buffer.
def lineTokens (line : RequestLine) : List Token := [
  ⟨0,line.method.length,.method⟩,
  ⟨line.method.length+1,line.target.length,.target⟩,
  ⟨line.method.length+1+line.target.length+1,line.version.length,.version⟩]

def keyToken (start : Nat) (key : Bytes) : Token := ⟨start,key.length,.headerKey⟩

def valueToken (start : Nat) (header : Header) : Token :=
  ⟨start+header.key.length+1+header.gap.length,header.value.length,.headerVal⟩

def headerTokens (start : Nat) : List Header → List Token
  | [] => []
  | header :: rest =>
    keyToken start header.key :: valueToken start header :: headerTokens (start+(header.print.length+2)) rest

def headTokens (line : RequestLine) (headers : List Header) : List Token :=
  lineTokens line ++ headerTokens (line.print.length+2) headers

-- The tokens that the parser has given out, and the one it is in.
def Draft.tokens : Draft → List Token
  | .start | .inMethod _ => []
  | .afterMethod method | .inTarget method _ => [⟨0,method.length,.method⟩]
  | .afterTarget method target => [⟨0,method.length,.method⟩,⟨method.length+1,target.length,.target⟩]
  | .inVersion line => (lineTokens line).take 2
  | .lineCr line | .lineLf line => lineTokens line
  | .inKey line headers _ => headTokens line headers
  | .inGap line headers key _ => headTokens line headers ++ [keyToken (printLines line headers).length key]
  | .inValue line headers header => headTokens line headers ++ [keyToken (printLines line headers).length header.key]
  | .valueCr line headers header => headTokens line (headers ++ [header])
  | .valueLf line headers | .endCr line headers | .done line headers => headTokens line headers

def Draft.pending : Draft → Token
  | .inMethod method => ⟨0,method.length,.method⟩
  | .inTarget method target => ⟨method.length+1,target.length,.target⟩
  | .inVersion line => ⟨line.method.length+1+line.target.length+1,line.version.length,.version⟩
  | .inKey line headers key => keyToken (printLines line headers).length key
  | .inValue line headers header => valueToken (printLines line headers).length header
  | _ => {}

def Draft.headerCount : Draft → Nat
  | .inKey _ headers _ | .inGap _ headers _ _ | .inValue _ headers _ | .valueCr _ headers _ => headers.length+1
  | .valueLf _ headers | .endCr _ headers | .done _ headers => headers.length
  | _ => 0

def Draft.metaState : Draft → Meta
  | .lineCr _ | .lineLf _ => .any
  | .inKey _ headers key => (framing headers).inKey key
  | .inGap _ headers key _ => (framing headers).inGap key
  | .inValue _ headers header => (framing headers).inValue header
  | .valueCr _ headers header => (framing (headers ++ [header])).settled
  | .valueLf _ headers | .endCr _ headers => (framing headers).settled
  | _ => .wfk

def Draft.amount : Draft → Int
  | .inKey _ headers _ | .inGap _ headers _ _ => (framing headers).amount
  | .inValue _ headers header => (framing headers).reading header
  | .valueCr _ headers header => (framing (headers ++ [header])).amount
  | .valueLf _ headers | .endCr _ headers => (framing headers).amount
  | _ => 0

def Draft.Place : Draft → Int → Prop
  | .inKey _ headers key,matchIndex => (framing headers).Matching key → matchIndex = key.length
  | .inValue _ headers header,matchIndex =>
    (framing headers).inValue header = .mck → matchIndex = header.value.length
  | _,_ => True

-- The parser and its stream while the head is read.
structure Knows (draft : Draft) (p : Parser) : Prop where
  state : p.state = draft.state
  count : p.headerCount = draft.headerCount
  metaState : p.metaState = draft.metaState
  amount : p.contentLength = draft.amount
  untouched : p.bodyConsumed = 0
  place : draft.Place p.matchIndex

def Stream.moved (s : Stream) (draft : Draft) : Stream :=
  {s with index:=draft.print.length,token:=draft.pending,consumed:=true}

structure Stands (draft : Draft) (s : Stream) : Prop where
  index : s.index = draft.print.length
  token : s.token = draft.pending

-- What the actions do in the states of a head.
variable {p q : Parser} {s : Stream} {c : UInt8} {draft next : Draft}

def grow (token : Token) : Token := {token with len:=if token.type = .none then 0 else token.len+1}

theorem parseChar_parts {old new : State} (state : p.state = old) (moves : transition old (charType c) = new)
    (ahead : new ≠ .bd) (fresh : s.consumed = false)
    (acted : transitionAction {p with state:=new} s c old new = (q,{s with token:=token},emitted)) :
    parseChar p s c = (q,{s with index:=s.index+1,token:=grow token,consumed:=true},emitted) := by
  have changed : (if p.metaState = .zer ∧ p.state = .hn ∧ new = .bd then State.cs else new) = new :=
    if_neg fun all => ahead all.2.2
  subst state
  simp only [parseChar,moves,changed,acted,Stream.consume,fresh]
  rfl

def emissions (token : Token) : List Token := if token.type = .none then [] else [token]

-- The tokens after which the session goes on reading.
def TokenType.quiet : TokenType → Bool
  | .none | .method | .target | .version | .headerKey | .headerVal => true
  | _ => false

structure Turn (draft next : Draft) (p : Parser) (s : Stream) (c : UInt8) (q : Parser) (token : Token) : Prop where
  parsed : parseChar p s c = (q,s.moved next,token)
  knows : Knows next q
  tokens : next.tokens = draft.tokens ++ emissions token
  quiet : token.type.quiet = true

-- A turn from the parts that differ from state to state.
theorem Turn.of {new : State} {held emitted : Token} (good : draft.Good) (knows : Knows draft p) (stands : Stands draft s)
    (fresh : s.consumed = false) (stepped : draft.step c = some next) (ahead : new ≠ .bd)
    (moves : transition draft.state (charType c) = new)
    (acted : transitionAction {p with state:=new} s c draft.state new = (q,{s with token:=held},emitted))
    (pending : grow held = next.pending) (after : Knows next q) (tokens : next.tokens = draft.tokens ++ emissions emitted)
    (quiet : emitted.type.quiet = true) : Turn draft next p s c q emitted := by
  refine ⟨?_,after,tokens,quiet⟩
  have printed := (step_forward draft c next good stepped).2
  rw [parseChar_parts knows.state moves ahead fresh acted,Stream.moved,printed,List.length_append,pending,stands.index]
  rfl

variable {line : RequestLine} {headers : List Header} {header : Header} {key gap : Bytes}

-- What the empty line at the end of a head of that many bytes gives out: the request, the
-- request with a body still to be streamed, or nothing before the body has been read.
def Framing.ending (framing : Framing) (size : Int) : TokenType :=
  match framing with
  | .undecided => .body
  | .length contentLength =>
    if contentLength ≤ maxRequestBufSize - (size-1) + 1 then (if contentLength = 0 then .body else .none) else .bodyStream
  | .chunked => .bodyStream

def Framing.after (framing : Framing) (size : Int) : Meta :=
  match framing with
  | .undecided => .reqend
  | .length contentLength =>
    if contentLength ≤ maxRequestBufSize - (size-1) + 1 then (if contentLength = 0 then .reqend else .bdy) else .str
  | .chunked => .zer

end DbosScheduler.Http
