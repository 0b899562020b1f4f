import Mathlib.Data.List.Basic

namespace DbosScheduler.Http

abbrev Bytes := List UInt8

-- The bytes of a text without characters outside ASCII.
def bytes (text : String) : Bytes := text.toList.map fun c => UInt8.ofNat c.toNat

inductive TokenType where
  | none | method | target | version | headerKey | headerVal | chunkBody | body | bodyStream | reqEnd | eof | error
  deriving Repr, DecidableEq

-- A token is a place in the buffer, not a copy of the text.
structure Token where
  index : Int := 0
  len : Int := 0
  type : TokenType := .none
  deriving Repr, DecidableEq

inductive State where
  | st | mt | ms | tr | ts | vn | rr | rn | hk | hs | hv | hr | he | er | hn | bd | cs | cb | ce | cr | cn | cd | c1 | c2 | br
  deriving Repr, DecidableEq

inductive CharType where
  | spc | nl | cr | coln | tab | scoln | digit | hex | alpha | tchar | vchar | etc
  deriving Repr, DecidableEq

inductive Meta where
  | wfk | any | mte | mcl | clv | mck | sml | chk | big | zer | csz | cbd | lst | str | sen | bdy | reqend | err
  deriving Repr, DecidableEq

def CharType.code : CharType → Nat
  | .spc => 0 | .nl => 1 | .cr => 2 | .coln => 3 | .tab => 4 | .scoln => 5
  | .digit => 6 | .hex => 7 | .alpha => 8 | .tchar => 9 | .vchar => 10 | .etc => 11

-- hs_transitions, a row for each state. The table ends with C2: BR has no row, and a
-- lookup from it would read behind the table.
def transitions : State → List State
  --       spc  \n   \r   :    \t   ;    0-9  a-f  g-z  tch  vch  etc
  | .st => [.br,.br,.br,.br,.br,.br,.br,.mt,.mt,.mt,.br,.br]
  | .mt => [.ms,.br,.br,.br,.br,.br,.mt,.mt,.mt,.mt,.br,.br]
  | .ms => [.br,.br,.br,.br,.br,.br,.tr,.tr,.tr,.tr,.tr,.br]
  | .tr => [.ts,.br,.br,.tr,.br,.tr,.tr,.tr,.tr,.tr,.tr,.br]
  | .ts => [.br,.br,.br,.br,.br,.br,.vn,.vn,.vn,.vn,.vn,.br]
  | .vn => [.br,.br,.rr,.br,.br,.br,.vn,.vn,.vn,.vn,.vn,.br]
  | .rr => [.br,.rn,.br,.br,.br,.br,.br,.br,.br,.br,.br,.br]
  | .rn => [.br,.br,.br,.br,.br,.br,.hk,.hk,.hk,.hk,.br,.br]
  | .hk => [.br,.br,.br,.hs,.br,.br,.hk,.hk,.hk,.hk,.br,.br]
  | .hs => [.hs,.hs,.hs,.hv,.hs,.hv,.hv,.hv,.hv,.hv,.hv,.br]
  | .hv => [.hv,.br,.hr,.hv,.hv,.hv,.hv,.hv,.hv,.hv,.hv,.br]
  | .hr => [.br,.he,.br,.br,.br,.br,.br,.br,.br,.br,.br,.br]
  | .he => [.br,.br,.er,.br,.br,.br,.hk,.hk,.hk,.hk,.br,.br]
  | .er => [.br,.hn,.br,.br,.br,.br,.br,.br,.br,.br,.br,.br]
  | .hn => [.bd,.bd,.bd,.bd,.bd,.bd,.bd,.bd,.bd,.bd,.bd,.bd]
  | .bd => [.bd,.bd,.bd,.bd,.bd,.bd,.bd,.bd,.bd,.bd,.bd,.bd]
  | .cs => [.br,.br,.cr,.br,.br,.ce,.cs,.cs,.br,.br,.br,.br]
  | .cb => [.cb,.cb,.cb,.cb,.cb,.cb,.cb,.cb,.cb,.cb,.cb,.cb]
  | .ce => [.br,.br,.cr,.ce,.ce,.ce,.ce,.ce,.ce,.ce,.ce,.br]
  | .cr => [.br,.cn,.br,.br,.br,.br,.br,.br,.br,.br,.br,.br]
  | .cn => [.cb,.cb,.cb,.cb,.cb,.cb,.cb,.cb,.cb,.cb,.cb,.cb]
  | .cd => [.br,.br,.c1,.br,.br,.br,.br,.br,.br,.br,.br,.br]
  | .c1 => [.br,.c2,.br,.br,.br,.br,.br,.br,.br,.br,.br,.br]
  | .c2 => [.br,.br,.br,.br,.br,.br,.cs,.cs,.br,.br,.br,.br]
  | .br => []

def transition (state : State) (type : CharType) : State := (transitions state).getD type.code .br

-- The columns of hs_meta_transitions. The columns of a body have their own names for
-- the first three: not chunked, non zero and next; end of the chunk size; end of a chunk.
inductive MetaType where
  | notContentLen | notTransferEnc | endKey | endValue | endHeaders | largeBody
  deriving Repr, DecidableEq

abbrev MetaType.notChunked : MetaType := .notContentLen
abbrev MetaType.nonZero : MetaType := .notContentLen
abbrev MetaType.next : MetaType := .notContentLen
abbrev MetaType.endChkSize : MetaType := .notTransferEnc
abbrev MetaType.endChunk : MetaType := .endKey

def MetaType.code : MetaType → Nat
  | .notContentLen => 0 | .notTransferEnc => 1 | .endKey => 2 | .endValue => 3 | .endHeaders => 4 | .largeBody => 5

-- hs_meta_transitions. M_ERR has no row, as BR above.
def metaTransitions : Meta → List Meta
  --            not cl  not te endkey endval end h toobig
  | .wfk =>    [.wfk,   .wfk,  .wfk,  .any,  .reqend,.err]
  | .any =>    [.mte,   .mcl,  .wfk,  .err,  .reqend,.err]
  | .mte =>    [.mte,   .wfk,  .mck,  .err,  .err,   .err]
  | .mcl =>    [.wfk,   .mcl,  .clv,  .err,  .err,   .err]
  | .clv =>    [.err,   .err,  .err,  .sml,  .err,   .err]
  | .mck =>    [.wfk,   .err,  .err,  .chk,  .err,   .err]
  | .sml =>    [.sml,   .sml,  .sml,  .sml,  .bdy,   .big]
  | .chk =>    [.chk,   .chk,  .chk,  .chk,  .zer,   .err]
  | .big =>    [.big,   .big,  .big,  .big,  .str,   .err]
  --            nonzer  endsz  endchk
  | .zer =>    [.csz,   .lst,  .err,  .err,  .err,   .err]
  | .csz =>    [.csz,   .cbd,  .err,  .err,  .err,   .err]
  | .cbd =>    [.cbd,   .cbd,  .zer,  .err,  .err,   .err]
  | .lst =>    [.lst,   .reqend,.reqend,.err,.err,   .err]
  --            next
  | .str =>    [.sen,   .err,  .err,  .err,  .err,   .err]
  | .sen =>    [.reqend,.err,  .err,  .err,  .err,   .err]
  | .bdy =>    [.reqend,.err,  .err,  .err,  .err,   .err]
  | .reqend => [.wfk,   .err,  .err,  .err,  .err,   .err]
  | .err => []

def metaTransition (state : Meta) (event : MetaType) : Meta := (metaTransitions state).getD event.code .err

-- hs_ctype
def ctypes : List CharType := [
  .etc,.etc,.etc,.etc,.etc,.etc,.etc,
  .etc,.etc,.tab,.nl,.etc,.etc,.cr,
  .etc,.etc,.etc,.etc,.etc,.etc,.etc,
  .etc,.etc,.etc,.etc,.etc,.etc,.etc,
  .etc,.etc,.etc,.etc,.spc,.tchar,.vchar,
  .tchar,.tchar,.tchar,.tchar,.tchar,.vchar,.vchar,
  .tchar,.tchar,.tchar,.tchar,.tchar,.vchar,.digit,
  .digit,.digit,.digit,.digit,.digit,.digit,.digit,
  .digit,.digit,.coln,.scoln,.vchar,.vchar,.vchar,
  .vchar,.vchar,.hex,.hex,.hex,.hex,.hex,
  .hex,.alpha,.alpha,.alpha,.alpha,.alpha,.alpha,
  .alpha,.alpha,.alpha,.alpha,.alpha,.alpha,.alpha,
  .alpha,.alpha,.alpha,.alpha,.alpha,.alpha,.alpha,
  .vchar,.vchar,.vchar,.tchar,.tchar,.tchar,.hex,
  .hex,.hex,.hex,.hex,.hex,.alpha,.alpha,
  .alpha,.alpha,.alpha,.alpha,.alpha,.alpha,.alpha,
  .alpha,.alpha,.alpha,.alpha,.alpha,.alpha,.alpha,
  .alpha,.alpha,.alpha,.alpha,.vchar,.tchar,.vchar,
  .tchar,.etc]

-- A char is signed: from 128 on it is negative.
def charType (c : UInt8) : CharType := if c < 128 then ctypes.getD c.toNat .etc else .etc

-- hs_token_start_states
def tokenStart : State → TokenType
  | .mt => .method
  | .tr => .target
  | .vn => .version
  | .hk => .headerKey
  | .hv => .headerVal
  | .bd => .body
  | .cb => .chunkBody
  | _ => .none

def maxTokenLength : Int := 8192
def maxRequestBufSize : Nat := 8388608
def maxHeaderCount : Int := 127

-- `buf` holds the first `length` bytes of the buffer, which is there while `allocated`.
-- The positions are C ints: a body length taken from the wire may move them below zero.
structure Stream where
  buf : Bytes := []
  allocated : Bool := false
  totalBytes : Int := 0
  capacity : Nat := 0
  index : Int := 0
  anchor : Int := 0
  token : Token := {}
  consumed : Bool := false
  deriving Repr, DecidableEq

namespace Stream

def length (s : Stream) : Int := s.buf.length

def next (s : Stream) : Stream × Option UInt8 :=
  let s := {s with consumed:=false}
  if s.length ≤ s.index then (s,none) else (s,some (if 0 ≤ s.index then s.buf.getD s.index.toNat 0 else 0))

-- The new length of the token when `offset` more bytes are taken.
def grown (s : Stream) (offset : Int) : Token :=
  {s.token with len:=if s.token.type = .none then 0 else s.token.len + offset}

def consume (s : Stream) : Stream :=
  if s.consumed then s else {s with consumed:=true,index:=s.index+1,token:=s.grown 1}

def beginToken (s : Stream) (type : TokenType) : Stream := {s with token:={s.token with index:=s.index,type:=type}}

def jump (s : Stream) (offset : Int) : Stream × Bool :=
  let s := {s with consumed:=true}
  if s.length < s.index + offset then (s,false) else ({s with index:=s.index+offset,token:=s.grown offset},true)

def jumpall (s : Stream) : Stream × Int :=
  let offset := s.length - s.index
  ({s with consumed:=true,index:=s.index+offset,token:=s.grown offset},offset)

def setAnchor (s : Stream) : Stream := {s with anchor:=s.index}

def emit (s : Stream) : Stream × Token := ({s with token:={}},s.token)

def canContain (s : Stream) (size : Int) : Bool := size ≤ maxRequestBufSize - s.index + 1

-- The token is moved down to the anchor, and what stands behind it is given up.
def shift (s : Stream) : Stream :=
  if s.token.index = s.anchor then s else
  let kept := s.buf.take s.anchor.toNat ++
    if 0 < s.token.len then (s.buf.drop s.token.index.toNat).take s.token.len.toNat else []
  {s with buf:=kept,index:=s.token.len+s.anchor,token:={s.token with index:=s.anchor}}

end Stream

structure Parser where
  contentLength : Int := 0
  bodyConsumed : Int := 0
  matchIndex : Int := 0
  headerCount : Int := 0
  state : State := .st
  metaState : Meta := .wfk
  deriving Repr, DecidableEq

def int16 (value : Int) : Int := Int.bmod value 65536
def int32 (value : Int) : Int := Int.bmod value 4294967296
def int64 (value : Int) : Int := Int.bmod value 18446744073709551616

def Parser.triggerMeta (p : Parser) (event : MetaType) : Parser := {p with metaState:=metaTransition p.metaState event}

def lower (c : UInt8) : UInt8 := if 65 ≤ c ∧ c ≤ 90 then c + 32 else c

-- HS_MATCH. Past the end of the text the character of the previous comparison is used again.
def Parser.matchText (text : Bytes) (event : MetaType) (c : UInt8) (p : Parser) (m : UInt8) : Parser × UInt8 :=
  let m := if p.matchIndex < text.length then text.getD p.matchIndex.toNat 0 else m
  (if lower c ≠ m then p.triggerMeta event else p,m)

def Parser.matchNext (p : Parser) : Parser := {p with matchIndex:=int16 (p.matchIndex+1)}

-- content_length = content_length * base + (c - zero)
def Parser.readDigit (p : Parser) (base : Int) (c : UInt8) (zero : Int) : Parser :=
  {p with contentLength:=int64 (p.contentLength*base+(c.toNat-zero))}

-- The part of hs_transition_action for a change of state.
def enterState (p : Parser) (s : Stream) (old new : State) : Parser × Stream × Token :=
  let s := if tokenStart new ≠ .none then s.beginToken (tokenStart new) else s
  let p := if old = .cs then p.triggerMeta .endChkSize else p
  let (p,s,emitted) : Parser × Stream × Token :=
    match new with
    | .hk =>
      let p := {p with headerCount:=p.headerCount+1}
      (p,s,if maxHeaderCount < p.headerCount then {type:=.error} else {})
    | .hs =>
      let (s,token) := s.emit
      (p.triggerMeta .endKey,s,token)
    | _ => (p,s,{})
  ({p with matchIndex:=0},s,emitted)

def readBody (p : Parser) (s : Stream) (new : State) (emitted : Token) : Parser × Stream × Token :=
  let s := if p.metaState = .str then s.beginToken .chunkBody else s
  match s.jump (int32 (p.contentLength - p.bodyConsumed)) with
  | (s,true) =>
    let (s,token) := s.emit
    let p := p.triggerMeta .next
    ({p with state:=if new = .cb then .cd else p.state,contentLength:=0,bodyConsumed:=0},s,token)
  | (s,false) =>
    let (s,offset) := s.jumpall
    let p := {p with bodyConsumed:=p.bodyConsumed+offset}
    if p.metaState = .str then
      let (s,token) := s.emit
      (p,s.shift,token)
    else (p,s,emitted)

def endHeaders (p : Parser) (s : Stream) (emitted : Token) : Parser × Token :=
  let p := if p.metaState = .sml ∧ s.canContain p.contentLength = false then p.triggerMeta .largeBody else p
  let emitted := if p.metaState = .big ∨ p.metaState = .chk then {emitted with type:=.bodyStream} else emitted
  let p := p.triggerMeta .endHeaders
  let p := if p.contentLength = 0 ∧ p.metaState = .bdy then {p with metaState:=.reqend} else p
  (p,if p.metaState = .reqend then {emitted with type:=.body} else emitted)

def readChunkSize (p : Parser) (c : UInt8) : Parser :=
  let p := if c ≠ 48 then p.triggerMeta .nonZero else p
  if 65 ≤ c ∧ c ≤ 70 then p.readDigit 16 c 55
  else if 97 ≤ c ∧ c ≤ 102 then p.readDigit 16 c 87
  else if 48 ≤ c ∧ c ≤ 57 then p.readDigit 16 c 48
  else p

def transitionAction (p : Parser) (s : Stream) (c : UInt8) (old new : State) : Parser × Stream × Token :=
  let s := if old = .hn then s.setAnchor else s
  let (p,s,emitted) : Parser × Stream × Token := if old ≠ new then enterState p s old new else (p,s,{})
  match new with
  | .ms | .ts =>
    let (s,token) := s.emit
    (p,s,token)
  | .rr | .hr =>
    let (s,token) := s.emit
    (p.triggerMeta .endValue,s,token)
  | .hk =>
    let (p,m) := p.matchText (bytes "transfer-encoding") .notTransferEnc c 0
    let (p,_) := p.matchText (bytes "content-length") .notContentLen c m
    (p.matchNext,s,emitted)
  | .hv =>
    if p.metaState = .mck then
      let (p,_) := p.matchText (bytes "chunked") .notChunked c 0
      (p.matchNext,s,emitted)
    else if p.metaState = .clv then (p.readDigit 10 c 48,s,emitted)
    else (p,s,emitted)
  | .hn =>
    let (p,emitted) := endHeaders p s emitted
    (p,s,emitted)
  | .cs => (readChunkSize p c,s,emitted)
  | .cb | .bd => readBody p s new emitted
  | .c2 => (p.triggerMeta .endChunk,s,emitted)
  | .br => (p,s,{emitted with type:=.error})
  | _ => (p,s,emitted)

def metaEmit (p : Parser) : Parser × Token :=
  match p.metaState with
  | .sen => (p.triggerMeta .next,{type:=.chunkBody})
  | .reqend => ({},{type:=.reqEnd})
  | _ => (p,{})

-- One turn of the loop of http_parse, for one character.
def parseChar (p : Parser) (s : Stream) (c : UInt8) : Parser × Stream × Token :=
  let new := transition p.state (charType c)
  let new := if p.metaState = .zer ∧ p.state = .hn ∧ new = .bd then .cs else new
  let (p,s,emitted) := transitionAction {p with state:=new} s c p.state new
  (p,s.consume,emitted)

-- What http_parse does when the buffer has no more characters.
def parseEnd (p : Parser) (s : Stream) : Parser × Stream × Token :=
  let s := if p.state = .cb then s.shift else s
  let (p,token) := metaEmit p
  let current := s.token
  if current.type ≠ .chunkBody ∧ current.type ≠ .body ∧ maxTokenLength < current.len then
    (p,s,{token with type:=.error})
  else (p,s,token)

def parseLoop : Nat → Parser → Stream → Parser × Stream × Token
  | 0,p,s => parseEnd p s
  | fuel+1,p,s =>
    match s.next with
    | (s,none) => parseEnd p s
    | (s,some c) =>
      let (p,s,emitted) := parseChar p s c
      if emitted.type ≠ .none then (p,s,emitted) else parseLoop fuel p s

-- Every turn takes a character or returns, so that the characters left bound the turns.
def httpParse (p : Parser) (s : Stream) : Parser × Stream × Token :=
  let (p,token) := metaEmit p
  if token.type ≠ .none then (p,s,token) else parseLoop ((s.length - s.index).toNat+1) p s

end DbosScheduler.Http
