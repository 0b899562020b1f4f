import DbosScheduler.Lib.Machine
import DbosScheduler.Http.Parser

namespace DbosScheduler.Http
open Machine

-- What read and write return on a non-blocking socket. `blocked` stands for EAGAIN; a read
-- of no bytes is the end of the stream. After a write that worked, errno may still be the
-- EPIPE of an earlier one.
inductive ReadResult where
  | data (piece : Bytes)
  | blocked
  | closed
  deriving Repr, DecidableEq

inductive WriteResult where
  | wrote (count : Nat) (stale : Bool)
  | blocked
  | pipe
  deriving Repr, DecidableEq

inductive SessionState where
  | init | read | write | nop
  deriving Repr, DecidableEq

-- HTTP_KEEP_ALIVE and HTTP_FLG_STREAMED are the same bit of the flags. HTTP_CHUNKED_RESPONSE
-- is set by http_respond_chunk only, which no handler here calls.
structure Session where
  state : SessionState := .init
  stream : Stream := {}
  parser : Parser := {}
  tokens : List Token := []
  keepAlive : Bool := false
  automatic : Bool := false
  endSession : Bool := false
  timeout : Int := 20
  deriving Repr, DecidableEq

-- http_get_token_string and its users: text is read where a token points to.
def Stream.text (s : Stream) (token : Token) : Bytes := (s.buf.drop token.index.toNat).take token.len.toNat

def Session.tokenString (r : Session) (type : TokenType) : Option Bytes :=
  (r.tokens.find? fun token => token.type = type).map r.stream.text

def caseInsensitiveCmp (a b : Bytes) : Bool := a.map lower = b.map lower

-- http_request_header: the token behind the first key of that name.
def headerString (s : Stream) (key : Bytes) : List Token → Bytes
  | [] => []
  | token :: rest =>
    if token.type = .headerKey ∧ token.len = key.length ∧ caseInsensitiveCmp (s.text token) key then
      (rest.head?.map s.text).getD []
    else headerString s key rest

def Session.header (r : Session) (key : Bytes) : Bytes := headerString r.stream key r.tokens

-- Responses. The headers are kept as a linked list with the last one first.
structure Response where
  headers : List (Bytes × Bytes) := []
  body : Bytes := []
  status : Int := 200
  deriving Repr, DecidableEq

def Response.header (r : Response) (key value : Bytes) : Response := {r with headers:=(key,value) :: r.headers}
def Response.setStatus (r : Response) (status : Int) : Response :=
  {r with status:=if 599 < status ∨ status < 100 then 500 else status}

-- The texts of hs_status_text that the server and its handler use.
def statusText (status : Int) : Bytes :=
  if status = 200 then bytes "OK"
  else if status = 400 then bytes "Bad Request"
  else if status = 503 then bytes "Service Unavailable"
  else []

structure Printer where
  buf : Bytes := []
  capacity : Nat := 1024
  deriving Repr, DecidableEq

-- grwprintf. The printed text ends with a zero, which takes the place of the last character
-- when the text fills the buffer. A text that does not fit is printed a second time, from
-- arguments that are used up: what the buffer holds after that is not defined.
def Printer.print (ctx : Printer) (text : Bytes) : Option Printer :=
  if ctx.capacity < text.length + ctx.buf.length then none
  else if text.length + ctx.buf.length = ctx.capacity ∧ text ≠ [] then some {ctx with buf:=ctx.buf ++ text.dropLast ++ [0]}
  else some {ctx with buf:=ctx.buf ++ text}

-- grwmemcpy
def Printer.copy (ctx : Printer) (text : Bytes) : Printer :=
  {buf:=ctx.buf ++ text,capacity:=max ctx.capacity (ctx.buf.length + text.length)}

def Printer.printHeaders (ctx : Printer) : List (Bytes × Bytes) → Option Printer
  | [] => some ctx
  | (key,value) :: rest => do
    let ctx ← ctx.print (key ++ bytes ": " ++ value ++ [13,10])
    ctx.printHeaders rest

-- hs_auto_detect_keep_alive
def Session.autoDetectKeepAlive (r : Session) : Session :=
  match r.tokenString .version with
  | none => r
  | some version =>
    let connection := r.header (bytes "Connection")
    {r with keepAlive:=!((connection.length == 5 && caseInsensitiveCmp connection (bytes "close")) ||
      (connection.length == 0 && !(version.getLast? == some 49)))}

-- http_respond up to the text that is to be sent.
def Session.renderHead (r : Session) (date : Bytes) (response : Response) : Option Printer := do
  let response := response.header (bytes "Connection") (bytes (if r.keepAlive then "keep-alive" else "close"))
  let ctx ← Printer.print {} (bytes "HTTP/1.1 " ++ bytes (toString response.status) ++ bytes " " ++
    statusText response.status ++ [13,10] ++ bytes "Date: " ++ date ++ [13,10])
  let ctx ← ctx.printHeaders response.headers
  let ctx ← ctx.print (bytes "Content-Length: " ++ bytes (toString response.body.length) ++ [13,10])
  ctx.print [13,10]

def Session.render (r : Session) (date : Bytes) (response : Response) : Option Printer :=
  (r.renderHead date response).map fun ctx => ctx.copy response.body

-- A session at work: with the memory account of the server, with what the next writes will
-- return, and what has been read and sent.
structure Work where
  session : Session
  memused : Int
  writes : List WriteResult
  received : Bytes
  sent : Bytes
  deriving Repr, DecidableEq

-- hs_free_buffer
def Work.freeBuffer (w : Work) : Work :=
  if w.session.stream.allocated then
    {w with
      memused:=w.memused - w.session.stream.capacity
      session:={w.session with stream:={w.session.stream with allocated:=false}}}
  else w

-- hs_write_client_socket. The check of errno does not ask whether this very write failed.
def Work.writeClientSocket (w : Work) : Option (Work × Bool) :=
  let left := w.session.stream.buf.drop w.session.stream.totalBytes.toNat
  match w.writes with
  | [] => none
  | .wrote count stale :: rest =>
    if left.length < count ∨ (count = 0 ∧ left ≠ []) then none else
    let stream := {w.session.stream with totalBytes:=w.session.stream.totalBytes+count}
    some ({w with session:={w.session with stream:=stream},writes:=rest,sent:=w.sent ++ left.take count},!stale)
  | .blocked :: rest => some ({w with writes:=rest},true)
  | .pipe :: rest => some ({w with writes:=rest},false)

-- hs_write_response
def Work.writeResponse (w : Work) : Option Work := do
  let (w,going) ← w.writeClientSocket
  if !going then return {w with session:={w.session with endSession:=true}}
  if w.session.stream.totalBytes ≠ w.session.stream.length then
    return {w with session:={w.session with state:=.write,timeout:=20}}
  if w.session.keepAlive then
    let w := Work.freeBuffer {w with session:={w.session with state:=.init}}
    return {w with session:={w.session with timeout:=120}}
  return {w with session:={w.session with endSession:=true}}

-- http_respond, http_end_response
def Work.respond (w : Work) (date : Bytes) (response : Response) : Option Work := do
  let session := if w.session.automatic then w.session.autoDetectKeepAlive else w.session
  let ctx ← session.render date response
  let w := Work.freeBuffer {w with session:=session,memused:=w.memused+ctx.capacity}
  Work.writeResponse {w with session:={w.session with
    state:=.write
    stream:={w.session.stream with buf:=ctx.buf,allocated:=true,totalBytes:=0,capacity:=ctx.capacity}}}

-- hs_error_response
def Work.errorResponse (w : Work) (date : Bytes) (code : Int) (message : Bytes) : Option Work := do
  let response := ({} : Response).setStatus code
  let response := {response.header (bytes "Content-Type") (bytes "text/plain") with body:=message}
  let w ← w.respond date response
  w.writeResponse

-- The loop of hs_stream_read_socket, and the doubling of the buffer.
def Stream.grew (s : Stream) : Stream :=
  if s.buf.length = s.capacity ∧ s.capacity ≠ maxRequestBufSize then
    {s with capacity:=min (s.capacity*2) maxRequestBufSize}
  else s

-- A read asks for the free part of the buffer; without one it returns no bytes.
def ReadResult.fits (free : Nat) : ReadResult → Bool
  | .data piece => 0 < piece.length && piece.length ≤ free
  | .blocked => 0 < free
  | .closed => true

def Stream.readLoop : List ReadResult → Stream → Option (Stream × ReadResult)
  | [],_ => none
  | result :: rest,s =>
    if !result.fits (s.capacity - s.buf.length) then none else
    match result with
    | .data piece =>
      let s := Stream.grew {s with buf:=s.buf ++ piece,totalBytes:=s.totalBytes+piece.length}
      if s.capacity < maxRequestBufSize then s.readLoop rest
      else if rest = [] then some (s,result) else none
    | _ => if rest = [] then some (s.grew,result) else none

def Stream.readSocket (reads : List ReadResult) (s : Stream) : Option (Stream × ReadResult) :=
  let s := if s.allocated then s else {s with allocated:=true,capacity:=1024}
  s.readLoop reads

def ReadResult.bytes : ReadResult → Bytes
  | .data piece => piece
  | _ => []

def Stream.charge (s : Stream) : Int := if s.allocated then s.capacity else 0

-- hs_stream_read_socket: nothing is read while the parser has not used up what there is.
def Work.readSocket (w : Work) (reads : List ReadResult) : Option (Work × Bool) :=
  if w.session.stream.index < w.session.stream.length then (if reads = [] then some (w,true) else none)
  else do
    let (stream,result) ← w.session.stream.readSocket reads
    let memused := w.memused + (stream.charge - w.session.stream.charge)
    let received := w.received ++ reads.flatMap ReadResult.bytes
    return ({w with session:={w.session with stream:=stream},memused:=memused,received:=received},result ≠ .closed)

-- What a session does to the application: the handler is called. The thread goes down when
-- the handler throws, or when a chunk arrives, for which nobody has set a callback.
inductive Event (ω : Type) where
  | called (effect : ω)
  | crashed
  deriving Repr, DecidableEq

-- The handler answers at once: it gives the response, and what else it does.
abbrev Handler (ω : Type) := Session → Option (Response × ω)

variable {ω : Type}

-- One token is taken from the stream.
def Session.parsed (r : Session) : Session × Token :=
  let (parser,stream,token) := httpParse r.parser r.stream
  ({r with parser:=parser,stream:=stream,tokens:=if token.type = .none then r.tokens else r.tokens ++ [token]},token)

def Session.called (r : Session) (token : Token) : Session :=
  {r with state:=.nop,keepAlive:=r.keepAlive || token.type = .bodyStream}

-- The switch of hs_read_and_process_request.
def Work.handle (handler : Handler ω) (date : Bytes) (w : Work) (token : Token) : Option (Work × List (Event ω)) :=
  match token.type with
  | .error => do
    let w ← w.errorResponse date 400 (bytes "Bad Request")
    return (w,[])
  | .body | .bodyStream =>
    let session := w.session.called token
    match handler session with
    | none => some ({w with session:=session},[.crashed])
    | some (response,effect) => do
      let w ← Work.respond {w with session:=session} date response
      return (w,[.called effect])
  | .chunkBody => some ({w with session:={w.session with state:=.nop}},[.crashed])
  | _ => some (w,[])

-- Its loop goes on while there are tokens and the session is still reading.
def Work.process (handler : Handler ω) (date : Bytes) : Nat → Work → Option (Work × List (Event ω))
  | 0,_ => none
  | fuel+1,w => do
    let (session,token) := w.session.parsed
    let (w,events) ← Work.handle handler date {w with session:=session} token
    if token.type ≠ .none ∧ w.session.state = .read then
      let (w,later) ← w.process handler date fuel
      return (w,events ++ later)
    return (w,events)

-- hs_read_and_process_request
def Work.readAndProcess (handler : Handler ω) (date : Bytes) (reads : List ReadResult) (w : Work) :
    Option (Work × List (Event ω)) := do
  let (w,going) ← Work.readSocket {w with session:={w.session with state:=.read,timeout:=20}} reads
  if !going then return ({w with session:={w.session with endSession:=true}},[])
  w.process handler date ((w.session.stream.length - w.session.stream.index).toNat+2)

-- What the system gives to one turn of a session.
structure Io where
  date : Bytes
  reads : List ReadResult
  writes : List WriteResult
  deriving Repr, DecidableEq

def maxTotalEstMemUsage : Int := 4294967296

-- http_session. A request that is refused for want of memory returns before the check of
-- HTTP_END_SESSION.
def Work.turn (handler : Handler ω) (io : Io) (w : Work) : Option (Work × List (Event ω) × Bool) :=
  match w.session.state with
  | .init =>
    let session := {state:=.read,automatic:=true,timeout:=w.session.timeout}
    if maxTotalEstMemUsage < w.memused then do
      let w ← Work.errorResponse {w with session:=session} io.date 503 (bytes "Service Unavailable")
      return (w,[],false)
    else do
      let (w,events) ← Work.readAndProcess handler io.date io.reads {w with session:=session}
      return (w,events,w.session.endSession)
  | .read => do
    let (w,events) ← w.readAndProcess handler io.date io.reads
    return (w,events,w.session.endSession)
  | .write => do
    let w ← w.writeResponse
    return (w,[],w.session.endSession)
  | .nop => some (w,[],w.session.endSession)

-- The sessions of a server, by the order of their connections.
structure Server where
  memused : Int := 0
  sessions : List (Option Session) := []
  crashed : Bool := false
  deriving Repr, DecidableEq

inductive Act where
  | accept (io : Io)
  | ready (i : Nat) (io : Io)
  | timer (i : Nat)
  deriving Repr, DecidableEq

-- What is seen of a step: for which connection, the calls of the handler, and the bytes read
-- and sent.
structure Seen (ω : Type) where
  connection : Nat
  events : List (Event ω)
  received : Bytes
  sent : Bytes
  deriving Repr, DecidableEq

-- hs_end_session
def Work.ended (w : Work) : Option Session × Int := (none,w.freeBuffer.memused)

def Work.slot (w : Work) (ending : Bool) : Option Session × Int :=
  if ending then w.ended else (some w.session,w.memused)

def Event.isCrash : Event ω → Bool
  | .crashed => true
  | .called _ => false

def Server.session (handler : Handler ω) (server : Server) (i : Nat) (session : Session) (io : Io) :
    Option (Server × List (Seen ω)) := do
  if 31 < io.date.length then failure
  let (w,events,ending) ← Work.turn handler io ⟨session,server.memused,io.writes,[],[]⟩
  if w.writes ≠ [] then failure
  let (slot,memused) := w.slot ending
  return ({memused:=memused,sessions:=server.sessions.set i slot,crashed:=events.any Event.isCrash},
    [⟨i,events,w.received,w.sent⟩])

-- hs_request_timer_cb
def Server.timer (server : Server) (i : Nat) (session : Session) : Server :=
  let session := {session with timeout:=session.timeout-1}
  let (slot,memused) := Work.slot ⟨session,server.memused,[],[],[]⟩ (session.timeout = 0)
  {server with memused:=memused,sessions:=server.sessions.set i slot}

def advance (handler : Handler ω) : Advance Server Act (Seen ω)
  | server,.accept io =>
    if server.crashed then none
    else Server.session handler {server with sessions:=server.sessions ++ [some {}]} server.sessions.length {} io
  | server,.ready i io =>
    if server.crashed then none
    else do
      let session ← (server.sessions[i]?).join
      server.session handler i session io
  | server,.timer i =>
    if server.crashed then none
    else do
      let session ← (server.sessions[i]?).join
      return (server.timer i session,[])

end DbosScheduler.Http
