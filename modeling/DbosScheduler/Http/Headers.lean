import DbosScheduler.Http.Dialogue

namespace DbosScheduler.Http

-- The value of the first header of that name, in any case of letters.
def lookup (key : Bytes) (headers : List Header) : Bytes :=
  ((headers.find? fun header => lowered header.key = lowered key).map Header.value).getD []

-- Whether the connection is kept is decided by the request.
def keeps (line : RequestLine) (headers : List Header) : Bool :=
  let connection := lookup (bytes "Connection") headers
  !((connection.length == 5 && caseInsensitiveCmp connection (bytes "close")) ||
    (connection.length == 0 && !(line.version.getLast? == some 49)))

-- The bytes of one request: a head, and the body it announces.
def Asks (request : Bytes) (head : Head) : Prop :=
  ∃ rest last, request = head.print ++ rest ∧ Ending head.line head.headers rest last

variable {ω : Type}

end DbosScheduler.Http
