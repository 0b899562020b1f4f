import Mathlib.Data.List.TakeWhile
import DbosScheduler.Http.Headers
import DbosScheduler.Http.Responses
import DbosScheduler.Push.System

namespace DbosScheduler.HttpWorker
open Machine Http

-- std::stoi: white space and a sign may come first, and what follows the digits is ignored.
-- Without digits, and outside of the range of an int, it throws.
def isSpace (c : UInt8) : Bool := c == 32 || (9 ≤ c && c ≤ 13)
def isDigit (c : UInt8) : Bool := 48 ≤ c && c ≤ 57

def digitsValue (digits : Bytes) : Nat := digits.foldl (fun n c => 10*n+(c.toNat-48)) 0

def signed : Bytes → Bool × Bytes
  | 45 :: rest => (true,rest)
  | 43 :: rest => (false,rest)
  | rest => (false,rest)

def stoi (text : Bytes) : Option Int :=
  let (negative,rest) := signed (text.dropWhile isSpace)
  let digits := rest.takeWhile isDigit
  if digits = [] then none else
  let value : Int := if negative then -digitsValue digits else digitsValue digits
  if -2147483648 ≤ value ∧ value ≤ 2147483647 then some value else none

def hello : Response :=
  {(({} : Response).setStatus 200).header (bytes "Content-Type") (bytes "text/plain") with body:=bytes "Hello, World!"}

-- MockHTTPWorker::handle_request. The response goes out before the report to the database.
def handleRequest (cfg : Push.Setting) (workerID : Int) : Handler Sql.Request := fun request => do
  let taskID ← stoi (request.header (bytes "taskID"))
  return (hello,Push.completion cfg (workerID,taskID))

variable {cfg : Push.Setting} {workerID : Int}

end DbosScheduler.HttpWorker
