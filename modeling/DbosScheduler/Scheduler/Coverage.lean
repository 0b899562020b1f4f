import DbosScheduler.Scheduler.Probing

namespace DbosScheduler.Scheduler
open Client Sql Triangular

-- The partitions that the growing-step loops look at while nothing is found, in order,
-- whatever the tables hold: the replies are given and only the requests are watched.
def asked (prog : Program α) (answers : Nat → Response) : List Request :=
  requests (fun _ _ reply => ((),reply)) () prog answers

-- The procedure returned this status code.
def Status (code : Int) (response : Response) : Prop := ∃ reply, response = some reply ∧ getInt64 reply = code

end DbosScheduler.Scheduler
