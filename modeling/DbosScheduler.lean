import DbosScheduler.Poll.Shutdown
import DbosScheduler.Poll.Numbering
import DbosScheduler.Poll.Progress
import DbosScheduler.FifoTask.Assignment
import DbosScheduler.FifoTask.FastPath
import DbosScheduler.Scheduler.AllOrNothing
import DbosScheduler.Scheduler.Balance
import DbosScheduler.Scheduler.Failures
import DbosScheduler.Scheduler.FinishTask
import DbosScheduler.Sql.TaskStates
import DbosScheduler.Sql.Partitions
import DbosScheduler.Spark.Registration
import DbosScheduler.Spark.Submission
import DbosScheduler.Push.Safety
import DbosScheduler.Push.Completion
import DbosScheduler.Push.Leaks
import DbosScheduler.Spark.WakeUp
import DbosScheduler.Message.Alignment
import DbosScheduler.Bench.Latencies
import DbosScheduler.Scheduler.Coverage
import DbosScheduler.Bench.StreamSender
import DbosScheduler.Bench.Communication
import DbosScheduler.Bench.Tcp
import DbosScheduler.Bench.AsyncScheduler
import DbosScheduler.Http.Memory
import DbosScheduler.Http.Responses
import DbosScheduler.Worker.HttpWorker
