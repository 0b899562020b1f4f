import DbosScheduler.Sql.Ledger

namespace DbosScheduler.Worker
open Sql Table

-- MockPollWorker. Each thread moves in the atomic steps that its locks and its
-- invocations give it; a thread with no enabled step is blocked.

-- dispatch(): one invocation, then one push per returned row, then the loop test.
inductive Dispatcher where
  | polling
  | pushing (rows : List Int)
  | counting (rows : List Int)
  | stopped
  deriving Repr, DecidableEq

-- execute(): the lock is held from the return of cv_.wait to the pop, so waiting
-- and popping are one step. `executing` has released it, `finished` is about to
-- take it again for the loop test.
inductive Executor where
  | waiting
  | executing (taskId : Int)
  | reported
  | finished
  | stopped
  deriving Repr, DecidableEq

-- endServing(), from the call to its return.
inductive Closer where
  | serving | joiningDispatch | draining | stopping | joining | ended
  deriving Repr, DecidableEq

-- The two counters are what this worker has added to WorkerManager's totals.
structure PollWorker where
  dispatcher : Dispatcher
  taskQueue : List Int
  executors : List Executor
  stopDispatch : Bool
  stop : Bool
  closer : Closer
  totalTasks : Nat
  totalFinishedTasks : Nat
  aborted : Bool
  deriving Repr, DecidableEq

structure Identity where
  workerId : Int
  pkey : Int
  numExecutors : Nat
  topk : Int
  deriving Repr, DecidableEq

inductive Event where
  | returned (ids : List Int)
  | pushed (taskId : Int)
  | popped (execId : Nat) (taskId : Int)
  | reported (execId : Nat) (taskId : Int)
  deriving Repr, DecidableEq

def PollWorker.start (me : Identity) : PollWorker :=
  ⟨.polling,[],List.replicate me.numExecutors .waiting,false,false,.serving,0,0,false⟩

def PollWorker.setExecutor (w : PollWorker) (execId : Nat) (executor : Executor) : PollWorker :=
  {w with executors:=w.executors.set execId executor}

def selectRequest (me : Identity) : Request := ⟨.workerSelectTask,[.int me.pkey,.int me.workerId,.int me.topk]⟩

def updateRequest (me : Identity) (taskId : Int) : Request :=
  ⟨.workerUpdateTask,[.int me.pkey,.int me.workerId,.int taskId,.int TaskState.complete.code]⟩

-- A failed invocation goes on to the loop test, as `continue` does.
def dispatch (me : Identity) (choice : Choice) (db : Database) (w : PollWorker) :
    Option (Database × PollWorker × List Event) :=
  if w.aborted then none else
  match w.dispatcher with
  | .polling =>
    match invoke db (selectRequest me) choice with
    | (after,some (.column ids)) => some (after,{w with dispatcher:=.pushing ids},[.returned ids])
    | (after,_) => some (after,{w with dispatcher:=.pushing []},[])
  | .pushing (taskId :: rows) =>
    some (db,{w with taskQueue:=w.taskQueue ++ [taskId],dispatcher:=.counting rows},[.pushed taskId])
  | .counting rows => some (db,{w with totalTasks:=w.totalTasks+1,dispatcher:=.pushing rows},[])
  | .pushing [] => some (db,{w with dispatcher:=if w.stopDispatch then .stopped else .polling},[])
  | .stopped => none

-- A failed report aborts the process, and with it every thread of the worker.
def execute (me : Identity) (execId : Nat) (choice : Choice) (db : Database) (w : PollWorker) :
    Option (Database × PollWorker × List Event) :=
  if w.aborted then none else
  match w.executors[execId]? with
  | none => none
  | some .waiting =>
    if w.stop then some (db,w.setExecutor execId .stopped,[])
    else match w.taskQueue with
      | [] => none
      | taskId :: rest =>
        some (db,{w with taskQueue:=rest}.setExecutor execId (.executing taskId),[.popped execId taskId])
  | some (.executing taskId) =>
    match invoke db (updateRequest me taskId) choice with
    | (after,none) => some (after,{w with aborted:=true},[])
    | (after,some _) => some (after,w.setExecutor execId .reported,[.reported execId taskId])
  | some .reported =>
    some (db,{w with totalFinishedTasks:=w.totalFinishedTasks+1}.setExecutor execId .finished,[])
  | some .finished => some (db,w.setExecutor execId (if w.stop then .stopped else .waiting),[])
  | some .stopped => none

def endServing (w : PollWorker) : Option PollWorker :=
  if w.aborted then none else
  match w.closer with
  | .serving => some {w with stopDispatch:=true,closer:=.joiningDispatch}
  | .joiningDispatch => if w.dispatcher = .stopped then some {w with closer:=.draining} else none
  | .draining => if w.taskQueue.length = 0 then some {w with closer:=.stopping} else none
  | .stopping => some {w with stop:=true,closer:=.joining}
  | .joining => if w.executors.all (· == .stopped) then some {w with closer:=.ended} else none
  | .ended => none

def Dispatcher.rows : Dispatcher → List Int
  | .pushing rows | .counting rows => rows
  | .polling | .stopped => []

def Executor.held : Executor → Option Int
  | .executing taskId => some taskId
  | _ => none

def PollWorker.held (w : PollWorker) : List Int := w.executors.filterMap Executor.held

theorem held_set {w : PollWorker} (now : w.executors[execId]? = some old) (left : old.held = none)
    (entered : new.held = none) : (w.setExecutor execId new).held.Perm w.held := by
  simpa [PollWorker.held,PollWorker.setExecutor,left,entered] using filterMap_set Executor.held now new

-- The task of a report leaves the hands of its executor.
theorem held_report {w : PollWorker} (executing : w.executors[execId]? = some (.executing taskId)) :
    w.held.Perm (taskId :: (w.setExecutor execId .reported).held) := by
  have moved := filterMap_set Executor.held executing .reported
  simp only [Executor.held,Option.toList_some,Option.toList_none,List.append_nil] at moved
  exact moved.symm.trans (List.perm_append_singleton _ _)

def Event.returns : Event → List Int
  | .returned ids => ids
  | _ => []

def Event.pushes : Event → List Int
  | .pushed taskId => [taskId]
  | _ => []

def Event.pops : Event → List Int
  | .popped _ taskId => [taskId]
  | _ => []

def Event.reports : Event → List Int
  | .reported _ taskId => [taskId]
  | _ => []

def returnedIn (past : List Event) : List Int := past.flatMap Event.returns
def pushedIn (past : List Event) : List Int := past.flatMap Event.pushes
def poppedIn (past : List Event) : List Int := past.flatMap Event.pops
def reportedIn (past : List Event) : List Int := past.flatMap Event.reports

-- Where every id is that this worker was ever given. The first three fields say
-- that no hand-over loses, copies or reorders a task; the last two tie the
-- history to the rows of the worker in the database.
structure Handed (me : Identity) (past : List Event) (db : Database) (w : PollWorker) : Prop where
  pushed : returnedIn past = pushedIn past ++ w.dispatcher.rows
  popped : pushedIn past = poppedIn past ++ w.taskQueue
  reported : (poppedIn past).Perm (reportedIn past ++ w.held)
  distinct : (returnedIn past).Nodup
  started : ∀ taskId, taskId ∈ returnedIn past ↔
    (⟨taskId,me.workerId,running,me.pkey⟩ ∈ db.task ∨ ⟨taskId,me.workerId,complete,me.pkey⟩ ∈ db.task)
  finished : ∀ taskId, taskId ∈ reportedIn past ↔ ⟨taskId,me.workerId,complete,me.pkey⟩ ∈ db.task

variable {me : Identity} {past : List Event} {db after : Database} {w next : PollWorker}

@[simp] theorem returnedIn_append : returnedIn (past ++ more) = returnedIn past ++ returnedIn more := by
  simp [returnedIn]
@[simp] theorem pushedIn_append : pushedIn (past ++ more) = pushedIn past ++ pushedIn more := by simp [pushedIn]
@[simp] theorem poppedIn_append : poppedIn (past ++ more) = poppedIn past ++ poppedIn more := by simp [poppedIn]
@[simp] theorem reportedIn_append : reportedIn (past ++ more) = reportedIn past ++ reportedIn more := by
  simp [reportedIn]

theorem waiting_hold_nothing (count : Nat) : (List.replicate count Executor.waiting).filterMap Executor.held = [] := by
  rw [List.filterMap_eq_nil_iff]
  intro executor member
  rw [(List.mem_replicate.mp member).2]
  rfl

theorem started_at_birth (me : Identity) (empty : db.task = []) : Handed me [] db (PollWorker.start me) := by
  constructor <;>
    simp [returnedIn,pushedIn,poppedIn,reportedIn,PollWorker.start,PollWorker.held,Dispatcher.rows,empty,
      waiting_hold_nothing]

-- A worker only depends on its own started rows in the database.
theorem Handed.frame (handed : Handed me past db w)
    (same : ∀ taskId state, state = running ∨ state = complete →
      (⟨taskId,me.workerId,state,me.pkey⟩ ∈ after.task ↔ ⟨taskId,me.workerId,state,me.pkey⟩ ∈ db.task)) :
    Handed me past after w where
  pushed := handed.pushed
  popped := handed.popped
  reported := handed.reported
  distinct := handed.distinct
  started taskId := by rw [handed.started,same _ _ (.inl rfl),same _ _ (.inr rfl)]
  finished taskId := by rw [handed.finished,same _ _ (.inr rfl)]

theorem Handed.popped_nodup (handed : Handed me past db w) : (poppedIn past).Nodup := by
  have whole := handed.distinct
  rw [handed.pushed,handed.popped,List.append_assoc] at whole
  exact (List.nodup_append.mp whole).1

-- What an executor holds is a running row that nobody has reported yet.
theorem Handed.held_running (handed : Handed me past db w) (held : taskId ∈ w.held) :
    taskId ∉ reportedIn past ∧ ⟨taskId,me.workerId,running,me.pkey⟩ ∈ db.task := by
  have split := handed.reported.nodup_iff.mp handed.popped_nodup
  have open_ : taskId ∉ reportedIn past := fun known =>
    (List.nodup_append.mp split).2.2 taskId known taskId held rfl
  have taken : taskId ∈ returnedIn past := by
    have popped : taskId ∈ poppedIn past := handed.reported.symm.subset (List.mem_append_right _ held)
    rw [handed.pushed,handed.popped]
    exact List.mem_append_left _ (List.mem_append_left _ popped)
  refine ⟨open_,?_⟩
  rcases (handed.started taskId).mp taken with here | closed
  · exact here
  · exact absurd ((handed.finished taskId).mpr closed) open_

theorem Handed.places_nodup (handed : Handed me past db w) :
    (w.dispatcher.rows ++ w.taskQueue ++ w.held).Nodup := by
  have everything : (returnedIn past).Perm (reportedIn past ++ (w.dispatcher.rows ++ w.taskQueue ++ w.held)) := by
    rw [handed.pushed,handed.popped]
    have front := ((handed.reported.append_right w.taskQueue).append_right w.dispatcher.rows)
    refine front.trans ?_
    simp only [List.append_assoc]
    refine List.Perm.append_left _ ?_
    have turned : (w.held ++ (w.taskQueue ++ w.dispatcher.rows)).Perm ((w.taskQueue ++ w.dispatcher.rows) ++ w.held) :=
      List.perm_append_comm
    exact turned.trans (by
      rw [← List.append_assoc]
      exact List.perm_append_comm.append_right w.held)
  exact (List.nodup_append.mp (everything.nodup_iff.mp handed.distinct)).2.1

-- What was returned and not yet popped cannot have been reported.
theorem Handed.unpopped_running (handed : Handed me past db w) (taken : taskId ∈ returnedIn past)
    (unpopped : taskId ∉ poppedIn past) : ⟨taskId,me.workerId,running,me.pkey⟩ ∈ db.task := by
  rcases (handed.started taskId).mp taken with here | closed
  · exact here
  · have known := (handed.finished taskId).mpr closed
    exact absurd (handed.reported.symm.subset (List.mem_append_left _ known)) unpopped

-- The running rows of the worker are in its hands, each in exactly one place.
theorem Handed.running_iff (handed : Handed me past db w) (keyed : Keyed db) (taskId : Int) :
    ⟨taskId,me.workerId,running,me.pkey⟩ ∈ db.task ↔ taskId ∈ w.dispatcher.rows ++ w.taskQueue ++ w.held := by
  have whole : returnedIn past = poppedIn past ++ w.taskQueue ++ w.dispatcher.rows := by
    rw [handed.pushed,handed.popped]
  have distinct := handed.distinct
  rw [whole,List.append_assoc] at distinct
  constructor
  · intro row
    have taken := (handed.started taskId).mpr (.inl row)
    have unreported : taskId ∉ reportedIn past := by
      intro known
      have other := (handed.finished taskId).mp known
      have same := key_unique keyed.task row other rfl
      simp [running,complete] at same
    rw [whole] at taken
    simp only [List.mem_append] at taken ⊢
    rcases taken with (popped | queued) | waiting
    · rcases List.mem_append.mp (handed.reported.subset popped) with known | held
      · exact absurd known unreported
      · exact .inr held
    · exact .inl (.inr queued)
    · exact .inl (.inl waiting)
  · intro somewhere
    have waits : taskId ∈ w.taskQueue ++ w.dispatcher.rows → ⟨taskId,me.workerId,running,me.pkey⟩ ∈ db.task := by
      intro waiting
      refine handed.unpopped_running ?_ fun popped =>
        (List.nodup_append.mp distinct).2.2 taskId popped taskId waiting rfl
      rw [whole,List.append_assoc]
      exact List.mem_append_right _ waiting
    simp only [List.mem_append] at somewhere
    rcases somewhere with (batched | queued) | held
    · exact waits (List.mem_append_right _ batched)
    · exact waits (List.mem_append_left _ queued)
    · exact (handed.held_running held).2

-- What the threads can do, said once for each kind of thread.
theorem dispatch_cases (stepped : dispatch me choice db w = some (after,next,seen)) :
    (∃ picked : List TaskRow, w.dispatcher = .polling ∧
      picked.Subperm (db.task.filter (pendingOf me.pkey me.workerId)) ∧
      after = {db with task:=markRunning me.pkey me.workerId (picked.map TaskRow.taskID) db.task} ∧
      next = {w with dispatcher:=.pushing (picked.map TaskRow.taskID)} ∧
      seen = [.returned (picked.map TaskRow.taskID)]) ∨
    (∃ taskId rows, w.dispatcher = .pushing (taskId :: rows) ∧ after = db ∧
      next = {w with taskQueue:=w.taskQueue ++ [taskId],dispatcher:=.counting rows} ∧ seen = [.pushed taskId]) ∨
    (after = db ∧ next.dispatcher.rows = w.dispatcher.rows ∧ next.taskQueue = w.taskQueue ∧
      next.executors = w.executors ∧ seen = []) := by
  unfold dispatch at stepped
  split at stepped
  · cases stepped
  · split at stepped
    · rename_i polling
      cases ran : invoke db (selectRequest me) choice with
      | mk stored response =>
        rcases invoke_cases (.workerSelectTask me.pkey me.workerId me.topk) rfl ran with
          ⟨rfl,rfl⟩ | ⟨answer,rfl,committed⟩
        · rw [ran] at stepped
          cases stepped
          exact .inr (.inr ⟨rfl,by rw [polling]; rfl,rfl,rfl,rfl⟩)
        · obtain ⟨ids,chosen,rfl⟩ := reply_some committed
          rw [ran] at stepped
          cases stepped
          obtain ⟨_,picked,within,_,rfl,rfl⟩ := WorkerSelectTask.run_some chosen
          exact .inl ⟨picked,polling,within,rfl,rfl,rfl⟩
    · rename_i taskId rows batch
      cases stepped
      exact .inr (.inl ⟨taskId,rows,batch,rfl,rfl,rfl⟩)
    · rename_i rows batch
      cases stepped
      exact .inr (.inr ⟨rfl,by rw [batch]; rfl,rfl,rfl,rfl⟩)
    · rename_i batch
      cases stepped
      refine .inr (.inr ⟨rfl,?_,rfl,rfl,rfl⟩)
      rw [batch]
      by_cases asked : w.stopDispatch = true <;> simp [asked,Dispatcher.rows]
    · cases stepped

theorem execute_cases (stepped : execute me execId choice db w = some (after,next,seen)) :
    (∃ taskId rest, w.executors[execId]? = some .waiting ∧ w.taskQueue = taskId :: rest ∧ after = db ∧
      next = {w with taskQueue:=rest}.setExecutor execId (.executing taskId) ∧ seen = [.popped execId taskId]) ∨
    (∃ taskId, w.executors[execId]? = some (.executing taskId) ∧ after = db.finish me.pkey me.workerId taskId ∧
      next = w.setExecutor execId .reported ∧ seen = [.reported execId taskId]) ∨
    (after = db ∧ next.dispatcher = w.dispatcher ∧ next.taskQueue = w.taskQueue ∧ next.held.Perm w.held ∧ seen = []) := by
  unfold execute at stepped
  split at stepped
  · cases stepped
  · split at stepped
    · cases stepped
    · rename_i waiting
      split at stepped
      · cases stepped
        exact .inr (.inr ⟨rfl,rfl,rfl,held_set waiting rfl rfl,rfl⟩)
      · split at stepped
        · cases stepped
        · rename_i taskId rest queued
          cases stepped
          exact .inl ⟨taskId,rest,waiting,queued,rfl,rfl,rfl⟩
    · rename_i taskId executing
      cases ran : invoke db (updateRequest me taskId) choice with
      | mk stored response =>
        rcases invoke_cases (.workerUpdateTask me.pkey me.workerId taskId complete) rfl ran with
          ⟨rfl,rfl⟩ | ⟨answer,rfl,committed⟩
        · rw [ran] at stepped
          cases stepped
          exact .inr (.inr ⟨rfl,rfl,rfl,.refl _,rfl⟩)
        · obtain ⟨result,updated,rfl⟩ := reply_some committed
          rw [ran] at stepped
          cases stepped
          exact .inr (.inl ⟨taskId,executing,(finish_of_run updated).2,rfl,rfl⟩)
    · rename_i reported
      cases stepped
      exact .inr (.inr ⟨rfl,rfl,rfl,held_set reported rfl rfl,rfl⟩)
    · rename_i finished
      cases stepped
      refine .inr (.inr ⟨rfl,rfl,rfl,held_set finished rfl ?_,rfl⟩)
      by_cases closed : w.stop = true <;> simp [closed,Executor.held]
    · cases stepped

-- The first three fields need nothing of the database: each hand-over inside the
-- worker keeps them.
structure Custody (past : List Event) (w : PollWorker) : Prop where
  pushed : returnedIn past = pushedIn past ++ w.dispatcher.rows
  popped : pushedIn past = poppedIn past ++ w.taskQueue
  reported : (poppedIn past).Perm (reportedIn past ++ w.held)

theorem Handed.custody (handed : Handed me past db w) : Custody past w :=
  ⟨handed.pushed,handed.popped,handed.reported⟩

section Custody
variable (custody : Custody past w)
include custody

theorem Custody.quiet (batch : next.dispatcher.rows = w.dispatcher.rows) (queue : next.taskQueue = w.taskQueue)
    (held : next.held.Perm w.held) : Custody past next where
  pushed := by rw [batch]; exact custody.pushed
  popped := by rw [queue]; exact custody.popped
  reported := custody.reported.trans (held.symm.append_left _)

theorem Custody.returns (polling : w.dispatcher = .polling) (ids : List Int) :
    Custody (past ++ [.returned ids]) {w with dispatcher:=.pushing ids} := by
  refine ⟨?_,?_,?_⟩
  · have before := custody.pushed
    rw [polling] at before
    simpa [returnedIn,pushedIn,Event.returns,Event.pushes,Dispatcher.rows] using before
  · simpa [pushedIn,poppedIn,Event.pushes,Event.pops] using custody.popped
  · simpa [poppedIn,reportedIn,Event.pops,Event.reports,PollWorker.held] using custody.reported

theorem Custody.pushes (batch : w.dispatcher = .pushing (taskId :: rows)) :
    Custody (past ++ [.pushed taskId]) {w with taskQueue:=w.taskQueue ++ [taskId],dispatcher:=.counting rows} := by
  refine ⟨?_,?_,?_⟩
  · have before := custody.pushed
    rw [batch] at before
    simpa [returnedIn,pushedIn,Event.returns,Event.pushes,Dispatcher.rows] using before
  · simp only [pushedIn_append,poppedIn_append,custody.popped]
    simp [pushedIn,poppedIn,Event.pushes,Event.pops]
  · simpa [poppedIn,reportedIn,Event.pops,Event.reports,PollWorker.held] using custody.reported

theorem Custody.pops (waiting : w.executors[execId]? = some .waiting) (queued : w.taskQueue = taskId :: rest) :
    Custody (past ++ [.popped execId taskId]) ({w with taskQueue:=rest}.setExecutor execId (.executing taskId)) := by
  refine ⟨?_,?_,?_⟩
  · simpa [returnedIn,pushedIn,Event.returns,Event.pushes,PollWorker.setExecutor] using custody.pushed
  · have before := custody.popped
    rw [queued] at before
    simpa [pushedIn,poppedIn,Event.pushes,Event.pops,PollWorker.setExecutor] using before
  · have taken : ({w with taskQueue:=rest}.setExecutor execId (.executing taskId)).held.Perm (w.held ++ [taskId]) := by
      simpa [PollWorker.held,PollWorker.setExecutor,Executor.held] using
        filterMap_set Executor.held waiting (.executing taskId)
    have grown := custody.reported.append_right [taskId]
    rw [List.append_assoc] at grown
    have placed := grown.trans (taken.symm.append_left (reportedIn past))
    simpa [poppedIn,reportedIn,Event.pops,Event.reports] using placed

theorem Custody.reports (executing : w.executors[execId]? = some (.executing taskId)) :
    Custody (past ++ [.reported execId taskId]) (w.setExecutor execId .reported) := by
  refine ⟨?_,?_,?_⟩
  · simpa [returnedIn,pushedIn,Event.returns,Event.pushes,PollWorker.setExecutor] using custody.pushed
  · simpa [pushedIn,poppedIn,Event.pushes,Event.pops,PollWorker.setExecutor] using custody.popped
  · have moved := custody.reported.trans ((held_report executing).append_left (reportedIn past))
    simpa [poppedIn,reportedIn,Event.pops,Event.reports] using moved

end Custody

theorem Handed.quiet (handed : Handed me past db w) (batch : next.dispatcher.rows = w.dispatcher.rows)
    (queue : next.taskQueue = w.taskQueue) (held : next.held.Perm w.held) : Handed me past db next := by
  obtain ⟨pushed,popped,reported⟩ := handed.custody.quiet batch queue held
  exact ⟨pushed,popped,reported,handed.distinct,handed.started,handed.finished⟩

-- A batch consists of rows of this worker that were pending.
theorem picked_source {picked : List TaskRow} (within : picked.Subperm (db.task.filter (pendingOf me.pkey me.workerId)))
    (chosen : row ∈ picked) : row = ⟨row.taskID,me.workerId,pending,me.pkey⟩ ∧ row ∈ db.task := by
  obtain ⟨member,waiting⟩ := List.mem_filter.mp (within.subset chosen)
  simp only [pendingOf,Bool.and_eq_true,beq_iff_eq] at waiting
  obtain ⟨⟨here,owner⟩,state⟩ := waiting
  exact ⟨by rw [← here,← owner,pending,← state],member⟩

theorem picked_iff {picked : List TaskRow} (within : picked.Subperm (db.task.filter (pendingOf me.pkey me.workerId)))
    (taskId : Int) : taskId ∈ picked.map TaskRow.taskID ↔ ⟨taskId,me.workerId,pending,me.pkey⟩ ∈ picked := by
  constructor
  · intro listed
    obtain ⟨row,chosen,rfl⟩ := List.mem_map.mp listed
    rw [← (picked_source within chosen).1]
    exact chosen
  · intro chosen
    exact List.mem_map_of_mem chosen

-- The rows of the batch are running afterwards; no other started row is touched.
theorem handOut_started {picked : List TaskRow} (keyed : Keyed db)
    (within : picked.Subperm (db.task.filter (pendingOf me.pkey me.workerId))) (started : state = running ∨ state = complete)
    (taskId : Int) :
    ⟨taskId,me.workerId,state,me.pkey⟩ ∈ markRunning me.pkey me.workerId (picked.map TaskRow.taskID) db.task ↔
      ⟨taskId,me.workerId,state,me.pkey⟩ ∈ db.task ∨ (state = running ∧ taskId ∈ picked.map TaskRow.taskID) := by
  have apart : ⟨taskId,me.workerId,state,me.pkey⟩ ∉ picked := by
    intro chosen
    have same : state = pending := congrArg TaskRow.state (picked_source within chosen).1
    rcases started with rfl | rfl <;> exact absurd same (by decide)
  rw [mem_handOut keyed.task within,picked_iff within]
  constructor
  · intro given
    rcases given with ⟨member,_⟩ | ⟨old,chosen,same⟩
    · exact .inl member
    · have named : taskId = old.taskID := congrArg TaskRow.taskID same
      rw [(picked_source within chosen).1,← named] at chosen
      exact .inr ⟨congrArg TaskRow.state same,chosen⟩
  · intro given
    rcases given with member | ⟨rfl,chosen⟩
    · exact .inl ⟨member,apart⟩
    · exact .inr ⟨_,chosen,rfl⟩

-- A pending row has never been returned before.
theorem Handed.picked_fresh {picked : List TaskRow} (handed : Handed me past db w) (keyed : Keyed db)
    (within : picked.Subperm (db.task.filter (pendingOf me.pkey me.workerId))) (listed : taskId ∈ picked.map TaskRow.taskID) :
    taskId ∉ returnedIn past := by
  intro known
  have waiting := (picked_source within ((picked_iff within taskId).mp listed)).2
  rcases (handed.started taskId).mp known with here | closed
  · exact absurd (key_unique keyed.task waiting here rfl) (by simp [pending,running])
  · exact absurd (key_unique keyed.task waiting closed rfl) (by simp [pending,complete])

theorem Handed.returned {picked : List TaskRow} (handed : Handed me past db w) (keyed : Keyed db) (polling : w.dispatcher = .polling)
    (within : picked.Subperm (db.task.filter (pendingOf me.pkey me.workerId))) :
    Handed me (past ++ [.returned (picked.map TaskRow.taskID)])
      {db with task:=markRunning me.pkey me.workerId (picked.map TaskRow.taskID) db.task}
      {w with dispatcher:=.pushing (picked.map TaskRow.taskID)} := by
  have different : ¬(complete = running) := by decide
  have grown : returnedIn (past ++ [.returned (picked.map TaskRow.taskID)]) =
      returnedIn past ++ picked.map TaskRow.taskID := by
    simp [returnedIn,Event.returns]
  obtain ⟨pushed,popped,reported⟩ := handed.custody.returns polling (picked.map TaskRow.taskID)
  refine ⟨pushed,popped,reported,?_,?_,?_⟩
  · rw [grown,List.nodup_append]
    refine ⟨handed.distinct,picked_ids_nodup keyed.task within,?_⟩
    rintro taskId known _ listed rfl
    exact handed.picked_fresh keyed within listed known
  · intro taskId
    rw [grown,List.mem_append,handed.started,handOut_started keyed within (.inl rfl),
      handOut_started keyed within (.inr rfl)]
    simp only [true_and,different,false_and,or_false]
    exact or_right_comm
  · intro taskId
    have same : reportedIn (past ++ [.returned (picked.map TaskRow.taskID)]) = reportedIn past := by
      simp [reportedIn,Event.reports]
    rw [same,handed.finished,handOut_started keyed within (.inr rfl)]
    simp only [different,false_and,or_false]

theorem Handed.dispatch (handed : Handed me past db w) (keyed : Keyed db)
    (stepped : dispatch me choice db w = some (after,next,seen)) :
    Handed me (past ++ seen) after next ∧ Change db (some me.workerId) after := by
  rcases dispatch_cases stepped with ⟨picked,polling,within,rfl,rfl,rfl⟩ | ⟨taskId,rows,batch,rfl,rfl,rfl⟩ |
    ⟨rfl,batch,queue,executors,rfl⟩
  · exact ⟨handed.returned keyed polling within,.handedOut within⟩
  · obtain ⟨pushed,popped,reported⟩ := handed.custody.pushes batch
    refine ⟨⟨pushed,popped,reported,?_,?_,?_⟩,.none⟩
    · simpa [returnedIn,Event.returns] using handed.distinct
    · simpa [returnedIn,Event.returns] using handed.started
    · simpa [reportedIn,Event.reports] using handed.finished
  · rw [List.append_nil]
    exact ⟨handed.quiet batch queue (by simp [PollWorker.held,executors]),.none⟩

theorem Handed.execute (handed : Handed me past db w) (keyed : Keyed db)
    (stepped : execute me execId choice db w = some (after,next,seen)) :
    Handed me (past ++ seen) after next ∧ Change db (some me.workerId) after := by
  rcases execute_cases stepped with ⟨taskId,rest,waiting,queued,rfl,rfl,rfl⟩ | ⟨taskId,executing,rfl,rfl,rfl⟩ |
    ⟨rfl,batch,queue,held,rfl⟩
  · obtain ⟨pushed,popped,reported⟩ := handed.custody.pops waiting queued
    refine ⟨⟨pushed,popped,reported,?_,?_,?_⟩,.none⟩
    · simpa [returnedIn,Event.returns] using handed.distinct
    · simpa [returnedIn,Event.returns] using handed.started
    · simpa [reportedIn,Event.reports] using handed.finished
  · have held : taskId ∈ w.held := (held_report executing).symm.subset List.mem_cons_self
    obtain ⟨open_,present⟩ := handed.held_running held
    have table := mem_finish_task keyed present (completed_iff.mpr ⟨rfl,rfl,rfl⟩)
    obtain ⟨pushed,popped,reported⟩ := handed.custody.reports executing
    refine ⟨⟨pushed,popped,reported,?_,?_,?_⟩,.finished present⟩
    · simpa [returnedIn,Event.returns] using handed.distinct
    · intro other
      have same : returnedIn (past ++ [.reported execId taskId]) = returnedIn past := by
        simp [returnedIn,Event.returns]
      rw [same,handed.started,table,table]
      by_cases this : other = taskId
      · subst this
        simp [present]
      · simp [this,TaskRow.key]
    · intro other
      have split : other ∈ reportedIn (past ++ [.reported execId taskId]) ↔ other ∈ reportedIn past ∨ other = taskId := by
        simp [reportedIn,Event.reports]
      rw [split,handed.finished,table]
      by_cases this : other = taskId
      · simp [this]
      · simp [this,TaskRow.key]
  · rw [List.append_nil]
    exact ⟨handed.quiet (by rw [batch]) queue held,.none⟩

theorem endServing_frame (stepped : endServing w = some next) :
    next.dispatcher = w.dispatcher ∧ next.taskQueue = w.taskQueue ∧ next.executors = w.executors := by
  unfold endServing at stepped
  split at stepped
  · cases stepped
  · split at stepped
    · cases stepped
      exact ⟨rfl,rfl,rfl⟩
    · split at stepped <;> cases stepped
      exact ⟨rfl,rfl,rfl⟩
    · split at stepped <;> cases stepped
      exact ⟨rfl,rfl,rfl⟩
    · cases stepped
      exact ⟨rfl,rfl,rfl⟩
    · split at stepped <;> cases stepped
      exact ⟨rfl,rfl,rfl⟩
    · cases stepped

theorem Handed.endServing (handed : Handed me past db w) (stepped : endServing w = some next) :
    Handed me past db next := by
  obtain ⟨dispatcher,queue,executors⟩ := endServing_frame stepped
  exact handed.quiet (by rw [dispatcher]) queue (by simp [PollWorker.held,executors])

end DbosScheduler.Worker
