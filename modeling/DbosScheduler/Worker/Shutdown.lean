import DbosScheduler.Lib.Machine
import DbosScheduler.Worker.PollWorker

namespace DbosScheduler.Worker
open Machine Sql Table

-- One MockPollWorker against a database in which everybody else may commit
-- anything at any time.
inductive WorkerStep where
  | dispatch (choice : Choice)
  | execute (execId : Nat) (choice : Choice)
  | endServing
  | other (call : Call) (choice : Choice)
  deriving Repr, DecidableEq

def station (me : Identity) : Advance (Database × PollWorker) WorkerStep Event
  | (db,w),.dispatch choice => (dispatch me choice db w).map fun moved => ((moved.1,moved.2.1),moved.2.2)
  | (db,w),.execute execId choice => (execute me execId choice db w).map fun moved => ((moved.1,moved.2.1),moved.2.2)
  | (db,w),.endServing => (endServing w).map fun next => ((db,next),[])
  | (db,w),.other call choice => some (((call.execute choice db).1,w),[])

-- The moves of the threads with the database left out: it only decides which ids
-- a poll returns and whether an invocation fails.
inductive Moves (w : PollWorker) : PollWorker → List Event → Prop where
  | returned {ids : List Int} : w.dispatcher = .polling → Moves w {w with dispatcher:=.pushing ids} [.returned ids]
  | failed : w.dispatcher = .polling → Moves w {w with dispatcher:=.pushing []} []
  | pushed {taskId : Int} {rows : List Int} : w.dispatcher = .pushing (taskId :: rows) →
      Moves w {w with taskQueue:=w.taskQueue ++ [taskId],dispatcher:=.counting rows} [.pushed taskId]
  | counted {rows : List Int} : w.dispatcher = .counting rows →
      Moves w {w with totalTasks:=w.totalTasks+1,dispatcher:=.pushing rows} []
  | tested : w.dispatcher = .pushing [] →
      Moves w {w with dispatcher:=if w.stopDispatch then .stopped else .polling} []
  | popped {execId : Nat} {taskId : Int} {rest : List Int} : w.executors[execId]? = some .waiting → w.stop = false →
      w.taskQueue = taskId :: rest →
      Moves w ({w with taskQueue:=rest}.setExecutor execId (.executing taskId)) [.popped execId taskId]
  | aborted {execId : Nat} {taskId : Int} : w.executors[execId]? = some (.executing taskId) →
      Moves w {w with aborted:=true} []
  | reported {execId : Nat} {taskId : Int} : w.executors[execId]? = some (.executing taskId) →
      Moves w (w.setExecutor execId .reported) [.reported execId taskId]
  | finished {execId : Nat} : w.executors[execId]? = some .reported →
      Moves w ({w with totalFinishedTasks:=w.totalFinishedTasks+1}.setExecutor execId .finished) []
  | looped {execId : Nat} {executor : Executor} : w.executors[execId]? = some executor →
      (executor = .finished ∧ w.stop = false) ∨ ((executor = .waiting ∨ executor = .finished) ∧ w.stop = true) →
      Moves w (w.setExecutor execId (if w.stop then .stopped else .waiting)) []
  | ending {next : PollWorker} : endServing w = some next → Moves w next []

variable {me : Identity} {past seen : List Event} {db after : Database} {w next : PollWorker}

theorem dispatch_moves (stepped : dispatch me choice db w = some (after,next,seen)) : Moves w next seen := by
  unfold dispatch at stepped
  split at stepped
  · cases stepped
  · split at stepped
    · rename_i polling
      split at stepped <;> cases stepped
      · exact .returned polling
      · exact .failed polling
    · cases stepped
      exact .pushed ‹_›
    · cases stepped
      exact .counted ‹_›
    · cases stepped
      exact .tested ‹_›
    · cases stepped

theorem execute_moves (stepped : execute me execId choice db w = some (after,next,seen)) : Moves w next seen := by
  unfold execute at stepped
  split at stepped
  · cases stepped
  · split at stepped
    · cases stepped
    · rename_i waiting
      split at stepped
      · rename_i closed
        cases stepped
        have move : Moves w (w.setExecutor execId (if w.stop then .stopped else .waiting)) [] :=
          .looped waiting (.inr ⟨.inl rfl,closed⟩)
        simpa [closed] using move
      · rename_i serving
        split at stepped
        · cases stepped
        · rename_i queued
          cases stepped
          exact .popped waiting (by simpa using serving) queued
    · rename_i executing
      split at stepped <;> cases stepped
      · exact .aborted executing
      · exact .reported executing
    · cases stepped
      exact .finished ‹_›
    · rename_i finished
      cases stepped
      cases closed : w.stop with
      | false =>
        have move : Moves w (w.setExecutor execId (if w.stop then .stopped else .waiting)) [] :=
          .looped finished (.inl ⟨rfl,closed⟩)
        simpa [closed] using move
      | true =>
        have move : Moves w (w.setExecutor execId (if w.stop then .stopped else .waiting)) [] :=
          .looped finished (.inr ⟨.inr rfl,closed⟩)
        simpa [closed] using move
    · cases stepped

theorem station_moves {s s' : Database × PollWorker} (stepped : station me s step = some (s',seen)) :
    Moves s.2 s'.2 seen ∨ (s'.2 = s.2 ∧ seen = []) := by
  obtain ⟨db,w⟩ := s
  cases step with
  | dispatch choice =>
    obtain ⟨⟨after,next,events⟩,moved,same⟩ := Option.map_eq_some_iff.mp stepped
    cases same
    exact .inl (dispatch_moves moved)
  | execute execId choice =>
    obtain ⟨⟨after,next,events⟩,moved,same⟩ := Option.map_eq_some_iff.mp stepped
    cases same
    exact .inl (execute_moves moved)
  | endServing =>
    obtain ⟨next,moved,same⟩ := Option.map_eq_some_iff.mp stepped
    cases same
    exact .inl (.ending moved)
  | other call choice =>
    cases stepped
    exact .inr ⟨rfl,rfl⟩

-- The three stages behind the closer: the dispatcher is gone, then the queue is
-- empty for good, then every executor is told to stop, and in the end all have.
def Closer.rank : Closer → Nat
  | .serving => 0
  | .joiningDispatch => 1
  | .draining => 2
  | .stopping => 3
  | .joining => 4
  | .ended => 5

def Dispatcher.uncounted : Dispatcher → Nat
  | .counting _ => 1
  | _ => 0

structure Orderly (past : List Event) (w : PollWorker) : Prop where
  pushed : returnedIn past = pushedIn past ++ w.dispatcher.rows
  popped : pushedIn past = poppedIn past ++ w.taskQueue
  reported : (poppedIn past).Perm (reportedIn past ++ w.held)
  counted : w.totalTasks + w.dispatcher.uncounted = (pushedIn past).length
  finished : w.totalFinishedTasks + w.executors.countP (· == .reported) = (reportedIn past).length
  joined : 2 ≤ w.closer.rank → w.dispatcher = .stopped
  drained : 3 ≤ w.closer.rank → w.taskQueue = []
  stopped : w.stop = true ↔ 4 ≤ w.closer.rank
  ended : w.closer = .ended → ∀ executor ∈ w.executors, executor = .stopped

theorem start_orderly (me : Identity) : Orderly [] (PollWorker.start me) := by
  constructor <;>
    simp [returnedIn,pushedIn,poppedIn,reportedIn,PollWorker.start,PollWorker.held,Dispatcher.rows,Dispatcher.uncounted,
      Closer.rank,waiting_hold_nothing,List.countP_replicate]

-- One executor moves on; the tasks in hand and the reports to count follow.
theorem unfinished_set {old : Executor} {execId : Nat} (now : w.executors[execId]? = some old) (new : Executor) :
    (w.setExecutor execId new).executors.countP (· == .reported) + (if old = .reported then 1 else 0) =
      w.executors.countP (· == .reported) + (if new = .reported then 1 else 0) := by
  obtain ⟨inside,rfl⟩ := List.getElem?_eq_some_iff.mp now
  rw [PollWorker.setExecutor,List.countP_set inside]
  have present : w.executors[execId] = .reported → 0 < w.executors.countP (· == .reported) := by
    intro same
    rw [List.countP_pos_iff]
    exact ⟨_,List.getElem_mem inside,by simp [same]⟩
  by_cases here : w.executors[execId] = .reported
  · have positive := present here
    by_cases there : new = .reported <;> simp [here,there] <;> omega
  · by_cases there : new = .reported <;> simp [here,there]

theorem Orderly.running (orderly : Orderly past w) (here : w.dispatcher ≠ .stopped) : w.closer.rank < 2 := by
  by_contra late
  exact here (orderly.joined (by omega))

theorem Orderly.serving {executor : Executor} {execId : Nat} (orderly : Orderly past w) (now : w.executors[execId]? = some executor)
    (live : executor ≠ .stopped) : w.closer ≠ .ended := by
  intro done
  exact live (orderly.ended done executor (List.mem_of_getElem? now))

theorem Orderly.custody (orderly : Orderly past w) : Custody past w := ⟨orderly.pushed,orderly.popped,orderly.reported⟩

-- A move of the dispatcher happens before it is joined, so it owes nothing to the
-- stages of the shutdown.
theorem Orderly.dispatched (orderly : Orderly past w) (here : w.dispatcher ≠ .stopped) {dispatcher : Dispatcher}
    {taskQueue : List Int} {totalTasks : Nat}
    (custody : Custody (past ++ seen) {w with dispatcher:=dispatcher,taskQueue:=taskQueue}) (silent : reportedIn seen = [])
    (counted : totalTasks + dispatcher.uncounted = (pushedIn (past ++ seen)).length) :
    Orderly (past ++ seen) {w with dispatcher:=dispatcher,taskQueue:=taskQueue,totalTasks:=totalTasks} := by
  have early := orderly.running here
  refine ⟨custody.pushed,custody.popped,custody.reported,counted,?_,?_,?_,orderly.stopped,orderly.ended⟩
  · simpa [silent] using orderly.finished
  · intro late
    exact absurd late (Nat.not_le.mpr early)
  · intro late
    exact absurd late (by simp only; omega)

-- A move of an executor that is not done keeps what the dispatcher has passed on.
theorem Orderly.executed (orderly : Orderly past w) (now : w.executors[execId]? = some old) (live : old ≠ .stopped)
    {new : Executor} {totalFinishedTasks : Nat} (custody : Custody (past ++ seen) (w.setExecutor execId new))
    (silent : pushedIn seen = [])
    (finished : totalFinishedTasks + (w.setExecutor execId new).executors.countP (· == .reported) =
      (reportedIn (past ++ seen)).length) :
    Orderly (past ++ seen) ({w with totalFinishedTasks:=totalFinishedTasks}.setExecutor execId new) := by
  refine ⟨custody.pushed,custody.popped,custody.reported,?_,finished,orderly.joined,orderly.drained,orderly.stopped,?_⟩
  · simpa [silent,PollWorker.setExecutor] using orderly.counted
  · intro done
    exact absurd done (orderly.serving now live)

theorem Orderly.endServing (orderly : Orderly past w) (stepped : endServing w = some next) : Orderly past next := by
  obtain ⟨pushed,popped,reported,counted,finished,joined,drained,stopped,ended⟩ := orderly
  unfold Worker.endServing at stepped
  split at stepped
  · cases stepped
  · split at stepped
    · rename_i here
      cases stepped
      refine ⟨pushed,popped,reported,counted,finished,?_,?_,?_,by simp⟩
      · simp [Closer.rank]
      · simp [Closer.rank]
      · simpa [Closer.rank,here] using stopped
    · rename_i here
      split at stepped <;> cases stepped
      rename_i gone
      refine ⟨pushed,popped,reported,counted,finished,fun _ => gone,?_,?_,by simp⟩
      · simp [Closer.rank]
      · simpa [Closer.rank,here] using stopped
    · rename_i here
      split at stepped <;> cases stepped
      rename_i empty
      refine ⟨pushed,popped,reported,counted,finished,fun _ => joined (by simp [here,Closer.rank]),?_,?_,by simp⟩
      · exact fun _ => List.length_eq_zero_iff.mp empty
      · simpa [Closer.rank,here] using stopped
    · rename_i here
      cases stepped
      refine ⟨pushed,popped,reported,counted,finished,fun _ => joined (by simp [here,Closer.rank]),
        fun _ => drained (by simp [here,Closer.rank]),?_,by simp⟩
      simp [Closer.rank]
    · rename_i here
      split at stepped <;> cases stepped
      rename_i gone
      refine ⟨pushed,popped,reported,counted,finished,fun _ => joined (by simp [here,Closer.rank]),
        fun _ => drained (by simp [here,Closer.rank]),?_,fun _ => ?_⟩
      · simpa [Closer.rank,here] using stopped
      · simpa using gone
    · cases stepped

theorem Orderly.step (orderly : Orderly past w) (moves : Moves w next seen) : Orderly (past ++ seen) next := by
  have counted := orderly.counted
  have custody := orderly.custody
  cases moves with
  | @returned ids polling =>
    rw [polling] at counted
    refine orderly.dispatched (by simp [polling]) (custody.returns polling ids) rfl ?_
    simpa [pushedIn,Event.pushes,Dispatcher.uncounted] using counted
  | failed polling =>
    rw [polling] at counted
    refine orderly.dispatched (by simp [polling]) ?_ rfl ?_
    · rw [List.append_nil]
      exact custody.quiet (by simp [polling,Dispatcher.rows]) rfl (.refl _)
    · simpa [Dispatcher.uncounted] using counted
  | @pushed taskId rows batch =>
    rw [batch] at counted
    refine orderly.dispatched (by simp [batch]) (custody.pushes batch) rfl ?_
    simp only [Dispatcher.uncounted] at counted
    simp [pushedIn,Event.pushes,Dispatcher.uncounted] at counted ⊢
    omega
  | @counted rows batch =>
    rw [batch] at counted
    refine orderly.dispatched (by simp [batch]) ?_ rfl ?_
    · rw [List.append_nil]
      exact custody.quiet (by simp [batch,Dispatcher.rows]) rfl (.refl _)
    · simpa [Dispatcher.uncounted] using counted
  | tested batch =>
    rw [batch] at counted
    refine orderly.dispatched (by simp [batch]) ?_ rfl ?_
    · rw [List.append_nil]
      refine custody.quiet ?_ rfl (.refl _)
      cases asked : w.stopDispatch <;> simp [batch,Dispatcher.rows]
    · cases asked : w.stopDispatch <;> simpa [Dispatcher.uncounted] using counted
  | @popped execId taskId rest waiting open_ queued =>
    have early : w.closer.rank < 3 := by
      by_contra late
      rw [orderly.drained (by omega)] at queued
      cases queued
    obtain ⟨pushed,popped,reported⟩ := custody.pops waiting queued
    refine ⟨pushed,popped,reported,?_,?_,orderly.joined,?_,orderly.stopped,?_⟩
    · simpa [pushedIn,Event.pushes,PollWorker.setExecutor] using counted
    · have same := unfinished_set waiting (.executing taskId)
      have before := orderly.finished
      have silent : reportedIn (past ++ [.popped execId taskId]) = reportedIn past := by simp [reportedIn,Event.reports]
      simp only [reduceCtorEq,if_false,Nat.add_zero] at same
      rw [silent,← before,← same]
      rfl
    · intro late
      exact absurd late (Nat.not_le.mpr early)
    · intro done
      exact absurd done (orderly.serving waiting (by simp))
  | aborted =>
    rw [List.append_nil]
    exact ⟨custody.pushed,custody.popped,custody.reported,counted,orderly.finished,orderly.joined,orderly.drained,
      orderly.stopped,orderly.ended⟩
  | @reported execId taskId executing =>
    refine orderly.executed executing (by simp) (custody.reports executing) rfl ?_
    have same := unfinished_set executing .reported
    have before := orderly.finished
    simp only [reduceCtorEq,if_false,if_true,Nat.add_zero] at same
    simp only [reportedIn_append,List.length_append]
    simp [reportedIn,Event.reports] at before ⊢
    omega
  | @finished execId there =>
    have same := unfinished_set there .finished
    have before := orderly.finished
    simp only [reduceCtorEq,if_false,if_true,Nat.add_zero] at same
    refine orderly.executed there (by simp) ?_ rfl ?_
    · rw [List.append_nil]
      exact custody.quiet rfl rfl (held_set there rfl rfl)
    · rw [List.append_nil]
      omega
  | @looped execId executor there reason =>
    have quiet : executor ≠ .stopped ∧ executor ≠ .reported ∧ executor.held = none := by
      rcases reason with ⟨rfl,_⟩ | ⟨rfl | rfl,_⟩ <;> simp [Executor.held]
    have idle : (if w.stop then Executor.stopped else .waiting) ≠ .reported ∧
        (if w.stop then Executor.stopped else .waiting).held = none := by
      cases w.stop <;> simp [Executor.held]
    have same := unfinished_set there (if w.stop then .stopped else .waiting)
    have before := orderly.finished
    simp only [quiet.2.1,idle.1,if_false,Nat.add_zero] at same
    refine orderly.executed there quiet.1 ?_ rfl ?_
    · rw [List.append_nil]
      exact custody.quiet rfl rfl (held_set there quiet.2.2 idle.2)
    · rw [List.append_nil,same]
      exact before
  | ending stepped =>
    rw [List.append_nil]
    exact orderly.endServing stepped

-- What the caller of endServing may rely on.
structure Clean (past : List Event) (w : PollWorker) : Prop where
  queue : w.taskQueue = []
  held : w.held = []
  reported : (reportedIn past).Perm (returnedIn past)
  totals : w.totalTasks = w.totalFinishedTasks

theorem Orderly.clean (orderly : Orderly past w) (ended : w.closer = .ended) : Clean past w := by
  have gone := orderly.joined (by simp [ended,Closer.rank])
  have empty := orderly.drained (by simp [ended,Closer.rank])
  have stopped := orderly.ended ended
  have idle : w.held = [] := by
    rw [PollWorker.held,List.filterMap_eq_nil_iff]
    intro executor member
    rw [stopped executor member]
    rfl
  have settled : w.executors.countP (· == .reported) = 0 := by
    rw [List.countP_eq_zero]
    intro executor member
    simp [stopped executor member]
  have pushed := orderly.pushed
  have popped := orderly.popped
  have reported := orderly.reported
  rw [gone,Dispatcher.rows,List.append_nil] at pushed
  rw [empty,List.append_nil] at popped
  rw [idle,List.append_nil] at reported
  refine ⟨empty,idle,?_,?_⟩
  · rw [pushed,popped]
    exact reported.symm
  · have counted := orderly.counted
    have finished := orderly.finished
    rw [gone,popped,reported.length_eq] at counted
    rw [settled] at finished
    simp only [Dispatcher.uncounted] at counted
    omega

theorem orderly_of_run {moves : List (Move (Database × PollWorker) WorkerStep Event)} {last : Database × PollWorker}
    (path : Runs (station me) (db,PollWorker.start me) moves last) : Orderly (observed moves) last.2 := by
  refine path.past (fun past s => Orderly past s.2) (start_orderly me) ?_
  intro past s step next seen orderly stepped
  rcases station_moves stepped with moved | ⟨same,rfl⟩
  · exact orderly.step moved
  · rw [same,List.append_nil]
    exact orderly

end DbosScheduler.Worker
