import DbosScheduler.Poll.Shutdown
import DbosScheduler.Worker.Progress

namespace DbosScheduler.Poll
open Machine Client Sql Scheduler Worker Table

variable {cfg : Setting} {db : Database} {s next last : State}

-- Every task row was made for a worker of the roster, in its partition.
def Owned (cfg : Config) (db : Database) : Prop :=
  ∀ task ∈ db.task, (∃ w < cfg.numWorkers, task.workerID = (w : Int) ∧ task.pkey = (w % cfg.partitions : Nat)) ∧
    (task.state = pending ∨ task.state = running ∨ task.state = complete)

theorem Owned.change {cfg : Config} {db after : Database} (owned : Owned cfg db) (accounted : Accounted cfg db)
    (change : Change db who after) : Owned cfg after := by
  cases change with
  | none => exact owned
  | @placed pkey taskID row free =>
    intro task member
    rcases List.mem_append.mp member with old | new
    · exact owned task old
    · cases List.mem_singleton.mp new
      obtain ⟨w,inside,named,here⟩ := accounted.roster.place free.1
      exact ⟨⟨w,inside,named,here⟩,.inl rfl⟩
  | handedOut within =>
    intro task member
    rcases (mem_handOut accounted.keyed.task within).mp member with ⟨old,_⟩ | ⟨old,chosen,rfl⟩
    · exact owned task old
    · exact ⟨(owned old (List.mem_filter.mp (within.subset chosen)).1).1,.inr (.inl rfl)⟩
  | finished present =>
    intro task member
    rcases (mem_finish_task accounted.keyed present (completed_iff.mpr ⟨rfl,rfl,rfl⟩) task).mp member with rfl | ⟨old,_⟩
    · exact ⟨(owned _ present).1,.inr (.inr rfl)⟩
    · exact owned task old

-- A state in which every worker is at its work.
structure Working (cfg : Setting) (past : List Event) (s : State) : Prop where
  sound : Sound cfg past s
  owned : Owned cfg.scheduler s.db
  manned : ∀ w, Manned (cfg.identity w) (s.workers w)

theorem Working.step (working : Working cfg past s) (stepped : advance cfg s action = some (next,seen)) :
    Working cfg (past ++ seen) next := by
  obtain ⟨sound,who,change⟩ := working.sound.step stepped
  refine ⟨sound,working.owned.change working.sound.accounted change,?_⟩
  intro w
  rcases advance_moves stepped w with moved | ⟨same,_⟩
  · exact (working.manned w).step moved
  · rw [same]
    exact working.manned w

theorem working_of_run (path : Runs (advance cfg) (State.start cfg db taskindex) moves last) : Working cfg (observed moves) last := by
  refine path.past (Working cfg) ⟨start_sound cfg db taskindex,?_,fun w => start_manned _⟩ fun _ _ _ _ _ working stepped =>
    working.step stepped
  intro task member
  cases member

def remaining (cfg : Setting) (s : State) : Nat :=
  11 * pendingTasks s.db + ((List.range cfg.scheduler.numWorkers).map fun w => (s.workers w).load).sum

-- One worker's part of a sum over all of them.
theorem sum_setWorker (s : State) (db : Database) (worker : PollWorker) (inside : w < n) :
    ((List.range n).map fun v => ((s.setWorker db w worker).workers v).load).sum + (s.workers w).load =
      ((List.range n).map fun v => (s.workers v).load).sum + worker.load := by
  induction n with
  | zero => omega
  | succ n ih =>
    simp only [List.range_succ,List.map_append,List.map_cons,List.map_nil,List.sum_append,List.sum_singleton]
    by_cases here : w = n
    · subst here
      have others : ((List.range w).map fun v => ((s.setWorker db w worker).workers v).load) =
          (List.range w).map fun v => (s.workers v).load := by
        apply List.map_congr_left
        intro v member
        have other : v ≠ w := Nat.ne_of_lt (List.mem_range.mp member)
        simp [State.setWorker,other]
      rw [others]
      simp only [State.setWorker,if_true]
      omega
    · have before := ih (by omega)
      have last : (s.setWorker db w worker).workers n = s.workers n := by simp [State.setWorker,Ne.symm here]
      rw [last]
      omega

theorem sum_idle {s : State} (idle : ∀ w < n, (s.workers w).load = 0) :
    ((List.range n).map fun w => (s.workers w).load).sum = 0 := by
  apply List.sum_eq_zero_iff_forall_eq_nat.mpr
  intro load member
  obtain ⟨w,inside,rfl⟩ := List.mem_map.mp member
  exact idle w (List.mem_range.mp inside)

-- What one worker saves is saved in all.
theorem remaining_setWorker {db : Database} {worker : PollWorker} (inside : w < cfg.scheduler.numWorkers)
    (less : 11 * pendingTasks db + worker.load < 11 * pendingTasks s.db + (s.workers w).load) :
    remaining cfg (s.setWorker db w worker) < remaining cfg s := by
  have moved := sum_setWorker s db worker inside
  simp only [remaining]
  have same : (s.setWorker db w worker).db = db := rfl
  rw [same]
  omega

-- What the code takes for granted of its options: a worker has an executor and polls for
-- at least one task, and its capacity is an int.
structure Staffed (cfg : Setting) : Prop where
  executors : ∀ w < cfg.scheduler.numWorkers, 0 < cfg.executors w
  topk : ∀ w < cfg.scheduler.numWorkers, 0 < cfg.topk w
  funded : 0 ≤ cfg.scheduler.workerCapacity
  legal : integer cfg.scheduler.workerCapacity = true

def AllUp (cfg : Setting) (s : State) : Prop := ∀ w < cfg.scheduler.numWorkers, Up (s.workers w)

theorem AllUp.setWorker (up : AllUp cfg s) {worker : PollWorker} (kept : Up worker) (db : Database) (w : Nat) :
    AllUp cfg (s.setWorker db w worker) := by
  intro v inside
  by_cases here : v = w
  · simpa [State.setWorker,here] using kept
  · simpa [State.setWorker,here] using up v inside

-- The report of a task in an executor's hands goes through.
theorem Working.reports (working : Working cfg past s) (staffed : Staffed cfg) (held : taskId ∈ (s.workers w).held) :
    ∃ after reply, invoke s.db (updateRequest (cfg.identity w) taskId) {} = (after,some reply) ∧
      pendingTasks after = pendingTasks s.db := by
  have accounted := working.sound.accounted
  obtain ⟨_,present⟩ := (working.sound.handed w).held_running held
  have fits : ∀ row ∈ s.db.worker, row.key = ((cfg.identity w).pkey,(cfg.identity w).workerId) →
      integer (row.capacity + 1) = true := by
    intro row member key
    obtain ⟨here,named⟩ := Prod.mk.inj key
    have account : row.capacity + (unfinished s.db row.pkey row.workerID : Int) = cfg.scheduler.workerCapacity :=
      accounted.balanced row member
    have counted : 0 < unfinished s.db row.pkey row.workerID := by
      apply List.countP_pos_iff.mpr
      refine ⟨_,present,?_⟩
      simp [here,named]
    have low := accounted.nonNegative staffed.funded row member
    have legal := staffed.legal
    simp only [integer,Bool.and_eq_true,decide_eq_true_eq] at legal ⊢
    omega
  have commits : (WorkerUpdateTask.run (cfg.identity w).pkey (cfg.identity w).workerId taskId complete s.db).isSome = true :=
    WorkerUpdateTask.commits.mpr fits
  obtain ⟨⟨result,after⟩,ran⟩ := Option.isSome_iff_exists.mp commits
  obtain ⟨_,rfl⟩ := finish_of_run ran
  refine ⟨_,_,invoke_ran (.workerUpdateTask (cfg.identity w).pkey (cfg.identity w).workerId taskId complete) rfl rfl
    (by simp [Call.run,reply,ran]; rfl),pendingTasks_finish accounted.keyed present⟩

-- The steps of the workers' own threads, with no failed transaction.
def Action.ofWorker : Action → Prop
  | .dispatch _ choice | .execute _ _ choice => choice = {}
  | _ => False

theorem advance_dispatch {worker : PollWorker} {seen : List Worker.Event} (inside : w < cfg.scheduler.numWorkers)
    (stepped : dispatch (cfg.identity w) choice s.db (s.workers w) = some (db,worker,seen)) :
    advance cfg s (.dispatch w choice) = some (s.setWorker db w worker,seen.map (.worker w)) := by
  simp only [advance]
  rw [if_pos inside,stepped]
  rfl

theorem advance_execute {worker : PollWorker} {seen : List Worker.Event} (inside : w < cfg.scheduler.numWorkers)
    (stepped : execute (cfg.identity w) execId choice s.db (s.workers w) = some (db,worker,seen)) :
    advance cfg s (.execute w execId choice) = some (s.setWorker db w worker,seen.map (.worker w)) := by
  simp only [advance]
  rw [if_pos inside,stepped]
  rfl

-- A worker with anything in hand can go on with it.
theorem Working.busy (working : Working cfg past s) (staffed : Staffed cfg) (up : AllUp cfg s)
    (inside : w < cfg.scheduler.numWorkers) (busy : 0 < (s.workers w).load) :
    ∃ action next seen, advance cfg s action = some (next,seen) ∧ action.ofWorker ∧ AllUp cfg next ∧
      remaining cfg next < remaining cfg s := by
  have manned := working.manned w
  by_cases polling : (s.workers w).dispatcher = .polling
  · obtain ⟨execId,old,now,useful⟩ := idle_dispatcher manned (staffed.executors w inside) polling busy
    have commits : ∀ taskId, old = .executing taskId →
        ∃ after reply, invoke s.db (updateRequest (cfg.identity w) taskId) {} = (after,some reply) ∧
          pendingTasks after = pendingTasks s.db := by
      rintro taskId rfl
      exact working.reports staffed (List.mem_filterMap.mpr ⟨_,List.mem_of_getElem? now,rfl⟩)
    obtain ⟨after,worker,seen,stepped,kept,less,same⟩ := executor_moves (up w inside) manned now useful commits
    exact ⟨_,_,_,advance_execute inside stepped,rfl,up.setWorker kept after w,remaining_setWorker inside (by omega)⟩
  · obtain ⟨worker,seen,stepped,kept,less⟩ := dispatcher_moves (up w inside) manned polling s.db
    exact ⟨_,_,_,advance_dispatch inside stepped,rfl,up.setWorker kept s.db w,remaining_setWorker inside (by omega)⟩

-- Where no worker has anything in hand, a pending task is there for its worker to poll.
theorem Working.proceeds (working : Working cfg past s) (staffed : Staffed cfg) (up : AllUp cfg s)
    (left : 0 < remaining cfg s) :
    ∃ action next seen, advance cfg s action = some (next,seen) ∧ action.ofWorker ∧ AllUp cfg next ∧
      remaining cfg next < remaining cfg s := by
  by_cases busy : ∃ w < cfg.scheduler.numWorkers, 0 < (s.workers w).load
  · obtain ⟨w,inside,loaded⟩ := busy
    exact working.busy staffed up inside loaded
  · have idle : ∀ w < cfg.scheduler.numWorkers, (s.workers w).load = 0 := by
      intro w inside
      by_contra loaded
      exact busy ⟨w,inside,Nat.pos_of_ne_zero loaded⟩
    have waits : 0 < pendingTasks s.db := by
      rw [remaining,sum_idle idle] at left
      omega
    obtain ⟨task,member,state⟩ := List.countP_pos_iff.mp waits
    obtain ⟨⟨w,inside,owner,here⟩,_⟩ := working.owned task member
    have row : (⟨task.taskID,(cfg.identity w).workerId,pending,(cfg.identity w).pkey⟩ : TaskRow) ∈ s.db.task := by
      have same : task = ⟨task.taskID,(w : Nat),pending,(w % cfg.scheduler.partitions : Nat)⟩ := by
        rw [← owner,← here,← beq_iff_eq.mp state]
      exact same ▸ member
    have polling := (idle_worker (idle w inside)).1 fun stopped => by
      have told := (working.manned w).dispatcher stopped
      rw [(up w inside).stopDispatch] at told
      cases told
    obtain ⟨after,worker,seen,stepped,kept,less⟩ :=
      poll_moves (up w inside) polling (staffed.topk w inside) working.sound.accounted.keyed row
    exact ⟨_,_,_,advance_dispatch inside stepped,rfl,up.setWorker kept after w,remaining_setWorker inside less⟩

-- With nothing remaining, no task is open, and no worker owes any capacity.
theorem Working.finished (working : Working cfg past s) (none_ : remaining cfg s = 0) :
    (∀ task ∈ s.db.task, task.state = complete) ∧ ∀ row ∈ s.db.worker, row.capacity = cfg.scheduler.workerCapacity := by
  have accounted := working.sound.accounted
  have parts : pendingTasks s.db = 0 ∧ ∀ w < cfg.scheduler.numWorkers, (s.workers w).load = 0 := by
    simp only [remaining] at none_
    refine ⟨by omega,fun w inside => ?_⟩
    have zero : ((List.range cfg.scheduler.numWorkers).map fun w => (s.workers w).load).sum = 0 := by omega
    exact List.sum_eq_zero_iff_forall_eq_nat.mp zero _ (List.mem_map.mpr ⟨w,List.mem_range.mpr inside,rfl⟩)
  have closed : ∀ task ∈ s.db.task, task.state = complete := by
    intro task member
    obtain ⟨⟨w,inside,owner,here⟩,state⟩ := working.owned task member
    rcases state with waiting | started | done
    · have counted : 0 < pendingTasks s.db := List.countP_pos_iff.mpr ⟨task,member,beq_iff_eq.mpr waiting⟩
      omega
    · have same : task = ⟨task.taskID,(cfg.identity w).workerId,running,(cfg.identity w).pkey⟩ := by
        simp only [Setting.identity]
        rw [← owner,← here,← started]
      rw [same] at member
      have hands := ((working.sound.handed w).running_iff accounted.keyed task.taskID).mp member
      rw [(idle_worker (parts.2 w inside)).2] at hands
      cases hands
    · exact done
  refine ⟨closed,?_⟩
  intro row member
  have account : row.capacity + (unfinished s.db row.pkey row.workerID : Int) = cfg.scheduler.workerCapacity :=
    accounted.balanced row member
  have settled : unfinished s.db row.pkey row.workerID = 0 := by
    apply List.countP_eq_zero.mpr
    intro task there
    simp [unfinishedOf,closed task there,complete,pending,running]
  rw [settled] at account
  simpa using account

-- The schedulers may leave at any time: what they have placed, the workers can bring to its end
-- by themselves, and in a bounded number of steps.
theorem placed_tasks_finish (staffed : Staffed cfg) (path : Runs (advance cfg) (State.start cfg db taskindex) moves last)
    (up : AllUp cfg last) :
    ∃ rest final, Runs (advance cfg) last rest final ∧ (∀ move ∈ rest, move.action.ofWorker) ∧
      rest.length ≤ remaining cfg last ∧
      (∀ task ∈ last.db.task, {task with state:=complete} ∈ final.db.task) ∧
      (∀ task ∈ final.db.task, task.state = complete) ∧
      ∀ row ∈ final.db.worker, row.capacity = cfg.scheduler.workerCapacity := by
  let Inv (s : State) : Prop := (∃ past, Working cfg past s) ∧ AllUp cfg s ∧
    ∀ task ∈ last.db.task, ∃ state, {task with state:=state} ∈ s.db.task
  have able : ∀ s, Inv s → 0 < remaining cfg s → ∃ action next seen, advance cfg s action = some (next,seen) ∧ Inv next ∧
      remaining cfg next < remaining cfg s ∧ action.ofWorker := by
    rintro s ⟨⟨past,working⟩,running_,kept⟩ left
    obtain ⟨action,next,seen,stepped,own,stays,less⟩ := working.proceeds staffed running_ left
    refine ⟨action,next,seen,stepped,⟨⟨_,working.step stepped⟩,stays,?_⟩,less,own⟩
    intro task member
    obtain ⟨state,there⟩ := kept task member
    obtain ⟨who,change⟩ := (working.sound.step stepped).2
    obtain ⟨now,_,stored⟩ := (change.progress working.sound.accounted.keyed).kept _ there
    exact ⟨now,stored⟩
  have start : Inv last := ⟨⟨_,working_of_run path⟩,up,fun task member => ⟨task.state,member⟩⟩
  obtain ⟨rest,final,onward,⟨⟨past,working⟩,_,kept⟩,none_,count,own⟩ :=
    Runs.descends (advance cfg) Inv (fun move => move.action.ofWorker) (remaining cfg) able last start
  obtain ⟨closed,restored⟩ := working.finished none_
  refine ⟨rest,final,onward,own,count,?_,closed,restored⟩
  intro task member
  obtain ⟨state,there⟩ := kept task member
  have done : state = complete := closed _ there
  rw [← done]
  exact there

-- Two tasks for one worker: the first is in the queue, the second was placed after the poll.
def leaving : Setting := ⟨⟨1,0,2,1⟩,fun _ => 1,fun _ => 1⟩

def leavingSchedule : List Action :=
  [.start 0 .singlePartitioned false 0,.client 0 {},.dispatch 0 {},.dispatch 0 {},
    .start 0 .singlePartitioned false 0,.client 1 {}]

theorem placed_tasks_finish_two : ∃ moves last,
    Runs (advance leaving) (State.start leaving Database.empty fun _ _ => 0) moves last ∧
      last.db.task = [⟨0,0,running,0⟩,⟨1,0,pending,0⟩] ∧
      ∃ rest final, Runs (advance leaving) last rest final ∧ (∀ move ∈ rest, move.action.ofWorker) ∧
        (⟨0,0,complete,0⟩ : TaskRow) ∈ final.db.task ∧ (⟨1,0,complete,0⟩ : TaskRow) ∈ final.db.task ∧
        ∀ row ∈ final.db.worker, row.capacity = 2 := by
  obtain ⟨moves,last,path,checked⟩ := run_reaches (advance leaving) (State.start leaving Database.empty fun _ _ => 0)
    (fun _ last => decide (last.db.task = [⟨0,0,running,0⟩,⟨1,0,pending,0⟩] ∧ (last.workers 0).stopDispatch = false ∧
      (last.workers 0).stop = false ∧ (last.workers 0).aborted = false)) leavingSchedule (by decide +kernel)
  obtain ⟨tasks,stopDispatch,stop,aborted⟩ := of_decide_eq_true checked
  have staffed : Staffed leaving := ⟨by decide,by decide,by decide,by decide⟩
  have up : AllUp leaving last := by
    intro w inside
    have zero : w = 0 := Nat.lt_one_iff.mp inside
    subst zero
    exact ⟨stopDispatch,stop,aborted⟩
  obtain ⟨rest,final,onward,own,_,done,_,restored⟩ := placed_tasks_finish staffed path up
  refine ⟨moves,last,path,tasks,rest,final,onward,own,?_,?_,restored⟩
  · exact done ⟨0,0,running,0⟩ (by simp [tasks])
  · exact done ⟨1,0,pending,0⟩ (by simp [tasks])

end DbosScheduler.Poll
