import Mathlib.Algebra.Ring.Nat
import DbosScheduler.Push.Safety

namespace DbosScheduler.Push
open Machine Sql Table

variable {cfg : Setting} {db after : Database} {s next last : State}

-- Tasks that were pushed and are not complete.
def openTasks (db : Database) : Nat := db.task.countP fun task => task.state == running

-- A move in which a task's only token is dropped: the row of the stream is lost, or the
-- worker's report fails, which handle_request only logs.
def leak (move : Move State Action (Request × Response)) : Nat :=
  match move.action with
  | .lose _ => 1
  | .handleRequest _ _ _ => move.seen.countP fun entry => entry.2.isNone
  | _ => 0

def leaks (moves : List (Move State Action (Request × Response))) : Nat := (moves.map leak).sum

theorem completion_answer (ran : invoke db (completion cfg request) choice = (after,response)) :
    (response = none ∧ after = db) ∨
      (response.isSome = true ∧ after = db.finish (cfg.pkey request.1) request.1 request.2) := by
  rcases invoke_cases (.workerUpdateTask (cfg.pkey request.1) request.1 request.2 complete) rfl ran with
    failed | ⟨answer,rfl,committed⟩
  · exact .inl failed
  · obtain ⟨code,updated,_⟩ := reply_some committed
    exact .inr ⟨rfl,(finish_of_run updated).2⟩

theorem openTasks_assign (db : Database) (taskID : Int) (row : WorkerRow) (taskAssign : List TaskAssignRow) :
    openTasks {db.assign taskID running row with taskAssign:=taskAssign} = openTasks db + 1 := by
  simp [openTasks,Database.assign,List.countP_append]

theorem openTasks_finish (keyed : Keyed db) (present : ⟨taskID,workerID,running,pkey⟩ ∈ db.task) :
    openTasks (db.finish pkey workerID taskID) + 1 = openTasks db := by
  obtain ⟨left,right,cut,_,changed⟩ := completed_unique keyed.task present (completed_iff.mpr ⟨rfl,rfl,rfl⟩)
  simp only [openTasks,Database.finish,changed]
  rw [cut]
  simp only [List.countP_append,List.countP_cons]
  simp [running]
  omega

-- The tokens that there are.
def tokens (s : State) : Nat := s.inFlight.length + s.requests.length

theorem account_step (sound : Sound cfg s) (held : Tokens cfg s) (atMostOnce : cfg.atLeastOnce = false)
    (stepped : advance cfg s action = some (next,seen)) :
    openTasks next.db + tokens s = openTasks s.db + tokens next + leak ⟨s,action,next,seen⟩ := by
  cases action with
  | startServing workerID choice =>
    simp only [advance] at stepped
    split at stepped
    · cases stepped
    · cases ran : invoke s.db (registration cfg workerID) choice with
      | mk db response =>
        rw [ran] at stepped
        cases stepped
        rcases registration_cases ran with ⟨_,rfl⟩ | ⟨_,rfl⟩
        · rfl
        · rfl
  | push pkey taskID choice =>
    simp only [advance] at stepped
    cases ran : invoke s.db ⟨.pushTask,[.int pkey,.int taskID]⟩ choice with
    | mk db response =>
      rw [ran] at stepped
      cases stepped
      rcases push_cases ran with rfl | ⟨row,_,_,rfl⟩
      · simp [tokens,leak]
      · rw [openTasks_assign]
        simp only [tokens,leak,List.drop_left,List.length_append,List.length_singleton]
        omega
  | processRow i workerID again =>
    simp only [advance] at stepped
    split at stepped
    · cases stepped
    · rename_i row found
      obtain ⟨allowed,same⟩ := Option.ite_none_right_eq_some.mp stepped
      cases same
      cases never_again atMostOnce allowed.2.2
      obtain ⟨inside,_⟩ := List.getElem?_eq_some_iff.mp found
      simp only [tokens,leak,Bool.false_eq_true,if_false,List.length_eraseIdx_of_lt inside,List.length_append,
        List.length_singleton]
      omega
  | lose i =>
    obtain ⟨inside,same⟩ := Option.ite_none_right_eq_some.mp stepped
    cases same
    simp only [tokens,leak,List.length_eraseIdx_of_lt inside]
    omega
  | handleRequest j choice again =>
    simp only [advance] at stepped
    split at stepped
    · cases stepped
    · rename_i request found
      obtain ⟨allowed,same⟩ := Option.ite_none_right_eq_some.mp stepped
      cases never_again atMostOnce allowed
      obtain ⟨inside,_⟩ := List.getElem?_eq_some_iff.mp found
      cases ran : invoke s.db (completion cfg request) choice with
      | mk db response =>
        rw [ran] at same
        cases same
        rcases completion_answer ran with ⟨rfl,rfl⟩ | ⟨answered,rfl⟩
        · simp only [tokens,leak,Bool.false_eq_true,if_false,List.length_eraseIdx_of_lt inside,List.countP_singleton,
            Option.isNone_none,if_true]
          omega
        · have fewer := openTasks_finish sound.keyed (held.arrived request (List.mem_of_getElem? found))
          have told : response.isNone = false := by simpa using answered
          simp only [tokens,leak,Bool.false_eq_true,if_false,List.length_eraseIdx_of_lt inside,List.countP_singleton,told]
          omega

-- Whatever is open and has no token was dropped on the way.
theorem account_of_run (atMostOnce : cfg.atLeastOnce = false) (path : Runs (advance cfg) (State.start db) moves last) :
    openTasks last.db = tokens last + leaks moves := by
  induction path with
  | nil => rfl
  | @step earlier middle action after seen prior stepped ih =>
    obtain ⟨sound,held⟩ := sound_of_run atMostOnce prior
    have moved := account_step sound held atMostOnce stepped
    rw [leaks,List.map_append,List.sum_append,List.map_cons,List.map_nil,List.sum_singleton]
    rw [leaks] at ih
    omega

-- What it takes for a token to be used: its worker serves, and the credit fits.
structure Able (cfg : Setting) (s : State) : Prop where
  serving : ∀ row ∈ s.db.worker, row.workerID ∈ s.serving
  legal : s.db.worker ≠ [] → integer cfg.capacity = true
  floor : ∀ row ∈ s.db.worker, 0 ≤ row.capacity ∨ row.capacity = cfg.capacity

theorem registered_legal (stepped : advance cfg s (.startServing workerID choice) = some (next,seen)) :
    next.db = s.db ∨ integer cfg.capacity = true := by
  simp only [advance] at stepped
  split at stepped
  · cases stepped
  · cases ran : invoke s.db (registration cfg workerID) choice with
    | mk db response =>
      rw [ran] at stepped
      cases stepped
      rcases invoke_cases (.insertWorker workerID cfg.capacity (cfg.pkey workerID) (url workerID)) rfl ran with
        failed | ⟨answer,_,committed⟩
      · exact .inl failed.2
      · obtain ⟨code,inserted,_⟩ := reply_some committed
        obtain ⟨middle,added,_⟩ := Option.bind_eq_some_iff.mp inserted
        have legal := (insertWorker_some added).1
        simp only [WorkerRow.legal,Bool.and_eq_true] at legal
        exact .inr legal.1.1.1.2

-- A worker that has an open task was charged for it.
theorem Sound.charged (sound : Sound cfg s) (member : row ∈ s.db.worker)
    (present : ⟨taskID,row.workerID,running,cfg.pkey row.workerID⟩ ∈ s.db.task) : row.capacity < cfg.capacity := by
  have account : row.capacity + (Sql.unfinished s.db row.pkey row.workerID : Int) = cfg.capacity := sound.balanced row member
  have here := (sound.workers row member).2.1
  have counted : 0 < Sql.unfinished s.db row.pkey row.workerID := by
    apply List.countP_pos_iff.mpr
    refine ⟨_,present,?_⟩
    simp [here]
  omega

theorem Able.transact (able : Able cfg s) (same : after.worker.map who = s.db.worker.map who)
    (floor : ∀ row ∈ after.worker, 0 ≤ row.capacity ∨ row.capacity = cfg.capacity) (inFlight : List TaskAssignRow)
    (requests : List (Int × Int)) : Able cfg ⟨after,s.started,s.serving,inFlight,requests⟩ := by
  refine ⟨?_,?_,floor⟩
  · intro row member
    obtain ⟨old,present,named⟩ := who_kept same.symm member
    rw [← named]
    exact able.serving old present
  · intro filled
    apply able.legal
    intro none
    rw [none,List.map_nil,List.map_eq_nil_iff] at same
    exact filled same

theorem Able.step (able : Able cfg s) (sound : Sound cfg s) (held : Tokens cfg s)
    (stepped : advance cfg s action = some (next,seen)) : Able cfg next := by
  have turn := advance_turn stepped
  cases turn with
  | unregistered | refused | processed | lost | unreported => exact ⟨able.serving,able.legal,able.floor⟩
  | registered new =>
    refine ⟨?_,?_,?_⟩
    · intro row member
      rcases List.mem_append.mp member with old | fresh
      · exact List.mem_cons_of_mem _ (able.serving row old)
      · cases List.mem_singleton.mp fresh
        exact List.mem_cons_self
    · intro _
      rcases registered_legal stepped with same | legal
      · have longer := congrArg (fun db => db.worker.length) same
        simp at longer
      · exact legal
    · intro row member
      rcases List.mem_append.mp member with old | fresh
      · exact able.floor row old
      · cases List.mem_singleton.mp fresh
        exact .inr rfl
  | @pushed _ taskID _ row free fresh =>
    apply able.transact
    · exact charge_who row s.db
    · intro other member
      rcases mem_charge sound.keyed.worker free.1 member with rfl | old
      · have positive := free.2.2
        exact .inl (by show 0 ≤ row.capacity - 1; omega)
      · exact able.floor other old.1
  | @reported j again choice request found allowed fits =>
    apply able.transact finish_who
    intro other member
    obtain ⟨old,present,rfl⟩ := mem_update.mp member
    split
    · rename_i mine
      obtain ⟨_,named⟩ := ofWorker_iff.mp mine
      have open_ := held.arrived request (List.mem_of_getElem? found)
      rw [← named] at open_
      have charged := sound.charged present open_
      have low := able.floor old present
      exact .inl (by show 0 ≤ old.capacity + 1; omega)
    · exact able.floor old present

structure Settled (cfg : Setting) (s : State) : Prop where
  sound : Sound cfg s
  held : Tokens cfg s
  able : Able cfg s

theorem Settled.step (settled : Settled cfg s) (atMostOnce : cfg.atLeastOnce = false)
    (stepped : advance cfg s action = some (next,seen)) : Settled cfg next := by
  have turn := advance_turn stepped
  exact ⟨settled.sound.step (settled.held.careful action) turn,settled.held.step settled.sound atMostOnce turn,
    settled.able.step settled.sound settled.held stepped⟩

theorem settled_of_run (atMostOnce : cfg.atLeastOnce = false) (path : Runs (advance cfg) (State.start db) moves last) :
    Settled cfg last := by
  refine path.invariant (Settled cfg) ⟨start_sound cfg db,start_tokens cfg db,?_⟩ fun _ _ _ _ settled stepped =>
    settled.step atMostOnce stepped
  constructor <;> simp [State.start]

-- What is still to be done with the tokens: a row of the stream has to be sent and then
-- reported.
def remaining (s : State) : Nat := 2 * s.inFlight.length + s.requests.length

theorem Settled.delivers (settled : Settled cfg s) (flying : row :: rest = s.inFlight) :
    ∃ action next seen, advance cfg s action = some (next,seen) ∧ remaining next + 1 = remaining s ∧
      leak ⟨s,action,next,seen⟩ = 0 := by
  obtain ⟨workerID,address,present⟩ := settled.held.flying row (flying ▸ List.mem_cons_self)
  obtain ⟨_,_,owner,there,named⟩ := settled.sound.tasks _ present
  have serves : workerID ∈ s.serving := by
    rw [← show owner.workerID = workerID from named]
    exact settled.able.serving owner there
  have found : s.inFlight[0]? = some row := by rw [← flying]; rfl
  have stepped : advance cfg s (.processRow 0 workerID false) = some ({s with
      inFlight:=s.inFlight.eraseIdx 0
      requests:=s.requests ++ [(workerID,row.taskID)]},[]) := by
    simp [advance,found,serves,address]
  refine ⟨_,_,_,stepped,?_,rfl⟩
  simp only [remaining,← flying,List.eraseIdx_cons_zero,List.length_cons,List.length_append,List.length_nil]
  omega

theorem Settled.reports (settled : Settled cfg s) (waiting : request :: rest = s.requests) :
    ∃ action next seen, advance cfg s action = some (next,seen) ∧ remaining next + 1 = remaining s ∧
      leak ⟨s,action,next,seen⟩ = 0 := by
  have present := settled.held.arrived request (waiting ▸ List.mem_cons_self)
  have fits : ∀ row ∈ s.db.worker, row.key = (cfg.pkey request.1,request.1) → integer (row.capacity + 1) = true := by
    intro row member key
    have named : row.workerID = request.1 := (Prod.mk.inj key).2
    rw [← named] at present
    have charged := settled.sound.charged member present
    have floor := settled.able.floor row member
    have legal := settled.able.legal (List.ne_nil_of_mem member)
    simp only [integer,Bool.and_eq_true,decide_eq_true_eq] at legal ⊢
    omega
  have commits : (WorkerUpdateTask.run (cfg.pkey request.1) request.1 request.2 complete s.db).isSome = true :=
    WorkerUpdateTask.commits.mpr fits
  obtain ⟨⟨result,after⟩,ran⟩ := Option.isSome_iff_exists.mp commits
  have answered : invoke s.db (completion cfg request) {} = (after,some (.long result)) := by
    refine invoke_ran (.workerUpdateTask (cfg.pkey request.1) request.1 request.2 complete) rfl rfl ?_
    simp [Call.run,reply,ran]
  have found : s.requests[0]? = some request := by rw [← waiting]; rfl
  have stepped : advance cfg s (.handleRequest 0 {} false) = some ({s with
      db:=after
      requests:=s.requests.eraseIdx 0},[(completion cfg request,some (.long result))]) := by
    simp [advance,found,answered]
  refine ⟨_,_,_,stepped,?_,rfl⟩
  simp only [remaining,← waiting,List.eraseIdx_cons_zero,List.length_cons]
  omega

theorem Settled.proceeds (settled : Settled cfg s) (atMostOnce : cfg.atLeastOnce = false) (work : 0 < remaining s) :
    ∃ action next seen, advance cfg s action = some (next,seen) ∧ Settled cfg next ∧ remaining next + 1 = remaining s ∧
      leak ⟨s,action,next,seen⟩ = 0 := by
  have proceeds : ∃ action next seen, advance cfg s action = some (next,seen) ∧ remaining next + 1 = remaining s ∧
      leak ⟨s,action,next,seen⟩ = 0 := by
    cases flying : s.inFlight with
    | cons row rest => exact settled.delivers flying.symm
    | nil =>
      cases waiting : s.requests with
      | cons request rest => exact settled.reports waiting.symm
      | nil => simp [remaining,flying,waiting] at work
  obtain ⟨action,next,seen,stepped,less,clean⟩ := proceeds
  exact ⟨action,next,seen,stepped,settled.step atMostOnce stepped,less,clean⟩

-- Nothing but dropped tokens keeps a task open, or a worker charged.
theorem push_drains (atMostOnce : cfg.atLeastOnce = false) (path : Runs (advance cfg) (State.start db) moves last) :
    openTasks last.db = last.inFlight.length + last.requests.length + leaks moves ∧
    ∃ rest final, Runs (advance cfg) last rest final ∧ rest.length = 2 * last.inFlight.length + last.requests.length ∧
      final.inFlight = [] ∧ final.requests = [] ∧ openTasks final.db = leaks moves ∧
      (leaks moves = 0 → (∀ task ∈ final.db.task, task.state = complete) ∧
        ∀ row ∈ final.db.worker, row.capacity = cfg.capacity) := by
  refine ⟨account_of_run atMostOnce path,?_⟩
  obtain ⟨rest,final,further,settled,none,steps,clean⟩ := Runs.exhausts (advance cfg) (Settled cfg) (fun move => leak move = 0)
    remaining (fun s settled work => settled.proceeds atMostOnce work) last (settled_of_run atMostOnce path)
  have empty : final.inFlight = [] ∧ final.requests = [] := by
    rw [← List.length_eq_zero_iff,← List.length_eq_zero_iff]
    simp only [remaining] at none
    omega
  have kept : leaks (moves ++ rest) = leaks moves := by
    have zero : (rest.map leak).sum = 0 := by
      rw [List.map_congr_left clean]
      simp
    simp [leaks,List.sum_append,zero]
  have account := account_of_run atMostOnce (path.append further)
  rw [kept,tokens,empty.1,empty.2] at account
  simp only [List.length_nil,Nat.zero_add] at account
  refine ⟨rest,final,further,steps,empty.1,empty.2,account,?_⟩
  intro nothing
  rw [nothing,openTasks,List.countP_eq_zero] at account
  have closed (task : TaskRow) (member : task ∈ final.db.task) : task.state = complete := by
    rcases (settled.sound.tasks task member).2.1 with running | complete
    · exact absurd (beq_iff_eq.mpr running) (account task member)
    · exact complete
  refine ⟨closed,?_⟩
  intro row member
  have books : row.capacity + (unfinished final.db row.pkey row.workerID : Int) = cfg.capacity :=
    settled.sound.balanced row member
  have idle : unfinished final.db row.pkey row.workerID = 0 := by
    refine List.countP_eq_zero.mpr fun task present counted => ?_
    have state := closed task present
    have unclosed := (unfinishedOf_iff.mp counted).2.2
    rw [state] at unclosed
    exact absurd unclosed (by decide)
  omega

-- One row of the stream is lost, so that its task stays open.
theorem push_drains_lost : ∃ moves last, Runs (advance twoWorkers) (State.start Database.empty) moves last ∧
    leaks moves = 1 ∧ last.inFlight.length = 1 ∧
    ∃ rest final, Runs (advance twoWorkers) last rest final ∧ final.inFlight = [] ∧ final.requests = [] ∧ openTasks final.db = 1 := by
  obtain ⟨moves,last,path,checked⟩ := run_reaches (advance twoWorkers) (State.start Database.empty)
    (fun moves last => decide (leaks moves = 1 ∧ last.inFlight.length = 1))
    [.startServing 0 {},.startServing 1 {},.push 0 7 {worker:=1},.push 0 8 {worker:=1},.lose 0] (by decide)
  obtain ⟨one,flying⟩ := of_decide_eq_true checked
  obtain ⟨rest,final,further,_,streamed,handled,left,_⟩ := (push_drains rfl path).2
  exact ⟨moves,last,path,one,flying,rest,final,further,streamed,handled,left.trans one⟩

end DbosScheduler.Push
