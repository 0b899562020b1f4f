import DbosScheduler.Spark.Requests

namespace DbosScheduler.Spark.Requests
open Machine

variable {s next last : State} {action : Action} {seen : List Event}

-- A task that nobody is going to dispatch: the thread is blocked, has not been
-- notified, and no call stands between its push and its notify.
def Stranded (s : State) : Prop := s.taskQueue ≠ [] ∧ s.queue = .waiting ∧ ∀ i, (s.callers i).pc ≠ .notifying

def Pc.holds : Pc → Bool
  | .pushing | .notifying | .unlocking => true
  | _ => false

def QueuePc.holds : QueuePc → Bool
  | .starting | .waiting | .woken => false
  | _ => true

-- taskProcessMutex is held by the thread whose program counter says so.
structure Owned (s : State) : Prop where
  consumer : s.taskProcessMutex = some .processTaskQueue ↔ s.queue.holds = true
  callers : ∀ i, s.taskProcessMutex = some (.caller i) ↔ (s.callers i).pc.holds = true

theorem Owned.queue_idle (owned : Owned s) (apart : s.taskProcessMutex ≠ some .processTaskQueue) :
    s.queue.holds = false := by
  rw [Bool.eq_false_iff]
  intro inside
  exact apart (owned.consumer.mpr inside)

theorem Owned.caller_idle (owned : Owned s) (apart : s.taskProcessMutex ≠ some (.caller i)) :
    (s.callers i).pc.holds = false := by
  rw [Bool.eq_false_iff]
  intro inside
  exact apart ((owned.callers i).mpr inside)

theorem Owned.caller (owned : Owned s) (pc : (s.callers i).pc = here) (inside : here.holds = true) :
    s.taskProcessMutex = some (.caller i) :=
  (owned.callers i).mpr (by rw [pc,inside])

theorem Owned.queue (owned : Owned s) (pc : s.queue = here) (inside : here.holds = true) :
    s.taskProcessMutex = some .processTaskQueue :=
  owned.consumer.mpr (by rw [pc,inside])

-- A call moves between two program counters on the same side of the mutex.
theorem Owned.setPc (owned : Owned s) (before : (s.callers i).pc = old)
    (moved : next.callers = (s.setPc i new).callers) (side : new.holds = old.holds)
    (mutex : next.taskProcessMutex = s.taskProcessMutex) (queue : next.queue.holds = s.queue.holds) : Owned next := by
  refine ⟨by rw [mutex,queue]; exact owned.consumer,fun j => ?_⟩
  rw [mutex,moved,setPc_pc]
  by_cases same : j = i
  · rw [if_pos same,side,← before,same]
    exact owned.callers i
  · rw [if_neg same]
    exact owned.callers j

-- The consumer moves between two program counters on the same side of the mutex.
theorem Owned.consume (owned : Owned s) (before : s.queue = old) (side : next.queue.holds = old.holds)
    (mutex : next.taskProcessMutex = s.taskProcessMutex) (same : next.callers = s.callers) : Owned next := by
  refine ⟨?_,fun i => by rw [mutex,same]; exact owned.callers i⟩
  rw [mutex,side,← before]
  exact owned.consumer

theorem Owned.acquire (owned : Owned s) (free : s.taskProcessMutex = none) :
    Owned {s.setPc i .pushing with taskProcessMutex:=some (.caller i)} := by
  have idle : s.queue.holds = false := owned.queue_idle (by simp [free])
  refine ⟨by simp [idle],fun j => ?_⟩
  by_cases same : j = i
  · simp [same,Pc.holds]
  · have apart : (s.callers j).pc.holds = false := owned.caller_idle (by simp [free])
    simp [same,apart,Ne.symm same]

theorem Owned.release (owned : Owned s) (unlocking : (s.callers i).pc = .unlocking) :
    Owned {s.setPc i .lockingCompletion with taskProcessMutex:=none} := by
  have owner := owned.caller unlocking rfl
  have idle : s.queue.holds = false := owned.queue_idle (by simp [owner])
  refine ⟨by simp [idle],fun j => ?_⟩
  by_cases same : j = i
  · simp [same,Pc.holds]
  · have apart : (s.callers j).pc.holds = false := owned.caller_idle (by simp [owner,Ne.symm same])
    simp [same,apart]

theorem Owned.step (owned : Owned s) (numbered : Numbered s) (turn : Turn s action next seen) : Owned next := by
  cases turn with
  | call task =>
    refine ⟨owned.consumer,fun i => ?_⟩
    by_cases new : i = s.calls
    · have outside : (s.callers i).pc.holds = false := by
        rw [numbered i (Nat.le_of_eq new.symm)]
        rfl
      have apart : s.taskProcessMutex ≠ some (.caller i) := by
        rw [Ne,owned.callers,outside]
        decide
      subst new
      simp [enter,apart,Pc.holds]
    · simpa [enter,new] using owned.callers i
  | lock _ free => exact owned.acquire free
  | unlock pc => exact owned.release pc
  | notify pc =>
    refine owned.setPc pc rfl rfl rfl ?_
    change (notifyOne s.queue).holds = s.queue.holds
    cases s.queue <;> rfl
  | push pc | lockCompletion pc | found pc | wait pc | «return» pc | wakeCaller pc => exact owned.setPc pc rfl rfl rfl rfl
  | queueLock _ free | queueRelock _ free =>
    exact ⟨by simp [QueuePc.holds],fun i => by simpa [free] using owned.callers i⟩
  | queueWait pc =>
    have owner := owned.queue pc rfl
    exact ⟨by simp [QueuePc.holds],fun i => by simpa [owner] using owned.callers i⟩
  | queueEmpty pc | queueFront pc | select pc | assign pc | send pc | pop pc | wakeQueue pc =>
    exact owned.consume pc rfl rfl rfl
  | notifyAll =>
    refine ⟨owned.consumer,fun i => ?_⟩
    have same : (Requests.notifyAll s.callers i).pc.holds = (s.callers i).pc.holds := by
      by_cases blocked : (s.callers i).pc = .waiting
      · simp [Requests.notifyAll,blocked,Pc.holds]
      · simp [Requests.notifyAll,blocked]
    simpa [same] using owned.callers i
  | fail | rpc | next | broken | finishLock | insert | finishUnlock | update => exact ⟨owned.consumer,owned.callers⟩

-- While the consumer holds the mutex nobody can push, so between the test of the
-- queue and the wait the queue stays empty; only before the first lock nothing
-- protects it.
structure Awake (s : State) : Prop where
  empty : s.queue = .starting ∨ s.queue = .testing → s.taskQueue = []
  announced : s.queue = .waiting → s.taskQueue = [] ∨ ∃ i, (s.callers i).pc = .notifying

theorem Awake.not_stranded (awake : Awake s) : ¬Stranded s := by
  intro given
  obtain ⟨filled,blocked,quiet⟩ := given
  rcases awake.announced blocked with empty | ⟨i,pc⟩
  · exact filled empty
  · exact quiet i pc

theorem Awake.quiet (awake : Awake s) (queue : next.queue = s.queue) (tasks : next.taskQueue = s.taskQueue)
    (notifies : ∀ i, (s.callers i).pc = .notifying → (next.callers i).pc = .notifying) : Awake next := by
  refine ⟨by rw [queue,tasks]; exact awake.empty,?_⟩
  rw [queue,tasks]
  intro blocked
  rcases awake.announced blocked with empty | ⟨i,pc⟩
  · exact .inl empty
  · exact .inr ⟨i,notifies i pc⟩

theorem Awake.setPc (awake : Awake s) (before : (s.callers i).pc = old) (other : old ≠ .notifying)
    (queue : next.queue = s.queue) (tasks : next.taskQueue = s.taskQueue) (moved : next.callers = (s.setPc i new).callers) :
    Awake next := by
  refine awake.quiet queue tasks fun j pc => ?_
  have apart : j ≠ i := by
    rintro rfl
    exact other (before.symm.trans pc)
  rw [moved,setPc_pc,if_neg apart]
  exact pc

-- A push waits until the consumer has taken the mutex for the first time.
def Late (s : State) : Action → Prop
  | .caller i => (s.callers i).pc = .pushing → s.queue ≠ .starting
  | _ => True

instance (s : State) : (action : Action) → Decidable (Late s action)
  | .caller i => inferInstanceAs (Decidable ((s.callers i).pc = .pushing → s.queue ≠ .starting))
  | .call _ | .wakeCaller _ | .processTaskQueue _ | .wakeQueue | .rpc _ _ | .finishRequests => .isTrue trivial

theorem Awake.push (owned : Owned s) (pushing : (s.callers i).pc = .pushing) (late : s.queue ≠ .starting) :
    Awake {s.setPc i .notifying with taskQueue:=s.taskQueue ++ [i]} := by
  refine ⟨fun first => ?_,fun _ => .inr ⟨i,by simp⟩⟩
  rcases first with starting | testing
  · exact absurd starting late
  · have elsewhere := owned.queue testing rfl
    rw [owned.caller pushing rfl] at elsewhere
    cases elsewhere

theorem Awake.notify (awake : Awake s) : Awake {s.setPc i .unlocking with queue:=notifyOne s.queue} := by
  refine ⟨fun first => awake.empty ?_,fun blocked => ?_⟩
  · revert first
    cases queue : s.queue <;> simp [notifyOne]
  · revert blocked
    cases queue : s.queue <;> simp [notifyOne]

theorem Awake.step (awake : Awake s) (owned : Owned s) (numbered : Numbered s) (late : Late s action)
    (turn : Turn s action next seen) : Awake next := by
  cases turn with
  | call task =>
    refine awake.quiet rfl rfl fun i pc => ?_
    have old : i ≠ s.calls := by
      rintro rfl
      rw [numbered s.calls (Nat.le_refl _)] at pc
      cases pc
    simpa [enter,old] using pc
  | push pc => exact .push owned pc (late pc)
  | notify pc => exact awake.notify
  | lock pc | unlock pc | lockCompletion pc | found pc | wait pc | «return» pc | wakeCaller pc =>
    exact awake.setPc pc (by decide) rfl rfl rfl
  | queueLock starting => exact ⟨fun _ => awake.empty (.inl starting),by simp⟩
  | queueWait testing => exact ⟨by simp,fun _ => .inl (awake.empty (.inr testing))⟩
  | queueEmpty _ empty => exact ⟨fun _ => empty,by simp⟩
  | queueRelock | queueFront | select | assign | send | pop | wakeQueue => exact ⟨by simp,by simp⟩
  | notifyAll => exact awake.quiet rfl rfl fun i pc => by simp [Requests.notifyAll,pc]
  | fail | rpc | next | broken | finishLock | insert | finishUnlock | update => exact awake.quiet rfl rfl fun _ pc => pc

theorem owned_of_run (path : Runs advance (State.start taskIDs) moves last) : Numbered last ∧ Owned last :=
  path.invariant (fun s => Numbered s ∧ Owned s)
    ⟨fun _ _ => rfl,by constructor <;> simp [State.start,QueuePc.holds,Pc.holds]⟩
    fun _ _ _ _ ⟨numbered,owned⟩ stepped =>
      ⟨numbered.step (advance_turn stepped),owned.step numbered (advance_turn stepped)⟩

theorem awake_of_run (path : Runs advance (State.start taskIDs) moves last)
    (late : ∀ move ∈ moves, Late move.before move.action) : Awake last :=
  (path.guarded (fun s => (Numbered s ∧ Owned s) ∧ Awake s) Late late
    ⟨owned_of_run .nil,by constructor <;> simp [State.start]⟩
    fun _ _ _ _ ⟨⟨numbered,owned⟩,awake⟩ guard stepped =>
      have turn := advance_turn stepped
      ⟨⟨numbered.step turn,owned.step numbered turn⟩,awake.step owned numbered guard turn⟩).2

theorem advance_pushing (running : s.aborted = false) (pc : (s.callers i).pc = .pushing) :
    advance s (.caller i) = some ({s.setPc i .notifying with taskQueue:=s.taskQueue ++ [i]},[.pushed i]) := by
  simp [advance,schedule,running,pc]

theorem advance_notifying (running : s.aborted = false) (pc : (s.callers i).pc = .notifying) :
    advance s (.caller i) = some ({s.setPc i .unlocking with queue:=notifyOne s.queue},[]) := by
  simp [advance,schedule,running,pc]

theorem advance_unlocking (running : s.aborted = false) (pc : (s.callers i).pc = .unlocking) :
    advance s (.caller i) = some ({s.setPc i .lockingCompletion with taskProcessMutex:=none},[]) := by
  simp [advance,schedule,running,pc]

theorem advance_starting (running : s.aborted = false) (pc : s.queue = .starting) (free : s.taskProcessMutex = none) :
    advance s (.processTaskQueue 0) =
      some ({s with queue:=.testing,taskProcessMutex:=some .processTaskQueue},[]) := by
  simp [advance,processTaskQueue,running,pc,free]

theorem advance_testing (running : s.aborted = false) (pc : s.queue = .testing) :
    advance s (.processTaskQueue 0) = some ({s with queue:=.waiting,taskProcessMutex:=none},[]) := by
  simp [advance,processTaskQueue,running,pc]

-- The start-up race: the call pushes, notifies nobody and unlocks; the consumer
-- then takes the mutex for the first time and waits without a look at the queue.
theorem early_push_strands (owned : Owned s) (running : s.aborted = false) (pushing : (s.callers i).pc = .pushing)
    (starting : s.queue = .starting) : ∃ moves final, Runs advance s moves final ∧ Stranded final := by
  have pushed := Runs.nil.step (advance_pushing running pushing)
  have notified := pushed.step (advance_notifying (i := i) running (by simp))
  have unlocked := notified.step (advance_unlocking (i := i) running (by simp))
  have locked := unlocked.step (advance_starting running (by simp [starting,notifyOne]) rfl)
  have blocked := locked.step (advance_testing running rfl)
  refine ⟨_,_,blocked,by simp [State.setPc],rfl,fun j => ?_⟩
  by_cases same : j = i
  · simp [same]
  · have apart := owned.caller_idle (i := j) (by simp [owned.caller pushing rfl,Ne.symm same])
    simp only [setPc_pc,same,if_false]
    intro pc
    rw [pc] at apart
    cases apart

theorem no_task_stranded (path : Runs advance (State.start taskIDs) moves last) :
    ((∀ move ∈ moves, Late move.before move.action) → ¬Stranded last) ∧
      ∀ move ∈ moves, ¬Late move.before move.action →
        ∃ more final, Runs advance move.before more final ∧ Stranded final := by
  refine ⟨fun late => (awake_of_run path late).not_stranded,fun move member early => ?_⟩
  obtain ⟨⟨earlier,_,reached⟩,stepped⟩ := path.stepped member
  have running : move.before.aborted = false := by
    rw [Bool.eq_false_iff]
    intro aborted
    simp [advance,aborted] at stepped
  cases action : move.action with
  | caller i =>
    simp only [action,Late,Classical.not_imp,not_not] at early
    exact early_push_strands (owned_of_run reached).2 running early.1 early.2
  | call | wakeCaller | processTaskQueue | wakeQueue | rpc | finishRequests =>
    rw [action] at early
    exact absurd trivial early

-- The consumer is blocked before the first call arrives.
theorem no_task_stranded_late_call : ∃ moves last, Runs advance (State.start 7) moves last ∧
    last.taskQueue = [0] ∧ last.queue = .woken ∧ ¬Stranded last := by
  obtain ⟨moves,last,path,checked⟩ := run_reaches advance (State.start 7)
    (fun moves last => last.taskQueue = [0] ∧ last.queue = .woken ∧ moves.all fun move => Late move.before move.action)
    [.processTaskQueue 0,.processTaskQueue 0,.call ⟨1,2⟩,.caller 0,.caller 0,.caller 0] (by decide)
  simp only [decide_eq_true_eq,List.all_eq_true] at checked
  obtain ⟨waiting,woken,late⟩ := checked
  exact ⟨moves,last,path,waiting,woken,(no_task_stranded path).1 late⟩

-- One call, made before the thread has run at all. The caller is never told.
theorem first_call_stranded : ∃ moves last, Runs advance (State.start 7) moves last ∧ last.calls = 1 ∧ Stranded last := by
  obtain ⟨moves,last,path,checked⟩ := run_reaches advance (State.start 7)
    (fun _ last => last.calls = 1 ∧ last.taskQueue = [0] ∧ last.queue = .waiting ∧
      (last.callers 0).pc = .lockingCompletion)
    [.call ⟨1,2⟩,.caller 0,.caller 0,.caller 0,.caller 0,.processTaskQueue 0,.processTaskQueue 0] (by decide)
  simp only [decide_eq_true_eq] at checked
  obtain ⟨once,tasks,blocked,pc⟩ := checked
  refine ⟨moves,last,path,once,by simp [tasks],blocked,fun i => ?_⟩
  rcases Nat.eq_zero_or_pos i with rfl | later
  · simp [pc]
  · simp [numbered_of_run path i (once ▸ later)]

end DbosScheduler.Spark.Requests
