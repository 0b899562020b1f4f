import Mathlib.Algebra.Group.Nat.Defs
import Mathlib.Data.List.Nodup
import DbosScheduler.Spark.Requests

namespace DbosScheduler.Spark.Requests
open Machine

variable {s next last : State} {action : Action} {seen past : List Event}

def pushedIn (past : List Event) : List Nat := past.filterMap fun
  | .pushed i => some i
  | _ => none

def sentIn (past : List Event) : List Nat := past.filterMap fun
  | .sent call => some call.caller
  | _ => none

def poppedIn (past : List Event) : List Nat := past.filterMap fun
  | .popped i => some i
  | _ => none

theorem mem_sentIn (sent : .sent call ∈ past) : call.caller ∈ sentIn past :=
  List.mem_filterMap.mpr ⟨_,sent,rfl⟩

-- How far a schedule() call has come. The loop around taskCompletionCV is one stage.
def Pc.stage : Pc → Nat
  | .outside => 0
  | .locking => 1
  | .pushing => 2
  | .notifying => 3
  | .unlocking => 4
  | .lockingCompletion | .checking | .waiting => 5
  | .returning => 6
  | .returned => 7

theorem Turn.calls (turn : Turn s action next seen) : s.calls ≤ next.calls := by
  cases turn with
  | call => exact Nat.le_succ _
  | _ => exact Nat.le_refl _

theorem stage_setPc (before : (s.callers i).pc = old) (forth : old.stage ≤ new.stage) (j : Nat) :
    (s.callers j).pc.stage ≤ ((s.setPc i new).callers j).pc.stage := by
  rw [setPc_pc]
  by_cases same : j = i
  · rw [if_pos same,same,before]
    exact forth
  · simp [same]

theorem Turn.stage (turn : Turn s action next seen) (numbered : Numbered s) (i : Nat) :
    (s.callers i).pc.stage ≤ (next.callers i).pc.stage := by
  cases turn with
  | call task =>
    by_cases new : i = s.calls
    · rw [numbered i (Nat.le_of_eq new.symm)]
      exact Nat.zero_le _
    · simp [enter,new]
  | lock pc | push pc | notify pc | unlock pc | lockCompletion pc | found pc | wait pc | «return» pc | wakeCaller pc =>
    exact stage_setPc pc (by decide) i
  | notifyAll =>
    by_cases blocked : (s.callers i).pc = .waiting
    · simp [Requests.notifyAll,blocked,Pc.stage]
    · simp [Requests.notifyAll,blocked]
  | queueLock | queueWait | queueRelock | queueEmpty | queueFront | select | fail | assign | send | pop | wakeQueue | rpc
  | next | broken | finishLock | insert | finishUnlock | update => exact Nat.le_refl _

theorem Numbered.made (numbered : Numbered s) (inside : 0 < (s.callers i).pc.stage) : i < s.calls := by
  by_contra beyond
  rw [numbered i (Nat.le_of_not_lt beyond)] at inside
  exact absurd inside (by decide)

-- The id and the task of a call are written once, before it becomes visible.
theorem Turn.identity (turn : Turn s action next seen) (made : i < s.calls) :
    (next.callers i).taskID = (s.callers i).taskID ∧ (next.callers i).task = (s.callers i).task := by
  cases turn with
  | call task =>
    have old : i ≠ s.calls := Nat.ne_of_lt made
    simp [enter,old]
  | lock | push | notify | unlock | lockCompletion | found | wait | «return» | wakeCaller =>
    exact ⟨setPc_taskID _ _ _ _,setPc_task _ _ _ _⟩
  | notifyAll =>
    by_cases blocked : (s.callers i).pc = .waiting
    · simp [Requests.notifyAll,blocked]
    · simp [Requests.notifyAll,blocked]
  | queueLock | queueWait | queueRelock | queueEmpty | queueFront | select | fail | assign | send | pop | wakeQueue | rpc
  | next | broken | finishLock | insert | finishUnlock | update => exact ⟨rfl,rfl⟩

-- taskIDs++ counts on from whatever the counter held, modulo 2 ^ 32.
structure Labelled (first : BitVec 32) (s : State) : Prop where
  counter : s.taskIDs = first + BitVec.ofNat 32 s.calls
  labels : ∀ i < s.calls, (s.callers i).taskID = first + BitVec.ofNat 32 i

theorem Labelled.step (labelled : Labelled first s) (turn : Turn s action next seen) : Labelled first next := by
  have old : ∀ i < s.calls, (next.callers i).taskID = first + BitVec.ofNat 32 i := by
    intro i made
    rw [(turn.identity made).1,labelled.labels i made]
  cases turn with
  | call task =>
    refine ⟨?_,fun i made => ?_⟩
    · simp only [enter,labelled.counter,BitVec.ofNat_add,BitVec.add_assoc]
      rfl
    · rcases Nat.lt_succ_iff_lt_or_eq.mp made with before | rfl
      · exact old i before
      · simp [enter,labelled.counter]
  | _ => exact ⟨labelled.counter,old⟩

theorem Labelled.unique (labelled : Labelled first s) (bounded : s.calls < 2 ^ 32) (left : i < s.calls) (right : j < s.calls)
    (same : (s.callers i).taskID = (s.callers j).taskID) : i = j := by
  rw [labelled.labels i left,labelled.labels j right] at same
  have offsets := congrArg BitVec.toNat ((BitVec.add_right_inj first).mp same)
  rwa [BitVec.toNat_ofNat,BitVec.toNat_ofNat,Nat.mod_eq_of_lt (by omega),Nat.mod_eq_of_lt (by omega)] at offsets

@[simp] theorem pushedIn_append (left right : List Event) : pushedIn (left ++ right) = pushedIn left ++ pushedIn right :=
  List.filterMap_append

@[simp] theorem sentIn_append (left right : List Event) : sentIn (left ++ right) = sentIn left ++ sentIn right :=
  List.filterMap_append

@[simp] theorem poppedIn_append (left right : List Event) : poppedIn (left ++ right) = poppedIn left ++ poppedIn right :=
  List.filterMap_append

-- taskQueue holds what was pushed and not yet popped, and a call pushes once.
structure Enqueued (past : List Event) (s : State) : Prop where
  order : pushedIn past = poppedIn past ++ s.taskQueue
  once : (pushedIn past).Nodup
  staged : ∀ i ∈ pushedIn past, 3 ≤ (s.callers i).pc.stage

theorem Enqueued.quiet (enqueued : Enqueued past s) (stage : ∀ i, (s.callers i).pc.stage ≤ (next.callers i).pc.stage)
    (tasks : next.taskQueue = s.taskQueue) (pushes : pushedIn seen = []) (pops : poppedIn seen = []) :
    Enqueued (past ++ seen) next := by
  have same : pushedIn (past ++ seen) = pushedIn past := by rw [pushedIn_append,pushes,List.append_nil]
  refine ⟨?_,by rw [same]; exact enqueued.once,fun i pushed => ?_⟩
  · rw [same,poppedIn_append,pops,List.append_nil,tasks]
    exact enqueued.order
  · rw [same] at pushed
    exact Nat.le_trans (enqueued.staged i pushed) (stage i)

theorem Enqueued.push (enqueued : Enqueued past s) (pushing : (s.callers i).pc = .pushing)
    (stage : ∀ j, (s.callers j).pc.stage ≤ ((s.setPc i .notifying).callers j).pc.stage) :
    Enqueued (past ++ [.pushed i]) {s.setPc i .notifying with taskQueue:=s.taskQueue ++ [i]} := by
  have fresh : i ∉ pushedIn past := by
    intro pushed
    have staged := enqueued.staged i pushed
    rw [pushing] at staged
    exact absurd staged (by decide)
  have grown : pushedIn (past ++ [.pushed i]) = pushedIn past ++ [i] := pushedIn_append _ _
  refine ⟨?_,?_,fun j pushed => ?_⟩
  · have same : poppedIn (past ++ [.pushed i]) = poppedIn past := by
      rw [poppedIn_append]
      exact List.append_nil _
    rw [grown,same,enqueued.order,List.append_assoc]
  · rw [grown,List.nodup_append]
    refine ⟨enqueued.once,by simp,fun j old k new => ?_⟩
    rintro rfl
    exact fresh (List.mem_singleton.mp new ▸ old)
  · rw [grown] at pushed
    rcases List.mem_append.mp pushed with old | new
    · exact Nat.le_trans (enqueued.staged j old) (stage j)
    · simp [List.mem_singleton.mp new,Pc.stage]

theorem Enqueued.step (enqueued : Enqueued past s) (numbered : Numbered s) (turn : Turn s action next seen) :
    Enqueued (past ++ seen) next := by
  have stage := turn.stage numbered
  cases turn with
  | push pc => exact enqueued.push pc stage
  | @pop taskData rest _ _ tasks =>
    have popped : poppedIn (past ++ [.popped taskData]) = poppedIn past ++ [taskData] := poppedIn_append _ _
    have same : pushedIn (past ++ [.popped taskData]) = pushedIn past := by
      rw [pushedIn_append]
      exact List.append_nil _
    refine ⟨?_,by rw [same]; exact enqueued.once,by rw [same]; exact enqueued.staged⟩
    rw [same,popped,enqueued.order,tasks,List.append_assoc]
    rfl
  | call | lock | notify | unlock | lockCompletion | found | wait | «return» | wakeCaller | queueLock | queueWait | queueRelock
  | queueEmpty | queueFront | select | fail | assign | send | wakeQueue | rpc | next | broken | finishLock | insert
  | notifyAll | finishUnlock | update => exact enqueued.quiet stage rfl rfl rfl

-- The task on which processTaskQueue works is still at the front of the queue.
def AtFront (s : State) : Prop :=
  match s.queue with
  | .selecting taskData | .assigning taskData _ => s.taskQueue.head? = some taskData
  | .sending call => s.taskQueue.head? = some call.caller
  | .popping => s.taskQueue ≠ []
  | .starting | .testing | .waiting | .woken | .checking => True

-- What has been sent is what has been popped, and between the RPC and the pop the
-- front of the queue as well.
def inHand (s : State) : List Nat :=
  match s.queue with
  | .popping => s.taskQueue.take 1
  | _ => []

structure Dispatched (past : List Event) (s : State) : Prop where
  order : sentIn past = poppedIn past ++ inHand s
  front : AtFront s

theorem Dispatched.quiet (dispatched : Dispatched past s) (queue : next.queue = s.queue)
    (tasks : next.taskQueue = s.taskQueue) (sends : sentIn seen = []) (pops : poppedIn seen = []) :
    Dispatched (past ++ seen) next := by
  refine ⟨?_,?_⟩
  · rw [sentIn_append,poppedIn_append,sends,pops,List.append_nil,List.append_nil,dispatched.order]
    simp only [inHand,queue,tasks]
  · have front := dispatched.front
    simp only [AtFront,queue,tasks] at front ⊢
    exact front

-- processTaskQueue moves without an RPC and without a pop.
theorem Dispatched.consume (dispatched : Dispatched past s) (idle : inHand s = []) (empty : inHand next = [])
    (front : AtFront next) (sends : sentIn seen = []) (pops : poppedIn seen = []) : Dispatched (past ++ seen) next := by
  refine ⟨?_,front⟩
  rw [sentIn_append,poppedIn_append,sends,pops,List.append_nil,List.append_nil,dispatched.order,idle,empty]

theorem Dispatched.push (dispatched : Dispatched past s) :
    Dispatched (past ++ [.pushed i]) {s.setPc i .notifying with taskQueue:=s.taskQueue ++ [i]} := by
  have front := dispatched.front
  have sends : sentIn (past ++ [.pushed i]) = sentIn past := by
    rw [sentIn_append]
    exact List.append_nil _
  have pops : poppedIn (past ++ [.pushed i]) = poppedIn past := by
    rw [poppedIn_append]
    exact List.append_nil _
  refine ⟨?_,?_⟩
  · rw [sends,pops,dispatched.order]
    simp only [AtFront] at front
    cases queue : s.queue with
    | popping =>
      rw [queue] at front
      obtain ⟨head,rest,tasks⟩ := List.exists_cons_of_ne_nil front
      simp [inHand,queue,tasks]
    | _ => simp [inHand,queue]
  · simp only [AtFront,setPc_queue] at front ⊢
    cases queue : s.queue <;> simp_all

theorem Dispatched.step (dispatched : Dispatched past s) (turn : Turn s action next seen) :
    Dispatched (past ++ seen) next := by
  have front := dispatched.front
  cases turn with
  | push pc => exact dispatched.push
  | notify =>
    refine ⟨?_,?_⟩
    · rw [List.append_nil,dispatched.order]
      simp only [inHand]
      cases s.queue <;> rfl
    · simp only [AtFront] at front ⊢
      cases queue : s.queue <;> simp_all [notifyOne,State.setPc]
  | queueLock pc | queueWait pc | queueRelock pc | queueEmpty pc | wakeQueue pc =>
    exact dispatched.consume (by simp [inHand,pc]) rfl trivial rfl rfl
  | queueFront pc tasks => exact dispatched.consume (by simp [inHand,pc]) rfl (by simp [AtFront,tasks]) rfl rfl
  | select pc | assign pc =>
    refine dispatched.consume (by simp [inHand,pc]) rfl ?_ rfl rfl
    simpa [AtFront,pc] using front
  | @send call _ pc =>
    have head : s.taskQueue.head? = some call.caller := by simpa [AtFront,pc] using front
    obtain ⟨rest,tasks⟩ := List.head?_eq_some_iff.mp head
    refine ⟨?_,by simp [AtFront,tasks]⟩
    have idle : inHand s = [] := by simp [inHand,pc]
    rw [sentIn_append,poppedIn_append,dispatched.order,idle]
    simp [sentIn,poppedIn,inHand,tasks]
  | @pop taskData rest _ pc tasks =>
    refine ⟨?_,trivial⟩
    have held : inHand s = [taskData] := by simp [inHand,pc,tasks]
    rw [sentIn_append,poppedIn_append,dispatched.order,held]
    simp [sentIn,poppedIn,inHand]
  | call | lock | unlock | lockCompletion | found | wait | «return» | wakeCaller | fail | rpc | next | broken | finishLock
  | insert | notifyAll | finishUnlock | update => exact dispatched.quiet rfl rfl rfl rfl

theorem sent_pushed (enqueued : Enqueued past s) (dispatched : Dispatched past s) : sentIn past <+: pushedIn past := by
  rw [dispatched.order,enqueued.order,List.prefix_append_right_inj]
  simp only [inHand]
  split
  · exact List.take_prefix 1 _
  · exact List.nil_prefix

theorem Enqueued.front_pushed (enqueued : Enqueued past s) (head : s.taskQueue.head? = some i) : i ∈ pushedIn past := by
  rw [enqueued.order]
  exact List.mem_append_right _ (List.mem_of_mem_head? head)

theorem Enqueued.front_made (enqueued : Enqueued past s) (numbered : Numbered s) (head : s.taskQueue.head? = some i) :
    i < s.calls :=
  numbered.made (Nat.lt_of_lt_of_le (by decide) (enqueued.staged i (enqueued.front_pushed head)))

-- An RPC carries the id and the task of the call that it was read from, and so
-- does the request that assignTaskToWorker is filling in.
def Carries (s : State) (call : Call) : Prop :=
  call.caller < s.calls ∧ call.taskID = (s.callers call.caller).taskID ∧ call.task = (s.callers call.caller).task

theorem Carries.step (carries : Carries s call) (turn : Turn s action next seen) : Carries next call := by
  obtain ⟨made,label,task⟩ := carries
  obtain ⟨sameLabel,sameTask⟩ := turn.identity made
  exact ⟨Nat.lt_of_lt_of_le made turn.calls,label.trans sameLabel.symm,task.trans sameTask.symm⟩

structure Carried (past : List Event) (s : State) : Prop where
  draft : ∀ call, s.queue = .sending call → Carries s call
  sent : ∀ call, .sent call ∈ past → Carries s call

theorem Turn.sends {call : Call} (turn : Turn s action next seen) (sent : .sent call ∈ seen) : s.queue = .sending call := by
  cases turn with
  | send pc =>
    cases List.mem_singleton.mp sent
    exact pc
  | _ => simp at sent

theorem Turn.drafts {call : Call} (turn : Turn s action next seen) (drafted : next.queue = .sending call) :
    s.queue = .sending call ∨ ∃ taskData workerId, s.queue = .assigning taskData workerId ∧
      call = ⟨taskData,(s.callers taskData).taskID,workerId,(s.callers taskData).task⟩ := by
  cases turn with
  | notify =>
    revert drafted
    cases queue : s.queue <;> simp [notifyOne]
  | assign pc =>
    cases drafted
    exact .inr ⟨_,_,pc,rfl⟩
  | queueLock | queueWait | queueRelock | queueEmpty | queueFront | select | send | pop | wakeQueue => cases drafted
  | call | lock | push | unlock | lockCompletion | found | wait | «return» | wakeCaller | fail | rpc | next | broken
  | finishLock | insert | notifyAll | finishUnlock | update => exact .inl drafted

theorem Carried.step (carried : Carried past s) (enqueued : Enqueued past s) (dispatched : Dispatched past s)
    (numbered : Numbered s) (turn : Turn s action next seen) : Carried (past ++ seen) next := by
  refine ⟨fun call drafted => ?_,fun call sent => ?_⟩
  · rcases turn.drafts drafted with old | ⟨taskData,workerId,pc,rfl⟩
    · exact (carried.draft call old).step turn
    · have front := dispatched.front
      simp only [AtFront,pc] at front
      exact Carries.step ⟨enqueued.front_made numbered front,rfl,rfl⟩ turn
  · rcases List.mem_append.mp sent with old | new
    · exact (carried.sent call old).step turn
    · exact (carried.draft call (turn.sends new)).step turn

def FinishPc.call? : FinishPc → Option Call
  | .polling => none
  | .locking call | .inserting call | .notifying call | .unlocking call | .updating call => some call

-- From the RPC to taskCompletionSet: nothing arrives that was not sent, and an id
-- enters the set only for an RPC that has completed.
structure Answered (past : List Event) (s : State) : Prop where
  flying : ∀ call ∈ s.rpcs, .sent call ∈ past
  completed : ∀ call ok, .completed call ok ∈ past → .sent call ∈ past
  waiting : ∀ call ok, (call,ok) ∈ s.cq → .completed call ok ∈ past
  finishing : ∀ call, s.finish.call? = some call → .completed call true ∈ past
  inserted : ∀ taskID ∈ s.taskCompletionSet, ∃ call, call.taskID = taskID ∧ .completed call true ∈ past

theorem Answered.quiet (answered : Answered past s) (complete : ∀ call ok, .completed call ok ∉ seen)
    (rpcs : next.rpcs = s.rpcs) (cq : next.cq = s.cq) (finish : next.finish = s.finish)
    (completions : next.taskCompletionSet = s.taskCompletionSet) : Answered (past ++ seen) next := by
  refine ⟨fun call member => ?_,fun call ok completed => ?_,fun call ok member => ?_,fun call here => ?_,
    fun taskID member => ?_⟩
  · exact List.mem_append_left _ (answered.flying call (rpcs ▸ member))
  · have old := (List.mem_append.mp completed).resolve_right (complete call ok)
    exact List.mem_append_left _ (answered.completed call ok old)
  · exact List.mem_append_left _ (answered.waiting call ok (cq ▸ member))
  · exact List.mem_append_left _ (answered.finishing call (finish ▸ here))
  · obtain ⟨call,label,completed⟩ := answered.inserted taskID (completions ▸ member)
    exact ⟨call,label,List.mem_append_left _ completed⟩

theorem Answered.rpc (answered : Answered past s) (found : s.rpcs[k]? = some call) :
    Answered (past ++ [.completed call ok]) {s with rpcs:=s.rpcs.eraseIdx k,cq:=s.cq ++ [(call,ok)]} := by
  have sent : .sent call ∈ past := answered.flying call (List.mem_of_getElem? found)
  refine ⟨fun other member => ?_,fun other ok' completed => ?_,fun other ok' member => ?_,fun other here => ?_,
    fun taskID member => ?_⟩
  · exact List.mem_append_left _ (answered.flying other (List.mem_of_mem_eraseIdx member))
  · rcases List.mem_append.mp completed with old | new
    · exact List.mem_append_left _ (answered.completed other ok' old)
    · cases List.mem_singleton.mp new
      exact List.mem_append_left _ sent
  · rcases List.mem_append.mp member with old | new
    · exact List.mem_append_left _ (answered.waiting other ok' old)
    · cases List.mem_singleton.mp new
      exact List.mem_append_right _ (List.mem_singleton_self _)
  · exact List.mem_append_left _ (answered.finishing other here)
  · obtain ⟨other,label,completed⟩ := answered.inserted taskID member
    exact ⟨other,label,List.mem_append_left _ completed⟩

-- finishRequests moves on with the RPC that it holds.
theorem Answered.finish (answered : Answered past s) (held : s.finish.call? = some call)
    (rpcs : next.rpcs = s.rpcs) (cq : next.cq = s.cq) (kept : ∀ other, next.finish.call? = some other → other = call)
    (inserted : ∀ taskID ∈ next.taskCompletionSet, taskID = call.taskID ∨ taskID ∈ s.taskCompletionSet) :
    Answered past next := by
  have completed := answered.finishing call held
  refine ⟨rpcs ▸ answered.flying,answered.completed,cq ▸ answered.waiting,fun other here => ?_,fun taskID member => ?_⟩
  · rw [kept other here]
    exact completed
  · rcases inserted taskID member with rfl | old
    · exact ⟨call,rfl,completed⟩
    · exact answered.inserted taskID old

theorem Answered.step (answered : Answered past s) (turn : Turn s action next seen) : Answered (past ++ seen) next := by
  cases turn with
  | @send call _ pc =>
    have kept : Answered (past ++ [.sent call]) s := answered.quiet (by simp) rfl rfl rfl rfl
    refine ⟨fun other member => ?_,kept.completed,kept.waiting,kept.finishing,kept.inserted⟩
    rcases List.mem_append.mp member with old | new
    · exact kept.flying other old
    · cases List.mem_singleton.mp new
      exact List.mem_append_right _ (List.mem_singleton_self _)
  | rpc found => exact answered.rpc found
  | @next call rest _ cq =>
    rw [List.append_nil]
    refine ⟨answered.flying,answered.completed,fun other ok member => ?_,fun other here => ?_,answered.inserted⟩
    · exact answered.waiting other ok (cq ▸ List.mem_cons_of_mem _ member)
    · cases here
      exact answered.waiting call true (cq ▸ List.mem_cons_self)
  | broken cq =>
    rw [List.append_nil]
    refine ⟨answered.flying,answered.completed,fun other ok member => ?_,answered.finishing,answered.inserted⟩
    exact answered.waiting other ok (cq ▸ List.mem_cons_of_mem _ member)
  | @insert call pc =>
    rw [List.append_nil]
    exact answered.finish (by rw [pc]; rfl) rfl rfl (by simp [FinishPc.call?]) fun _ member => List.mem_cons.mp member
  | finishLock pc | notifyAll pc | finishUnlock pc | update pc =>
    rw [List.append_nil]
    exact answered.finish (by rw [pc]; rfl) rfl rfl (by simp [FinishPc.call?]) fun _ member => .inr member
  | call | lock | push | notify | unlock | lockCompletion | found | wait | «return» | wakeCaller | queueLock | queueWait
  | queueRelock | queueEmpty | queueFront | select | fail | assign | pop | wakeQueue =>
    exact answered.quiet (by simp) rfl rfl rfl rfl

-- A call leaves its loop only on its own id.
structure Settled (past : List Event) (s : State) : Prop where
  found : ∀ i, 6 ≤ (s.callers i).pc.stage → (s.callers i).taskID ∈ s.taskCompletionSet
  returned : ∀ i taskID, .returned i taskID ∈ past → (s.callers i).pc.stage = 7

theorem Turn.keeps_completed (turn : Turn s action next seen) (member : taskID ∈ s.taskCompletionSet) :
    taskID ∈ next.taskCompletionSet := by
  cases turn with
  | insert => exact List.mem_cons_of_mem _ member
  | _ => exact member

theorem Turn.returns (turn : Turn s action next seen) (gone : .returned i taskID ∈ seen) :
    (s.callers i).pc = .returning ∧ taskID = (s.callers i).taskID ∧ (next.callers i).pc = .returned := by
  cases turn with
  | «return» pc =>
    cases List.mem_singleton.mp gone
    exact ⟨pc,rfl,by simp⟩
  | _ => simp at gone

theorem stage_far (far : 6 ≤ ((s.setPc i new).callers j).pc.stage) :
    6 ≤ (s.callers j).pc.stage ∨ j = i ∧ 6 ≤ new.stage := by
  rw [setPc_pc] at far
  by_cases same : j = i
  · rw [if_pos same] at far
    exact .inr ⟨same,far⟩
  · rw [if_neg same] at far
    exact .inl far

theorem Turn.finds (turn : Turn s action next seen) (far : 6 ≤ (next.callers i).pc.stage) :
    6 ≤ (s.callers i).pc.stage ∨ (s.callers i).pc = .checking ∧ (s.callers i).taskID ∈ s.taskCompletionSet := by
  cases turn with
  | call task =>
    by_cases new : i = s.calls
    · simp [enter,new,Pc.stage] at far
    · simp only [enter,Function.update_of_ne new] at far
      exact .inl far
  | lock | push | notify | unlock | lockCompletion | wait | wakeCaller =>
    rcases stage_far far with before | ⟨_,late⟩
    · exact .inl before
    · exact absurd late (by decide)
  | found pc member =>
    rcases stage_far far with before | ⟨rfl,_⟩
    · exact .inl before
    · exact .inr ⟨pc,member⟩
  | «return» pc =>
    rcases stage_far far with before | ⟨rfl,_⟩
    · exact .inl before
    · simp [pc,Pc.stage]
  | notifyAll =>
    by_cases blocked : (s.callers i).pc = .waiting
    · simp [Requests.notifyAll,blocked,Pc.stage] at far
    · simp only [Requests.notifyAll,blocked,if_false] at far
      exact .inl far
  | queueLock | queueWait | queueRelock | queueEmpty | queueFront | select | fail | assign | send | pop | wakeQueue | rpc
  | next | broken | finishLock | insert | finishUnlock | update => exact .inl far

theorem Settled.step (settled : Settled past s) (numbered : Numbered s) (turn : Turn s action next seen) :
    Settled (past ++ seen) next := by
  refine ⟨fun i far => ?_,fun i taskID gone => ?_⟩
  · have here : 5 ≤ (s.callers i).pc.stage ∧ (s.callers i).taskID ∈ s.taskCompletionSet := by
      rcases turn.finds far with before | ⟨pc,member⟩
      · exact ⟨Nat.le_of_succ_le before,settled.found i before⟩
      · exact ⟨by simp [pc,Pc.stage],member⟩
    have made : i < s.calls := numbered.made (Nat.lt_of_lt_of_le (by decide) here.1)
    rw [(turn.identity made).1]
    exact turn.keeps_completed here.2
  · have bound : (next.callers i).pc.stage ≤ 7 := by
      cases (next.callers i).pc <;> decide
    rcases List.mem_append.mp gone with old | new
    · have before := settled.returned i taskID old
      have stage := turn.stage numbered i
      omega
    · rw [(turn.returns new).2.2]
      rfl

structure Sound (first : BitVec 32) (past : List Event) (s : State) : Prop where
  numbered : Numbered s
  labelled : Labelled first s
  enqueued : Enqueued past s
  dispatched : Dispatched past s
  carried : Carried past s
  answered : Answered past s
  settled : Settled past s

theorem start_sound (first : BitVec 32) : Sound first [] (State.start first) where
  numbered := fun _ _ => rfl
  labelled := ⟨by simp [State.start],by simp [State.start]⟩
  enqueued := ⟨rfl,List.nodup_nil,by simp [pushedIn]⟩
  dispatched := ⟨rfl,trivial⟩
  carried := ⟨by simp [State.start],by simp⟩
  answered := by constructor <;> simp [State.start,FinishPc.call?]
  settled := ⟨by simp [State.start,Pc.stage],by simp⟩

theorem Sound.step (sound : Sound first past s) (turn : Turn s action next seen) : Sound first (past ++ seen) next where
  numbered := sound.numbered.step turn
  labelled := sound.labelled.step turn
  enqueued := sound.enqueued.step sound.numbered turn
  dispatched := sound.dispatched.step turn
  carried := sound.carried.step sound.enqueued sound.dispatched sound.numbered turn
  answered := sound.answered.step turn
  settled := sound.settled.step sound.numbered turn

theorem sound_of_run (path : Runs advance (State.start first) moves last) : Sound first (observed moves) last :=
  path.past (Sound first) (start_sound first) fun _ _ _ _ _ sound stepped => sound.step (advance_turn stepped)

-- A call on its way out has had its own RPC completed: two calls share no id.
theorem Sound.served (sound : Sound first past s) (bounded : s.calls < 2 ^ 32) (far : 6 ≤ (s.callers i).pc.stage) :
    ∃ call, call.caller = i ∧ call.taskID = (s.callers i).taskID ∧ .sent call ∈ past ∧ .completed call true ∈ past := by
  obtain ⟨call,label,completed⟩ := sound.answered.inserted _ (sound.settled.found i far)
  have sent := sound.answered.completed call true completed
  obtain ⟨made,own,_⟩ := sound.carried.sent call sent
  have mine : i < s.calls := sound.numbered.made (Nat.lt_of_lt_of_le (by decide) far)
  exact ⟨call,sound.labelled.unique bounded made mine (own.symm.trans label),label,sent,completed⟩

-- The front of the queue has not been sent unless processTaskQueue is about to pop it.
theorem Sound.front_unsent (sound : Sound first past s) (head : s.taskQueue.head? = some i) (idle : inHand s = []) :
    i ∉ sentIn past := by
  have once := sound.enqueued.once
  rw [sound.enqueued.order] at once
  rw [sound.dispatched.order,idle,List.append_nil]
  intro popped
  exact (List.nodup_append.mp once).2.2 i popped i (List.mem_of_mem_head? head) rfl

theorem Turn.reads (turn : Turn s action next seen) (front : AtFront s) (read : .read i ∈ seen) :
    s.taskQueue.head? = some i ∧ inHand s = [] := by
  cases turn with
  | select pc | fail pc | assign pc =>
    cases List.mem_singleton.mp read
    exact ⟨by simpa [AtFront,pc] using front,by simp [inHand,pc]⟩
  | _ => simp at read

theorem Sound.reads (sound : Sound first past s) (bounded : s.calls < 2 ^ 32) (turn : Turn s action next seen)
    (read : .read i ∈ seen) : (s.callers i).pc.stage < 6 := by
  obtain ⟨head,idle⟩ := turn.reads sound.dispatched.front read
  by_contra far
  obtain ⟨call,rfl,_,sent,_⟩ := sound.served bounded (Nat.le_of_not_lt far)
  exact sound.front_unsent head idle (mem_sentIn sent)

theorem Sound.sent_once (sound : Sound first past s) : (sentIn past).Nodup :=
  sound.enqueued.once.sublist (sent_pushed sound.enqueued sound.dispatched).sublist

theorem Turn.pops (turn : Turn s action next seen) (popped : .popped i ∈ seen) : i ∈ inHand s := by
  cases turn with
  | pop pc tasks =>
    cases List.mem_singleton.mp popped
    simp [inHand,pc,tasks]
  | _ => simp at popped

theorem Sound.pops (sound : Sound first past s) (turn : Turn s action next seen) (popped : .popped i ∈ seen) :
    (sentIn past).count i = 1 := by
  refine List.count_eq_one_of_mem sound.sent_once ?_
  rw [sound.dispatched.order]
  exact List.mem_append_right _ (turn.pops popped)

theorem calls_bounded (path : Runs advance (State.start first) moves last) (bounded : last.calls < 2 ^ 32)
    (member : move ∈ moves) : move.before.calls < 2 ^ 32 :=
  Nat.lt_of_le_of_lt (path.grows State.calls (fun _ _ _ _ stepped => (advance_turn stepped).calls) move member) bounded

-- A call is named by its number. Whatever the interleaving: nobody is sent twice,
-- tasks are sent in the order of their pushes and each before its pop, a call
-- returns after its own RPC, and a TaskData is read while its owner is blocked.
theorem requests_protocol (path : Runs advance (State.start first) moves last) (bounded : last.calls < 2 ^ 32) :
    (pushedIn (observed moves)).Nodup ∧ (∀ i, (sentIn (observed moves)).count i ≤ 1) ∧
      sentIn (observed moves) <+: pushedIn (observed moves) ∧
      (∀ call, .sent call ∈ observed moves →
        call.taskID = (last.callers call.caller).taskID ∧ call.task = (last.callers call.caller).task) ∧
      ∀ earlier move later, moves = earlier ++ move :: later →
        (∀ i, .popped i ∈ move.seen → (sentIn (observed earlier)).count i = 1) ∧
        (∀ i taskID, .returned i taskID ∈ move.seen → taskID = (move.before.callers i).taskID ∧
          ∃ call, call.caller = i ∧ call.taskID = taskID ∧
            .sent call ∈ observed earlier ∧ .completed call true ∈ observed earlier) ∧
        ∀ i, .read i ∈ move.seen →
          (move.before.callers i).pc ≠ .returned ∧ ∀ taskID, .returned i taskID ∉ observed earlier := by
  have sound := sound_of_run path
  refine ⟨sound.enqueued.once,fun i => List.nodup_iff_count_le_one.mp sound.sent_once i,
    sent_pushed sound.enqueued sound.dispatched,fun call sent => (sound.carried.sent call sent).2,
    fun earlier move later cut => ?_⟩
  obtain ⟨reached,stepped,_⟩ := path.split cut
  have before := sound_of_run reached
  have member : move ∈ moves := by simp [cut]
  have small := calls_bounded path bounded member
  have turn := advance_turn stepped
  refine ⟨fun i popped => before.pops turn popped,fun i taskID gone => ?_,fun i read => ?_⟩
  · obtain ⟨pc,rfl,_⟩ := turn.returns gone
    exact ⟨rfl,before.served small (by simp [pc,Pc.stage])⟩
  · have inside := before.reads small turn read
    refine ⟨fun pc => ?_,fun taskID gone => ?_⟩
    · rw [pc] at inside
      exact absurd inside (by decide)
    · rw [before.settled.returned i taskID gone] at inside
      exact absurd inside (by decide)

-- Two calls; the second RPC comes back first and wakes the first call in vain.
theorem requests_protocol_overtaken : ∃ moves last, Runs advance (State.start 7) moves last ∧
    observed moves = [.pushed 0,.pushed 1,.read 0,.read 0,.sent ⟨0,7,3,⟨1,2⟩⟩,.popped 0,.read 1,.read 1,
      .sent ⟨1,8,4,⟨5,6⟩⟩,.popped 1,.completed ⟨1,8,4,⟨5,6⟩⟩ true,.completed ⟨0,7,3,⟨1,2⟩⟩ true,.returned 0 7] ∧
    sentIn (observed moves) <+: pushedIn (observed moves) := by
  obtain ⟨moves,last,path,checked⟩ := run_reaches advance (State.start 7)
    (fun moves last => last.calls = 2 ∧ observed moves = [.pushed 0,.pushed 1,.read 0,.read 0,.sent ⟨0,7,3,⟨1,2⟩⟩,
      .popped 0,.read 1,.read 1,.sent ⟨1,8,4,⟨5,6⟩⟩,.popped 1,.completed ⟨1,8,4,⟨5,6⟩⟩ true,
      .completed ⟨0,7,3,⟨1,2⟩⟩ true,.returned 0 7])
    [.processTaskQueue 0,.processTaskQueue 0,.call ⟨1,2⟩,.call ⟨5,6⟩,
      .caller 0,.caller 0,.caller 0,.caller 0,.caller 1,.caller 1,.caller 1,.caller 1,
      .processTaskQueue 0,.processTaskQueue 0,.processTaskQueue 3,.processTaskQueue 0,.processTaskQueue 0,.processTaskQueue 0,
      .processTaskQueue 0,.processTaskQueue 4,.processTaskQueue 0,.processTaskQueue 0,.processTaskQueue 0,
      .caller 0,.caller 0,.rpc 1 true,.finishRequests,.finishRequests,.finishRequests,.finishRequests,.finishRequests,
      .finishRequests,.caller 0,.caller 0,.rpc 0 true,.finishRequests,.finishRequests,.finishRequests,.finishRequests,
      .finishRequests,.caller 0,.caller 0,.caller 0]
    (by decide +kernel)
  simp only [decide_eq_true_eq] at checked
  obtain ⟨both,trace⟩ := checked
  exact ⟨moves,last,path,trace,(requests_protocol path (by rw [both]; decide)).2.2.1⟩

end DbosScheduler.Spark.Requests
