import DbosScheduler.Bench.Recording
import DbosScheduler.Message.Async

namespace DbosScheduler.Bench
open Machine Sql Flights Message

structure CommOptions where
  broadcast : Bool
  partitions : Int32
  maxOutstanding : Int32

-- The call that one iteration makes.
def CommOptions.call (options : CommOptions) : Bool × List Request :=
  if options.broadcast then asyncBroadcastMessage else asyncSendMessage 0 options.partitions

-- endThresh_, and the threshold that the thread itself compares with.
def CommOptions.half (options : CommOptions) : Int := options.maxOutstanding.toInt.tdiv 2

inductive CommPlace where
  | body
  | invoking (rest : List Request)
  | polling
  | condition
  | draining
  | returned
  | exited
  deriving Repr, DecidableEq

-- outCnt_ is an int64_t, which no run comes near to the end of.
structure CommThread where
  pc : CommPlace
  outCnt_ : Int
  flight : Flight Database Request Response

def CommThread.start (db : Database) : CommThread := ⟨.body,0,⟨db,[],[]⟩⟩

inductive CommAct where
  | call
  | invoke
  | count
  | callback (i aryIndex : Nat)
  | leave
  | test (mainFinished : Bool)
  | execute (i : Nat) (choice : Choice)
  | disturb (request : Request) (choice : Choice)

inductive CommEvent where
  | invoked
  | called
  deriving Repr, DecidableEq

-- A callback that returns true breaks the event loop: runOnce returns then, and drain is
-- called again.
def CommPlace.broken : CommPlace → CommPlace
  | .polling => .condition
  | pc => pc

def SenderCallback (options : CommOptions) (s : CommThread) (response : Response) (aryIndex : Nat) : CommThread :=
  match response with
  | none => {s with pc:=.exited}
  | some _ =>
    if kMaxEntries ≤ aryIndex then {s with pc:=.exited} else
    {s with
      outCnt_:=s.outCnt_ - 1
      pc:=if s.outCnt_ - 1 ≤ options.half then s.pc.broken else s.pc}

-- The client runs callbacks only inside its event loop, on the thread that called it.
def CommPlace.looping : CommPlace → Bool
  | .polling => true
  | .draining => true
  | _ => false

-- The body behind the call: count it, and decide on the event loop.
def CommOptions.counted (options : CommOptions) (outCnt_ : Int) : CommPlace :=
  if !options.call.1 then .exited else
  if options.maxOutstanding.toInt ≤ outCnt_ then .polling else
  if options.half < outCnt_ then .polling else .condition

def CommunicationBench.SenderThread (options : CommOptions) : Advance CommThread CommAct CommEvent
  | s,.call => if s.pc = .body then some ({s with pc:=.invoking options.call.2},[]) else none
  | s,.invoke =>
    match s.pc with
    | .invoking (request :: rest) => some ({s with
        pc:=.invoking rest
        flight:=s.flight.issue request},[.invoked])
    | _ => none
  | s,.count =>
    if s.pc = .invoking [] then some ({s with
      pc:=options.counted (s.outCnt_ + 1)
      outCnt_:=s.outCnt_ + 1},[])
    else none
  | s,.callback i aryIndex =>
    if s.pc.looping then (s.flight.take i).map fun taken =>
      (SenderCallback options {s with flight:=taken.2} taken.1 aryIndex,[.called])
    else none
  | s,.leave =>
    match s.pc with
    | .polling => some ({s with pc:=.condition},[])
    | .draining => if s.flight.inFlight = 0 then some ({s with pc:=.returned},[]) else none
    | _ => none
  | s,.test mainFinished =>
    if s.pc = .condition then some ({s with pc:=if mainFinished then .draining else .body},[]) else none
  | s,.execute i choice => (s.flight.execute Sql.invoke i choice).map fun flight => ({s with flight:=flight},[])
  | s,.disturb request choice => some ({s with flight:=s.flight.disturb Sql.invoke request choice},[])

-- Between two iterations.
def CommPlace.between : CommPlace → Bool
  | .body => true
  | .condition => true
  | _ => false

-- outCnt_ is the number of invocations that are in flight.
def Counts (options : CommOptions) (db : Database) : Prop :=
  ∀ moves s, Runs (CommunicationBench.SenderThread options) (.start db) moves s → s.pc.between = true →
    s.outCnt_ = ((observed moves).count .invoked : Int) - (observed moves).count .called ∧ 0 ≤ s.outCnt_

-- Where the counter stands against what is in flight, when a call makes one invocation.
def Balanced (outCnt_ : Int) (inFlight : Nat) : CommPlace → Prop
  | .invoking rest => outCnt_ + 1 = inFlight + rest.length
  | .exited => True
  | .body | .polling | .condition | .draining | .returned => outCnt_ = inFlight

structure Flying (past : List CommEvent) (s : CommThread) : Prop where
  issued : past.count .invoked = past.count .called + s.flight.inFlight
  balanced : Balanced s.outCnt_ s.flight.inFlight s.pc

section Thread
variable {options : CommOptions} {db : Database} {s next : CommThread}

theorem balanced_between {pc : CommPlace} (balanced : Balanced outCnt_ inFlight pc) (between : pc.between = true) :
    outCnt_ = inFlight := by
  cases pc with
  | body => exact balanced
  | condition => exact balanced
  | invoking rest => cases between
  | polling => cases between
  | draining => cases between
  | returned => cases between
  | exited => cases between

theorem balanced_looping {pc : CommPlace} (looping : pc.looping = true) :
    (Balanced outCnt_ inFlight pc ↔ outCnt_ = inFlight) ∧ (Balanced outCnt_ inFlight pc.broken ↔ outCnt_ = inFlight) := by
  cases pc with
  | polling => exact ⟨Iff.rfl,Iff.rfl⟩
  | draining => exact ⟨Iff.rfl,Iff.rfl⟩
  | invoking rest => cases looping
  | body => cases looping
  | condition => cases looping
  | returned => cases looping
  | exited => cases looping

theorem balanced_counted (options : CommOptions) {outCnt_ : Int} {inFlight : Nat} (same : outCnt_ = inFlight) :
    Balanced outCnt_ inFlight (options.counted outCnt_) := by
  unfold CommOptions.counted
  split
  · trivial
  · split
    · exact same
    · split
      · exact same
      · exact same

-- A callback takes one reply out of flight; if it goes well, it counts it.
theorem balanced_callback (options : CommOptions) (looping : s.pc.looping = true) (same : s.outCnt_ = (s.flight.inFlight : Int) + 1) (response : Response)
    (aryIndex : Nat) : (SenderCallback options s response aryIndex).flight = s.flight ∧
      Balanced (SenderCallback options s response aryIndex).outCnt_ s.flight.inFlight
        (SenderCallback options s response aryIndex).pc := by
  have fewer : s.outCnt_ - 1 = s.flight.inFlight := by omega
  unfold SenderCallback
  cases response with
  | none => exact ⟨rfl,trivial⟩
  | some reply =>
    dsimp only
    split
    · exact ⟨rfl,trivial⟩
    · refine ⟨rfl,?_⟩
      dsimp only
      split
      · exact (balanced_looping looping).2.mpr fewer
      · exact (balanced_looping looping).1.mpr fewer

theorem flying_step (single : options.call.2.length = 1) (flying : Flying past s)
    (stepped : CommunicationBench.SenderThread options s act = some (next,seen)) : Flying (past ++ seen) next := by
  obtain ⟨issued,balanced⟩ := flying
  cases act with
  | call =>
    obtain ⟨here,done⟩ := Option.ite_none_right_eq_some.mp stepped
    cases done
    rw [here] at balanced
    refine ⟨by rwa [List.append_nil],?_⟩
    show s.outCnt_ + 1 = s.flight.inFlight + options.call.2.length
    rw [single,show s.outCnt_ = s.flight.inFlight from balanced]
    rfl
  | invoke =>
    unfold CommunicationBench.SenderThread at stepped
    dsimp only at stepped
    split at stepped
    · rename_i request rest here
      cases stepped
      rw [here] at balanced
      constructor
      · rw [List.count_append,List.count_append,issued,Flight.inFlight_issue]
        exact (Nat.add_assoc _ _ _)
      · have before : s.outCnt_ + 1 = s.flight.inFlight + (request :: rest).length := balanced
        show s.outCnt_ + 1 = (s.flight.issue request).inFlight + rest.length
        rw [Flight.inFlight_issue,before,List.length_cons]
        omega
    · cases stepped
  | count =>
    obtain ⟨here,done⟩ := Option.ite_none_right_eq_some.mp stepped
    cases done
    rw [here] at balanced
    refine ⟨by rwa [List.append_nil],balanced_counted options ?_⟩
    have before : s.outCnt_ + 1 = s.flight.inFlight + ([] : List Request).length := balanced
    rw [before]
    rfl
  | callback i aryIndex =>
    obtain ⟨looping,done⟩ := Option.ite_none_right_eq_some.mp stepped
    obtain ⟨⟨response,flight⟩,taken,same⟩ := Option.map_eq_some_iff.mp done
    cases same
    have fewer := Flight.inFlight_take taken
    have before := (balanced_looping looping).1.mp balanced
    obtain ⟨kept,after⟩ := balanced_callback options (s := {s with flight:=flight}) looping
      (by dsimp only; omega) response aryIndex
    constructor
    · rw [List.count_append,List.count_append,issued,kept]
      show _ + 0 = _ + 1 + flight.inFlight
      omega
    · rw [kept]
      exact after
  | leave =>
    unfold CommunicationBench.SenderThread at stepped
    dsimp only at stepped
    split at stepped
    · rename_i here
      cases stepped
      rw [here] at balanced
      exact ⟨by rwa [List.append_nil],balanced⟩
    · rename_i here
      obtain ⟨_,done⟩ := Option.ite_none_right_eq_some.mp stepped
      cases done
      rw [here] at balanced
      exact ⟨by rwa [List.append_nil],balanced⟩
    · cases stepped
  | test mainFinished =>
    obtain ⟨here,done⟩ := Option.ite_none_right_eq_some.mp stepped
    cases done
    rw [here] at balanced
    refine ⟨by rwa [List.append_nil],?_⟩
    cases mainFinished with
    | false => exact balanced
    | true => exact balanced
  | execute i choice =>
    obtain ⟨flight,executed,same⟩ := Option.map_eq_some_iff.mp stepped
    cases same
    have kept := Flight.inFlight_execute executed
    rw [← kept] at issued balanced
    exact ⟨by rwa [List.append_nil],balanced⟩
  | disturb request choice =>
    cases stepped
    exact ⟨by rwa [List.append_nil],balanced⟩

theorem flying_run (single : options.call.2.length = 1)
    (path : Runs (CommunicationBench.SenderThread options) (.start db) moves s) : Flying (observed moves) s := by
  refine path.past Flying ⟨rfl,rfl⟩ ?_
  intro past s act next seen flying stepped
  exact flying_step single flying stepped

-- The invocations of one call, one after the other.
theorem invocations_run (path : Runs (CommunicationBench.SenderThread options) (.start db) moves s)
    (here : s.pc = .invoking rest) : ∃ moves' s', Runs (CommunicationBench.SenderThread options) (.start db) moves' s' ∧
      s'.pc = .invoking [] ∧ s'.outCnt_ = s.outCnt_ ∧
      observed moves' = observed moves ++ List.replicate rest.length .invoked := by
  induction rest generalizing moves s with
  | nil => exact ⟨moves,s,path,here,rfl,by simp⟩
  | cons request rest ih =>
    have stepped : CommunicationBench.SenderThread options s .invoke = some ({s with
        pc:=.invoking rest
        flight:=s.flight.issue request},[.invoked]) := by
      simp only [CommunicationBench.SenderThread,here]
    obtain ⟨moves',s',longer,ready,same,seen⟩ := ih (.step path stepped) rfl
    refine ⟨moves',s',longer,ready,same,?_⟩
    rw [seen,observed_append,observed_single,List.append_assoc,List.length_cons,List.replicate_succ]
    rfl

-- The first iteration, without a callback: the counter is 1 after it, whatever the call
-- has invoked.
theorem first_iteration (options : CommOptions) (db : Database) (made : options.call.1 = true) :
    ∃ moves s, Runs (CommunicationBench.SenderThread options) (.start db) moves s ∧ s.pc.between = true ∧ s.outCnt_ = 1 ∧
      observed moves = List.replicate options.call.2.length .invoked := by
  have called : CommunicationBench.SenderThread options (.start db) .call =
      some ({CommThread.start db with pc:=.invoking options.call.2},[]) := rfl
  obtain ⟨moves,s,path,ready,same,seen⟩ := invocations_run (.step .nil called) rfl
  have counted : CommunicationBench.SenderThread options s .count = some ({s with
      pc:=options.counted (s.outCnt_ + 1)
      outCnt_:=s.outCnt_ + 1},[]) := if_pos ready
  have longer := Runs.step path counted
  have one : s.outCnt_ + 1 = 1 := by rw [same]; rfl
  rw [one] at longer
  have place : options.counted 1 = .polling ∨ options.counted 1 = .condition := by
    unfold CommOptions.counted
    rw [made]
    by_cases full : options.maxOutstanding.toInt ≤ 1
    · simp [full]
    · by_cases busy : options.half < 1
      · simp [full,busy]
      · simp [full,busy]
  rcases place with polling | condition
  · rw [polling] at longer
    have left : CommunicationBench.SenderThread options {s with
        pc:=.polling
        outCnt_:=1} .leave = some ({s with
          pc:=.condition
          outCnt_:=1},[]) := rfl
    refine ⟨_,_,.step longer left,rfl,rfl,?_⟩
    rw [observed_append,observed_append,seen]
    simp
  · rw [condition] at longer
    refine ⟨_,_,longer,rfl,rfl,?_⟩
    simp [seen]

theorem counts_iff_single (made : options.call.1 = true) : Counts options db ↔ options.call.2.length = 1 := by
  constructor
  · intro counts
    obtain ⟨moves,s,path,between,one,seen⟩ := first_iteration options db made
    have counted := (counts moves s path between).1
    rw [one,seen,List.count_replicate_self,List.count_replicate] at counted
    simp at counted
    omega
  · intro single moves s path between
    obtain ⟨issued,balanced⟩ := flying_run single path
    have same := balanced_between balanced between
    omega

end Thread

theorem call_made (options : CommOptions) : options.call.1 = true := by
  unfold CommOptions.call
  split
  · rfl
  · rfl

theorem outCnt_counts_iff (options : CommOptions) (partitioned : 1 ≤ options.partitions.toInt) (db : Database) :
    Counts options db ↔ options.broadcast = true ∨ options.partitions = 1 := by
  rw [counts_iff_single (call_made options),CommOptions.call]
  cases mode : options.broadcast with
  | true => simp [asyncBroadcastMessage]
  | false =>
    rw [if_neg Bool.false_ne_true,asyncSendMessage,sendLoop_length,Int32.zero_add,Int32.toInt_zero,Int.sub_zero,
      ← Int32.toInt_inj]
    constructor
    · intro single
      refine .inr ?_
      show options.partitions.toInt = 1
      omega
    · rintro (impossible | single)
      · cases impossible
      · rw [single]
        rfl

theorem outCnt_counts_broadcast : Counts ⟨true,8,4⟩ Database.empty ∧ Counts ⟨false,1,4⟩ Database.empty :=
  ⟨(outCnt_counts_iff ⟨true,8,4⟩ (by decide) Database.empty).mpr (.inl rfl),
    (outCnt_counts_iff ⟨false,1,4⟩ (by decide) Database.empty).mpr (.inr rfl)⟩

-- Two partitions: two requests in flight after the first iteration, and a counter of 1.
theorem outCnt_undercounts : ∃ moves s, Runs (CommunicationBench.SenderThread ⟨false,2,4⟩) (.start Database.empty) moves s ∧
    s.pc.between = true ∧ s.outCnt_ = 1 ∧ (observed moves).count .invoked = 2 ∧ (observed moves).count .called = 0 ∧
    ¬Counts ⟨false,2,4⟩ Database.empty := by
  obtain ⟨moves,s,path,between,one,seen⟩ := first_iteration ⟨false,2,4⟩ Database.empty rfl
  have twice : (CommOptions.call ⟨false,2,4⟩).2.length = 2 := sendLoop_length 0 (0 + 2)
  rw [twice] at seen
  have invoked : (observed moves).count .invoked = 2 := by rw [seen]; rfl
  have called : (observed moves).count .called = 0 := by rw [seen]; rfl
  refine ⟨moves,s,path,between,one,invoked,called,fun counts => ?_⟩
  have counted := (counts moves s path between).1
  rw [one,invoked,called] at counted
  exact absurd counted (by decide)

end DbosScheduler.Bench
