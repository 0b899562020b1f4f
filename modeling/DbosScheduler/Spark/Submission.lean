import DbosScheduler.Spark.Locality
import DbosScheduler.Spark.Protocol

namespace DbosScheduler.Spark.Submission
open Machine Requests

-- A task on its way from the network to a worker: int64 fields in both messages, and
-- a Task with int fields between them.
structure SubmitTaskRequest where
  targetdata : Int64
  exectime : Int64
  deriving Repr, DecidableEq

-- The assignments to int keep the low 32 bits.
def protobufToTask (request : SubmitTaskRequest) : Task :=
  ⟨request.targetdata.toInt32.toInt,request.exectime.toInt32.toInt⟩

def taskToProtobuf (task : Task) : SubmitTaskRequest := ⟨Int64.ofInt task.targetData,Int64.ofInt task.execTime⟩

def int32 (value : Int) : Prop := -2147483648 ≤ value ∧ value ≤ 2147483647

def Storable (task : Task) : Prop := int32 task.targetData ∧ int32 task.execTime

def Narrow (request : SubmitTaskRequest) : Prop := int32 request.targetdata.toInt ∧ int32 request.exectime.toInt

theorem toInt32_range (wide : Int64) : int32 wide.toInt32.toInt := by
  have low := wide.toInt32.le_toInt
  have high := wide.toInt32.toInt_lt
  exact ⟨by omega,by omega⟩

theorem toInt32_exact (wide : Int64) : wide.toInt32.toInt = wide.toInt ↔ int32 wide.toInt := by
  constructor
  · intro same
    rw [← same]
    exact toInt32_range wide
  · intro range
    obtain ⟨low,high⟩ := range
    rw [Int64.toInt_toInt32]
    exact Int.bmod_eq_of_le_mul_two (by omega) (by omega)

theorem toInt_ofInt_int32 {value : Int} (range : int32 value) : (Int64.ofInt value).toInt = value := by
  obtain ⟨low,high⟩ := range
  exact Int64.toInt_ofInt_of_le (by omega) (by omega)

theorem field_exact (wide : Int64) : Int64.ofInt wide.toInt32.toInt = wide ↔ int32 wide.toInt := by
  rw [← toInt32_exact,← Int64.toInt_inj,toInt_ofInt_int32 (toInt32_range wide)]

theorem message_exact (request : SubmitTaskRequest) : taskToProtobuf (protobufToTask request) = request ↔ Narrow request := by
  obtain ⟨targetdata,exectime⟩ := request
  simp only [taskToProtobuf,protobufToTask,SubmitTaskRequest.mk.injEq,field_exact,Narrow]

theorem task_exact {task : Task} (held : Storable task) : protobufToTask (taskToProtobuf task) = task := by
  have back : ∀ {value : Int}, int32 value → (Int64.ofInt value).toInt32.toInt = value := by
    intro value range
    have kept := toInt_ofInt_int32 range
    rw [(toInt32_exact _).mpr (by rwa [kept]),kept]
  simp only [protobufToTask,taskToProtobuf,back held.1,back held.2]

-- FrontendServiceServer over a SparkScheduler. Request number i is the one whose
-- handler makes the call number i of schedule().
structure State where
  scheduler : Requests.State
  requests : List SubmitTaskRequest

inductive Action where
  | submitTask (request : SubmitTaskRequest)
  | scheduler (action : Requests.Action)

inductive Event where
  | selected (request : Nat) (targetData : Int)
  | sent (request : Nat) (message : SubmitTaskRequest)
  deriving Repr, DecidableEq

-- The argument of selectWorker(taskData->taskStruct->targetData).
def selection (s : Requests.State) : Requests.Action → List Event
  | .processTaskQueue _ =>
    match s.queue with
    | .selecting taskData => [.selected taskData (s.callers taskData).task.targetData]
    | _ => []
  | _ => []

-- assignTaskToWorker fills in its message as taskToProtobuf does.
def outgoing : Requests.Event → Option Event
  | .sent call => some (.sent call.caller (taskToProtobuf call.task))
  | _ => none

def arrival : Requests.Action → Bool
  | .call _ => true
  | _ => false

-- Calls of schedule() come from requests alone.
def advance : Advance State Action Event
  | s,.submitTask request => do
    let (next,_) ← Requests.advance s.scheduler (.call (protobufToTask request))
    return (⟨next,s.requests ++ [request]⟩,[])
  | s,.scheduler action =>
    if arrival action then none else do
    let (next,seen) ← Requests.advance s.scheduler action
    return (⟨next,s.requests⟩,selection s.scheduler action ++ seen.filterMap outgoing)

def State.start (taskIDs : BitVec 32) : State := ⟨.start taskIDs,[]⟩

variable {s last : State} {past : List Event} {first : BitVec 32} {core after : Requests.State}

-- A call keeps the task of its request, and what was selected and sent is that task's.
structure Relayed (first : BitVec 32) (past : List Event) (s : State) : Prop where
  sound : ∃ core, Sound first core s.scheduler
  count : s.requests.length = s.scheduler.calls
  tasks : ∀ i request, s.requests[i]? = some request → (s.scheduler.callers i).task = protobufToTask request
  selected : ∀ i targetData, .selected i targetData ∈ past →
    ∃ request, s.requests[i]? = some request ∧ targetData = (protobufToTask request).targetData
  sent : ∀ i message, .sent i message ∈ past →
    ∃ request, s.requests[i]? = some request ∧ message = taskToProtobuf (protobufToTask request)

theorem Relayed.owner (relayed : Relayed first past s) (made : i < s.scheduler.calls) :
    ∃ request, s.requests[i]? = some request ∧ (s.scheduler.callers i).task = protobufToTask request := by
  have inside : i < s.requests.length := by rw [relayed.count]; exact made
  have found : s.requests[i]? = some s.requests[i] := List.getElem?_eq_getElem inside
  exact ⟨_,found,relayed.tasks i _ found⟩

theorem calls_kept (turn : Turn core action after events) (other : arrival action = false) : after.calls = core.calls := by
  cases turn with
  | call => cases other
  | _ => rfl

theorem Relayed.submit (relayed : Relayed first past s) (request : SubmitTaskRequest)
    (turn : Turn s.scheduler (.call (protobufToTask request)) core events) :
    Relayed first past ⟨core,s.requests ++ [request]⟩ := by
  obtain ⟨history,sound⟩ := relayed.sound
  have earlier : ∀ {i : Nat} {old : SubmitTaskRequest}, s.requests[i]? = some old → (s.requests ++ [request])[i]? = some old := by
    intro i old found
    obtain ⟨inside,_⟩ := List.getElem?_eq_some_iff.mp found
    rw [List.getElem?_append_left inside]
    exact found
  refine ⟨⟨_,sound.step turn⟩,?_,fun i task found => ?_,fun i shard there => ?_,fun i message there => ?_⟩
  · cases turn
    simp [enter,relayed.count]
  · by_cases old : i < s.requests.length
    · rw [List.getElem?_append_left old] at found
      rw [(turn.identity (by rw [← relayed.count]; exact old)).2]
      exact relayed.tasks i task found
    · obtain ⟨inside,_⟩ := List.getElem?_eq_some_iff.mp found
      have last : i = s.requests.length := by
        rw [List.length_append,List.length_singleton] at inside
        omega
      rw [last,List.getElem?_append_right (Nat.le_refl _),Nat.sub_self] at found
      cases found
      cases turn
      simp [enter,last,relayed.count]
  · obtain ⟨old,found,same⟩ := relayed.selected i shard there
    exact ⟨old,earlier found,same⟩
  · obtain ⟨old,found,same⟩ := relayed.sent i message there
    exact ⟨old,earlier found,same⟩

theorem selection_cases (chosen : event ∈ selection core action) :
    ∃ taskData, core.queue = .selecting taskData ∧ event = .selected taskData (core.callers taskData).task.targetData := by
  unfold selection at chosen
  split at chosen
  · split at chosen
    · rename_i taskData pc
      exact ⟨taskData,pc,List.mem_singleton.mp chosen⟩
    · cases chosen
  · cases chosen

theorem outgoing_cases (mailed : event ∈ List.filterMap outgoing events) :
    ∃ call, .sent call ∈ events ∧ event = .sent call.caller (taskToProtobuf call.task) := by
  obtain ⟨seen,member,same⟩ := List.mem_filterMap.mp mailed
  cases seen with
  | sent call =>
    cases same
    exact ⟨call,member,rfl⟩
  | _ => simp [outgoing] at same

theorem Relayed.scheduler (relayed : Relayed first past s) (turn : Turn s.scheduler action core events)
    (other : arrival action = false) :
    Relayed first (past ++ (selection s.scheduler action ++ events.filterMap outgoing)) ⟨core,s.requests⟩ := by
  obtain ⟨history,sound⟩ := relayed.sound
  refine ⟨⟨_,sound.step turn⟩,relayed.count.trans (calls_kept turn other).symm,fun i request found => ?_,
    fun i shard there => ?_,fun i message there => ?_⟩
  · obtain ⟨inside,_⟩ := List.getElem?_eq_some_iff.mp found
    rw [(turn.identity (by rw [← relayed.count]; exact inside)).2]
    exact relayed.tasks i request found
  · rcases List.mem_append.mp there with old | new
    · exact relayed.selected i shard old
    rcases List.mem_append.mp new with chosen | mailed
    · obtain ⟨taskData,pc,same⟩ := selection_cases chosen
      cases same
      have front := sound.dispatched.front
      simp only [AtFront,pc] at front
      obtain ⟨request,found,task⟩ := relayed.owner (sound.enqueued.front_made sound.numbered front)
      exact ⟨request,found,by rw [task]⟩
    · obtain ⟨_,_,same⟩ := outgoing_cases mailed
      cases same
  · rcases List.mem_append.mp there with old | new
    · exact relayed.sent i message old
    rcases List.mem_append.mp new with chosen | mailed
    · obtain ⟨_,_,same⟩ := selection_cases chosen
      cases same
    · obtain ⟨call,member,same⟩ := outgoing_cases mailed
      cases same
      obtain ⟨made,_,task⟩ := sound.carried.draft call (turn.sends member)
      obtain ⟨request,found,kept⟩ := relayed.owner made
      exact ⟨request,found,by rw [task,kept]⟩

theorem relayed_of_run (path : Runs advance (State.start first) moves last) : Relayed first (observed moves) last := by
  refine path.past (Relayed first) ⟨⟨[],start_sound first⟩,rfl,by simp [State.start],by simp,by simp⟩ ?_
  intro past s action next seen relayed stepped
  cases action with
  | submitTask request =>
    obtain ⟨⟨core,events⟩,ran,ended⟩ := Option.bind_eq_some_iff.mp stepped
    cases ended
    rw [List.append_nil]
    exact relayed.submit request (advance_turn ran)
  | scheduler action =>
    simp only [advance] at stepped
    split at stepped
    · cases stepped
    · rename_i other
      obtain ⟨⟨core,events⟩,ran,ended⟩ := Option.bind_eq_some_iff.mp stepped
      cases ended
      exact relayed.scheduler (advance_turn ran) (by simpa using other)

theorem submission_unchanged_iff (request : SubmitTaskRequest) (task : Task) (first : BitVec 32)
    (moves : List (Move State Action Event)) (last : State) :
    (taskToProtobuf (protobufToTask request) = request ↔ Narrow request) ∧
    (Storable task → protobufToTask (taskToProtobuf task) = task) ∧
    (Runs advance (State.start first) moves last →
      (∀ i message, .sent i message ∈ observed moves →
        ∃ request, last.requests[i]? = some request ∧ (message = request ↔ Narrow request)) ∧
      ∀ i targetData, .selected i targetData ∈ observed moves →
        ∃ request, last.requests[i]? = some request ∧
          (targetData = request.targetdata.toInt ↔ int32 request.targetdata.toInt)) := by
  refine ⟨message_exact request,fun held => task_exact held,fun path => ?_⟩
  have relayed := relayed_of_run path
  refine ⟨fun i message there => ?_,fun i targetData there => ?_⟩
  · obtain ⟨request,found,rfl⟩ := relayed.sent i message there
    exact ⟨request,found,message_exact request⟩
  · obtain ⟨request,found,rfl⟩ := relayed.selected i targetData there
    exact ⟨request,found,toInt32_exact _⟩

-- One request from its arrival to the RPC. Shard 2^32 + 1 comes out as shard 1.
def dispatch (request : SubmitTaskRequest) : List Action :=
  .submitTask request :: ([.processTaskQueue 0,.processTaskQueue 0,.caller 0,.caller 0,.caller 0,.caller 0,
    .processTaskQueue 0,.processTaskQueue 0,.processTaskQueue 1,.processTaskQueue 0,.processTaskQueue 0] : List Requests.Action).map .scheduler

theorem submission_unchanged_iff_small : ∃ moves last, Runs advance (State.start 0) moves last ∧
    .sent 0 ⟨-5,7⟩ ∈ observed moves ∧ .selected 0 (-5) ∈ observed moves ∧
    ∃ request, last.requests[0]? = some request ∧ Narrow request ∧ request = ⟨-5,7⟩ := by
  obtain ⟨moves,last,path,checked⟩ := run_reaches advance (State.start 0)
    (fun moves last => decide (observed moves = [.selected 0 (-5),.sent 0 ⟨-5,7⟩] ∧ last.requests = [⟨-5,7⟩]))
    (dispatch ⟨-5,7⟩) (by decide +kernel)
  obtain ⟨trace,arrived⟩ := of_decide_eq_true checked
  have mailed : .sent 0 ⟨-5,7⟩ ∈ observed moves := by simp [trace]
  obtain ⟨request,found,same⟩ := ((submission_unchanged_iff ⟨-5,7⟩ ⟨-5,7⟩ 0 moves last).2.2 path).1 0 ⟨-5,7⟩ mailed
  have is : ⟨-5,7⟩ = request := by
    rw [arrived] at found
    exact Option.some.inj found
  exact ⟨moves,last,path,mailed,by simp [trace],request,found,same.mp is,is.symm⟩

theorem submission_truncated : ∃ moves last, Runs advance (State.start 0) moves last ∧
    last.requests = [⟨4294967297,3000000000⟩] ∧ .selected 0 1 ∈ observed moves ∧
    .sent 0 ⟨1,-1294967296⟩ ∈ observed moves ∧
    taskToProtobuf (protobufToTask ⟨4294967297,3000000000⟩) ≠ ⟨4294967297,3000000000⟩ := by
  obtain ⟨moves,last,path,checked⟩ := run_reaches advance (State.start 0)
    (fun moves last => decide (observed moves = [.selected 0 1,.sent 0 ⟨1,-1294967296⟩] ∧
      last.requests = [⟨4294967297,3000000000⟩]))
    (dispatch ⟨4294967297,3000000000⟩) (by decide +kernel)
  obtain ⟨trace,arrived⟩ := of_decide_eq_true checked
  exact ⟨moves,last,path,arrived,by simp [trace],by simp [trace],by decide +kernel⟩

-- The selection that a request leads to. SelectDataShardPartition is asked once, and
-- the partitions it returns are all that the polling loop has.
section Selection
open Sql Scheduler
variable {db : Database} {d : Int}

def Heard (move : Move (Database × Selecting) SelectAction Polled) : Prop :=
  ∀ rand choice, move.before.2 = .asking → move.action = .own rand choice → choice.fault = false

def Registered (d : Int) (db : Database) : Prop := ∃ pkey, ⟨d,pkey⟩ ∈ db.dataLocation

theorem asked_answered (calm : choice.fault = false) (d : Int) (rand : Nat) (db : Database) :
    ∃ partitions, SparkScheduler.selectWorker d (db,.asking) (.own rand choice) = some ((db,.polling partitions),[]) ∧
      ∀ p, p ∈ partitions ↔ ⟨d,p⟩ ∈ db.dataLocation := by
  obtain ⟨partitions,ran⟩ : ∃ partitions, SelectDataShardPartition.run choice d db = some (partitions,db) := ⟨_,rfl⟩
  have served : invoke db ⟨.selectDataShardPartition,[.int d]⟩ choice = (db,some (.column partitions)) :=
    invoke_ran (.selectDataShardPartition d) rfl calm (by simp [Sql.Call.run,reply,ran])
  exact ⟨partitions,by simp [SparkScheduler.selectWorker,served],(mem_shardPartitions ran).2⟩

theorem asked_failed (fault : choice.fault = true) (d : Int) (rand : Nat) (db : Database) :
    SparkScheduler.selectWorker d (db,.asking) (.own rand choice) = some ((db,.died),[]) := by
  simp [SparkScheduler.selectWorker,invoke_fault fault]

structure Standing (d : Int) (db : Database) (s : Database × Selecting) : Prop where
  same : s.1.dataLocation = db.dataLocation
  polling : ∀ partitions, s.2 = .polling partitions → ∀ p, p ∈ partitions ↔ ⟨d,p⟩ ∈ db.dataLocation
  died : s.2 = .died → ¬Registered d db
  returned : ∀ w, s.2 = .returned w → Registered d db

theorem Standing.step {s next : Database × Selecting} {action : SelectAction} (standing : Standing d db s)
    (answered : ∀ rand choice, s.2 = .asking → action = .own rand choice → choice.fault = false)
    (stepped : SparkScheduler.selectWorker d s action = some (next,polls)) : Standing d db next := by
  have step := select_step stepped
  have same := step.identities.2.trans standing.same
  obtain ⟨here,stands⟩ := s
  obtain ⟨there,stands'⟩ := next
  have registered : ∀ {partitions p}, stands = .polling partitions → p ∈ partitions → Registered d db := by
    intro partitions p polling member
    exact ⟨p,(standing.polling partitions polling p).mp member⟩
  cases step with
  | asked exact_ =>
    refine ⟨same,fun partitions is p => ?_,by simp,by simp⟩
    cases is
    rw [exact_,standing.same]
  | died stopped =>
    refine ⟨same,by simp,fun _ => ?_,by simp⟩
    rcases stopped with rfl | rfl
    · cases action with
      | other call choice => simp [SparkScheduler.selectWorker] at stepped
      | own rand choice =>
        obtain ⟨partitions,ran,_⟩ := asked_answered (answered rand choice rfl rfl) d rand here
        rw [ran] at stepped
        cases stepped
    · intro given
      obtain ⟨p,member⟩ := given
      exact absurd ((standing.polling [] rfl p).mpr member) (by simp)
  | failed listed => exact ⟨same,by simp,by simp,fun _ _ => registered rfl listed⟩
  | nobody => exact ⟨same,standing.polling,by simp,by simp⟩
  | charged listed => exact ⟨same,by simp,by simp,fun _ _ => registered rfl listed⟩
  | unnamed => exact ⟨same,standing.polling,by simp,by simp⟩
  | other => exact ⟨same,standing.polling,standing.died,standing.returned⟩

theorem standing_of_run {last : Database × Selecting} (path : Runs (SparkScheduler.selectWorker d) (db,.asking) moves last)
    (answered : ∀ move ∈ moves, Heard move) : Standing d db last := by
  refine path.guarded (Standing d db)
    (fun s action => ∀ rand choice, s.2 = .asking → action = .own rand choice → choice.fault = false)
    answered ⟨rfl,by simp,by simp,by simp⟩ ?_
  intro s action next polls standing calm stepped
  exact standing.step calm stepped

-- With an answered first query the process survives just when some partition holds the
-- shard of the request. Otherwise nothing is returned at all, and a failed first query
-- is the end of the process in any case.
theorem selection_survives_iff (request : SubmitTaskRequest) (db : Database) :
    ((∀ moves last, Runs (SparkScheduler.selectWorker (protobufToTask request).targetData) (db,.asking) moves last →
      (∀ move ∈ moves, Heard move) → last.2 ≠ .died) ↔ Registered (protobufToTask request).targetData db) ∧
    (¬Registered (protobufToTask request).targetData db → ∀ moves last,
      Runs (SparkScheduler.selectWorker (protobufToTask request).targetData) (db,.asking) moves last →
      (∀ move ∈ moves, Heard move) → ∀ w, last.2 ≠ .returned w) ∧
    ∀ rand choice, choice.fault = true →
      SparkScheduler.selectWorker (protobufToTask request).targetData (db,.asking) (.own rand choice) =
        some ((db,.died),[]) := by
  generalize (protobufToTask request).targetData = d
  refine ⟨⟨fun survives => ?_,fun registered moves last path answered died => ?_⟩,
    fun missing moves last path answered w ended => ?_,fun rand choice fault => asked_failed fault d rand db⟩
  · by_contra missing
    obtain ⟨partitions,first,exact_⟩ := asked_answered (show ({} : Choice).fault = false from rfl) d 0 db
    have empty : partitions = [] := List.eq_nil_iff_forall_not_mem.mpr fun p member => missing ⟨p,(exact_ p).mp member⟩
    subst empty
    have second : SparkScheduler.selectWorker d (db,.polling []) (.own 0 {}) = some ((db,.died),[]) := rfl
    refine survives _ _ (.step (.step .nil first) second) ?_ rfl
    intro move member rand choice asking own
    simp only [List.nil_append,List.cons_append,List.mem_cons,List.not_mem_nil,or_false] at member
    rcases member with rfl | rfl
    · cases own
      rfl
    · cases own
      rfl
  · exact (standing_of_run path answered).died died registered
  · exact missing ((standing_of_run path answered).returned w ended)

theorem selection_survives_iff_registered : ∃ moves last,
    Runs (SparkScheduler.selectWorker (protobufToTask ⟨1,5⟩).targetData) (twoRows,.asking) moves last ∧
      last.2 = .returned 1 ∧ Registered 1 twoRows ∧ last.2 ≠ .died := by
  have path := run_sound (show run (SparkScheduler.selectWorker (protobufToTask ⟨1,5⟩).targetData) (twoRows,.asking)
    [.own 0 {},.own 4 {}] = some (_,_) from rfl)
  have registered : Registered (protobufToTask ⟨1,5⟩).targetData twoRows := ⟨1,by decide +kernel⟩
  refine ⟨_,_,path,by decide +kernel,⟨1,by decide⟩,?_⟩
  refine (selection_survives_iff ⟨1,5⟩ twoRows).1.mpr registered _ _ path ?_
  intro move member rand choice _ own
  simp only [List.mem_cons,List.not_mem_nil,or_false] at member
  rcases member with rfl | rfl
  · cases own
    rfl
  · cases own
    rfl

theorem selection_crashes :
    (∃ moves last, Runs (SparkScheduler.selectWorker (protobufToTask ⟨9,5⟩).targetData) (twoRows,.asking) moves last ∧
      last.2 = .died) ∧
    ∃ moves last, Runs (SparkScheduler.selectWorker (protobufToTask ⟨1,5⟩).targetData) (twoRows,.asking) moves last ∧
      last.2 = .died := by
  refine ⟨?_,?_⟩
  · obtain ⟨moves,last,path,checked⟩ := run_reaches (SparkScheduler.selectWorker (protobufToTask ⟨9,5⟩).targetData)
      (twoRows,.asking) (fun _ last => decide (last.2 = .died)) [.own 0 {},.own 3 {}] (by decide +kernel)
    exact ⟨moves,last,path,of_decide_eq_true checked⟩
  · obtain ⟨moves,last,path,checked⟩ := run_reaches (SparkScheduler.selectWorker (protobufToTask ⟨1,5⟩).targetData)
      (twoRows,.asking) (fun _ last => decide (last.2 = .died)) [.own 0 {fault:=true}] (by decide +kernel)
    exact ⟨moves,last,path,of_decide_eq_true checked⟩

end Selection

end DbosScheduler.Spark.Submission
