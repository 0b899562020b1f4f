import Std.Data.String.ToInt
import DbosScheduler.Lib.Machine
import DbosScheduler.Sql.Ledger

namespace DbosScheduler.Push
open Machine Sql Table

-- The push protocol: schedulers call PushTask, the export stream carries one row
-- for each pushed task, the exporter sends the row to its Url, and the worker that
-- listens there reports the task complete.
structure Setting where
  capacity : Int
  pkey : Int → Int
  atLeastOnce : Bool

-- "http://localhost:" + std::to_string(9090 + workerId_)
def url (workerID : Int) : String := "http://localhost:" ++ toString (9090 + workerID)

-- `started` are the workers that have called startServing, `serving` those whose
-- registration succeeded. `inFlight` are the rows of the stream that the exporter
-- still has to deliver, `requests` what has arrived at a worker and is not handled.
structure State where
  db : Database
  started : List Int
  serving : List Int
  inFlight : List TaskAssignRow
  requests : List (Int × Int)
  deriving Repr, DecidableEq

-- `again` leaves the row, or the report, to be sent once more.
inductive Action where
  | startServing (workerID : Int) (choice : Choice)
  | push (pkey taskID : Int) (choice : Choice)
  | processRow (i : Nat) (workerID : Int) (again : Bool)
  | lose (i : Nat)
  | handleRequest (j : Nat) (choice : Choice) (again : Bool)
  deriving Repr, DecidableEq

def registration (cfg : Setting) (workerID : Int) : Request :=
  ⟨.insertWorker,[.int workerID,.int cfg.capacity,.int (cfg.pkey workerID),.string (url workerID)]⟩

def completion (cfg : Setting) (request : Int × Int) : Request :=
  ⟨.workerUpdateTask,[.int (cfg.pkey request.1),.int request.1,.int request.2,.int TaskState.complete.code]⟩

-- The task id travels as the decimal text of an int, which stoi reads back. A
-- failed completion is only logged; the request is gone all the same.
def advance (cfg : Setting) : Advance State Action (Request × Response)
  | s,.startServing workerID choice =>
    if workerID ∈ s.started then none else
    let (db,response) := invoke s.db (registration cfg workerID) choice
    some ({s with
      db:=db
      started:=workerID :: s.started
      serving:=if response.isSome then workerID :: s.serving else s.serving},[(registration cfg workerID,response)])
  | s,.push pkey taskID choice =>
    let request : Request := ⟨.pushTask,[.int pkey,.int taskID]⟩
    let (db,response) := invoke s.db request choice
    some ({s with db:=db,inFlight:=s.inFlight ++ db.taskAssign.drop s.db.taskAssign.length},[(request,response)])
  | s,.processRow i workerID again =>
    match s.inFlight[i]? with
    | none => none
    | some row =>
      if workerID ∈ s.serving ∧ row.url = url workerID ∧ (again = true → cfg.atLeastOnce = true) then
        some ({s with
          inFlight:=if again then s.inFlight else s.inFlight.eraseIdx i
          requests:=s.requests ++ [(workerID,row.taskID)]},[])
      else none
  | s,.lose i => if i < s.inFlight.length then some ({s with inFlight:=s.inFlight.eraseIdx i},[]) else none
  | s,.handleRequest j choice again =>
    match s.requests[j]? with
    | none => none
    | some request =>
      if again = true → cfg.atLeastOnce = true then
        let (db,response) := invoke s.db (completion cfg request) choice
        some ({s with db:=db,requests:=if again then s.requests else s.requests.eraseIdx j},
          [(completion cfg request,response)])
      else none

def State.start (db : Database) : State := ⟨{db with worker:=[],task:=[]},[],[],[],[]⟩

-- When a report keeps the books right: there is an unfinished row to complete,
-- there is nobody to credit, or the credit would leave the INTEGER range and the
-- transaction is rolled back.
def Creditable (pkey workerID taskID : Int) (db : Database) : Prop :=
  (∃ row ∈ db.task, completed pkey taskID workerID row = true ∧ row.state ≠ complete) ∨
    (∀ row ∈ db.worker, row.key ≠ (pkey,workerID)) ∨
    ∃ row ∈ db.worker, row.key = (pkey,workerID) ∧ integer (row.capacity + 1) = false

structure Sound (cfg : Setting) (s : State) : Prop where
  workers : ∀ row ∈ s.db.worker, row.workerID ∈ s.started ∧ row.pkey = cfg.pkey row.workerID ∧ row.url = url row.workerID
  keyed : Keyed s.db
  tasks : ∀ task ∈ s.db.task, task.pkey = cfg.pkey task.workerID ∧ (task.state = running ∨ task.state = complete) ∧
    ∃ row ∈ s.db.worker, row.workerID = task.workerID
  balanced : Balanced (fun _ => cfg.capacity) s.db
  serving : ∀ workerID ∈ s.serving, ∃ row ∈ s.db.worker, row.workerID = workerID
  requests : ∀ request ∈ s.requests, request.1 ∈ s.serving

theorem url_injective (same : url left = url right) : left = right := by
  have digits : (9090 + left).repr = (9090 + right).repr := String.append_right_inj _ |>.mp same
  have equal := Int.repr_injective digits
  omega

theorem start_sound (cfg : Setting) (db : Database) : Sound cfg (State.start db) := by
  refine ⟨?_,⟨by simp [State.start],by simp [State.start]⟩,?_,?_,?_,?_⟩ <;> simp [State.start,Sql.Balanced]

variable {cfg : Setting} {db after : Database} {s next last : State}

-- Nothing after the registration changes who a row stands for.
def who (row : WorkerRow) : Int × Int × String := (row.workerID,row.pkey,row.url)

theorem charge_who (row : WorkerRow) (db : Database) :
    (db.charge row).worker.map who = db.worker.map who :=
  map_update who (by intro row _; rfl) _

theorem finish_who : (db.finish pkey workerID taskID).worker.map who = db.worker.map who :=
  map_update who (by intro row _; rfl) _

theorem who_kept (same : after.worker.map who = db.worker.map who) (member : row ∈ db.worker) :
    ∃ new ∈ after.worker, new.workerID = row.workerID := by
  have listed : who row ∈ after.worker.map who := same ▸ List.mem_map_of_mem member
  obtain ⟨new,present,equal⟩ := List.mem_map.mp listed
  exact ⟨new,present,(Prod.mk.inj equal).1⟩

-- A transaction of the running protocol: the same workers, and every task row
-- still belongs to one of them and is running or complete.
theorem Sound.transact {waiting : List (Int × Int)} (sound : Sound cfg s) (same : after.worker.map who = s.db.worker.map who)
    (keyed : Keyed after) (balanced : Balanced (fun _ => cfg.capacity) after)
    (tasks : ∀ task ∈ after.task, task.pkey = cfg.pkey task.workerID ∧ (task.state = running ∨ task.state = complete) ∧
      ∃ row ∈ s.db.worker, row.workerID = task.workerID)
    (arrived : ∀ request ∈ waiting, request.1 ∈ s.serving) (inFlight : List TaskAssignRow) :
    Sound cfg ⟨after,s.started,s.serving,inFlight,waiting⟩ := by
  refine ⟨fun row member => ?_,keyed,fun task member => ?_,balanced,fun workerID member => ?_,arrived⟩
  · have listed : who row ∈ s.db.worker.map who := same ▸ List.mem_map_of_mem member
    obtain ⟨old,present,equal⟩ := List.mem_map.mp listed
    simp only [who,Prod.mk.injEq] at equal
    have known := sound.workers old present
    rwa [equal.1,equal.2.1,equal.2.2] at known
  · obtain ⟨here,state,row,present,named⟩ := tasks task member
    obtain ⟨new,inside,equal⟩ := who_kept same present
    exact ⟨here,state,new,inside,equal.trans named⟩
  · obtain ⟨row,present,named⟩ := sound.serving workerID member
    obtain ⟨new,inside,equal⟩ := who_kept same present
    exact ⟨new,inside,equal.trans named⟩

-- The row that a worker registers for itself.
def Setting.row (cfg : Setting) (workerID : Int) : WorkerRow := ⟨workerID,cfg.capacity,0,cfg.pkey workerID,url workerID⟩

-- Every transition, with what its transaction did to the tables.
inductive Turn (cfg : Setting) (s : State) : Action → State → Prop where
  | unregistered : Turn cfg s (.startServing workerID choice) {s with started:=workerID :: s.started}
  | registered : workerID ∉ s.started → Turn cfg s (.startServing workerID choice)
      {s with
        db:={s.db with worker:=s.db.worker ++ [cfg.row workerID]}
        started:=workerID :: s.started
        serving:=workerID :: s.serving}
  | refused : Turn cfg s (.push pkey taskID choice) s
  | pushed {row : WorkerRow} : Free s.db pkey row → Fresh s.db row.pkey taskID → Turn cfg s (.push pkey taskID choice)
      {s with
        db:={s.db.assign taskID running row with taskAssign:=s.db.taskAssign ++ [⟨taskID,row.url,row.pkey⟩]}
        inFlight:=s.inFlight ++ [⟨taskID,row.url,row.pkey⟩]}
  | processed {row : TaskAssignRow} : s.inFlight[i]? = some row → workerID ∈ s.serving → row.url = url workerID →
      (again = true → cfg.atLeastOnce = true) → Turn cfg s (.processRow i workerID again)
      {s with
        inFlight:=if again then s.inFlight else s.inFlight.eraseIdx i
        requests:=s.requests ++ [(workerID,row.taskID)]}
  | lost : Turn cfg s (.lose i) {s with inFlight:=s.inFlight.eraseIdx i}
  | unreported : (again = true → cfg.atLeastOnce = true) → Turn cfg s (.handleRequest j choice again)
      {s with requests:=if again then s.requests else s.requests.eraseIdx j}
  | reported {request : Int × Int} : s.requests[j]? = some request → (again = true → cfg.atLeastOnce = true) →
      (∀ row ∈ s.db.worker, row.key = (cfg.pkey request.1,request.1) → integer (row.capacity + 1) = true) →
      Turn cfg s (.handleRequest j choice again)
      {s with
        db:=s.db.finish (cfg.pkey request.1) request.1 request.2
        requests:=if again then s.requests else s.requests.eraseIdx j}

theorem registration_cases (ran : invoke db (registration cfg workerID) choice = (after,response)) :
    (response = none ∧ after = db) ∨
      (response.isSome = true ∧ after = {db with worker:=db.worker ++ [cfg.row workerID]}) := by
  rcases invoke_cases (.insertWorker workerID cfg.capacity (cfg.pkey workerID) (url workerID)) rfl ran with
    failed | ⟨answer,rfl,committed⟩
  · exact .inl failed
  · obtain ⟨code,inserted,rfl⟩ := reply_some committed
    obtain ⟨middle,added,ended⟩ := Option.bind_eq_some_iff.mp inserted
    cases ended
    exact .inr ⟨rfl,(insertWorker_some added).2⟩

theorem push_cases (ran : invoke db ⟨.pushTask,[.int pkey,.int taskID]⟩ choice = (after,response)) :
    after = db ∨ ∃ row, Free db pkey row ∧ Fresh db row.pkey taskID ∧
      after = {db.assign taskID running row with taskAssign:=db.taskAssign ++ [⟨taskID,row.url,row.pkey⟩]} := by
  rcases PushTask.invoked ran with ⟨rfl,_⟩ | ⟨row,free,fresh,_,rfl⟩
  · exact .inl rfl
  · exact .inr ⟨row,free,free.2.1 ▸ fresh,by rw [free.2.1]⟩

theorem completion_cases (ran : invoke db (completion cfg request) choice = (after,response)) :
    after = db ∨ (after = db.finish (cfg.pkey request.1) request.1 request.2 ∧
      ∀ row ∈ db.worker, row.key = (cfg.pkey request.1,request.1) → integer (row.capacity + 1) = true) := by
  rcases invoke_cases (.workerUpdateTask (cfg.pkey request.1) request.1 request.2 complete) rfl ran with
    ⟨_,rfl⟩ | ⟨answer,_,committed⟩
  · exact .inl rfl
  · obtain ⟨code,updated,_⟩ := reply_some committed
    exact .inr ⟨(finish_of_run updated).2,WorkerUpdateTask.commits.mp (by rw [updated]; rfl)⟩

theorem advance_turn (stepped : advance cfg s action = some (next,seen)) : Turn cfg s action next := by
  cases action with
  | startServing workerID choice =>
    simp only [advance] at stepped
    split at stepped
    · cases stepped
    · cases ran : invoke s.db (registration cfg workerID) choice with
      | mk db response =>
        rw [ran] at stepped
        cases stepped
        rcases registration_cases ran with ⟨rfl,rfl⟩ | ⟨answered,rfl⟩
        · exact .unregistered
        · rw [if_pos answered]
          exact .registered ‹_›
  | push pkey taskID choice =>
    simp only [advance] at stepped
    cases ran : invoke s.db ⟨.pushTask,[.int pkey,.int taskID]⟩ choice with
    | mk db response =>
      rw [ran] at stepped
      cases stepped
      rcases push_cases ran with rfl | ⟨row,free,fresh,rfl⟩
      · rw [List.drop_length,List.append_nil]
        exact .refused
      · rw [List.drop_left]
        exact .pushed free fresh
  | processRow i workerID again =>
    simp only [advance] at stepped
    split at stepped
    · cases stepped
    · rename_i row found
      split at stepped
      · rename_i allowed
        cases stepped
        exact .processed found allowed.1 allowed.2.1 allowed.2.2
      · cases stepped
  | lose i =>
    simp only [advance] at stepped
    split at stepped <;> cases stepped
    exact .lost
  | handleRequest j choice again =>
    simp only [advance] at stepped
    split at stepped
    · cases stepped
    · rename_i request found
      split at stepped
      · rename_i allowed
        cases ran : invoke s.db (completion cfg request) choice with
        | mk db response =>
          rw [ran] at stepped
          cases stepped
          rcases completion_cases ran with rfl | ⟨rfl,fits⟩
          · exact .unreported allowed
          · exact .reported found allowed fits
      · cases stepped

theorem Sound.register (sound : Sound cfg s) (new : workerID ∉ s.started) :
    Sound cfg {s with
      db:={s.db with worker:=s.db.worker ++ [cfg.row workerID]}
      started:=workerID :: s.started
      serving:=workerID :: s.serving} := by
  have absent : ∀ row ∈ s.db.worker, row.workerID ≠ workerID := fun row member same =>
    new (same ▸ (sound.workers row member).1)
  have idle : unfinished s.db (cfg.pkey workerID) workerID = 0 := by
    refine List.countP_eq_zero.mpr fun task member counted => ?_
    obtain ⟨_,_,row,present,named⟩ := sound.tasks task member
    exact absent row present (named.trans (unfinishedOf_iff.mp counted).2.1)
  refine ⟨?_,⟨?_,sound.keyed.task⟩,?_,?_,?_,?_⟩
  · intro row member
    rcases List.mem_append.mp member with old | fresh
    · obtain ⟨known,rest⟩ := sound.workers row old
      exact ⟨List.mem_cons_of_mem _ known,rest⟩
    · cases List.mem_singleton.mp fresh
      exact ⟨List.mem_cons_self,rfl,rfl⟩
  · simp only [List.map_append,List.map_cons,List.map_nil,List.nodup_append]
    refine ⟨sound.keyed.worker,by simp,?_⟩
    rintro key listed _ single rfl
    obtain ⟨row,member,equal⟩ := List.mem_map.mp listed
    have other := List.mem_singleton.mp single
    rw [other] at equal
    exact absent row member (Prod.mk.inj equal).2
  · intro task member
    obtain ⟨here,state,row,present,named⟩ := sound.tasks task member
    exact ⟨here,state,row,List.mem_append_left _ present,named⟩
  · intro row member
    rcases List.mem_append.mp member with old | fresh
    · exact sound.balanced row old
    · cases List.mem_singleton.mp fresh
      change cfg.capacity + (unfinished s.db (cfg.pkey workerID) workerID : Int) = cfg.capacity
      rw [idle]
      simp
  · intro other member
    rcases List.mem_cons.mp member with rfl | old
    · exact ⟨_,List.mem_append_right _ (List.mem_singleton.mpr rfl),rfl⟩
    · obtain ⟨row,present,named⟩ := sound.serving other old
      exact ⟨row,List.mem_append_left _ present,named⟩
  · intro request member
    exact List.mem_cons_of_mem _ (sound.requests request member)

theorem Sound.push {row : WorkerRow} (sound : Sound cfg s) (free : Free s.db pkey row) (fresh : Fresh s.db row.pkey taskID)
    (taskAssign inFlight : List TaskAssignRow) :
    Sound cfg {s with db:={s.db.assign taskID running row with taskAssign:=taskAssign},inFlight:=inFlight} := by
  have keyed : Keyed (s.db.assign taskID running row) := sound.keyed.assign fresh
  have balanced : Balanced (fun _ => cfg.capacity) (s.db.assign taskID running row) :=
    sound.balanced.assign sound.keyed free (.inr rfl)
  apply sound.transact
  · exact charge_who row s.db
  · exact ⟨keyed.worker,keyed.task⟩
  · exact balanced
  · intro task member
    rcases List.mem_append.mp member with old | new
    · exact sound.tasks task old
    · cases List.mem_singleton.mp new
      exact ⟨(sound.workers row free.1).2.1,.inl rfl,row,free.1,rfl⟩
  · exact sound.requests

-- In this system the condition on a report can only be met by an unfinished row.
theorem Sound.finishes (sound : Sound cfg s) (member : request ∈ s.requests)
    (fits : ∀ row ∈ s.db.worker, row.key = (cfg.pkey request.1,request.1) → integer (row.capacity + 1) = true)
    (credit : Creditable (cfg.pkey request.1) request.1 request.2 s.db) :
    ∃ task ∈ s.db.task, completed (cfg.pkey request.1) request.2 request.1 task = true ∧ task.state = running := by
  obtain ⟨row,present,named⟩ := sound.serving _ (sound.requests request member)
  have key : row.key = (cfg.pkey request.1,request.1) := by
    simp [WorkerRow.key,named,(sound.workers row present).2.1]
  rcases credit with ⟨task,inside,hit,unfinished⟩ | nobody | ⟨other,there,same,overflow⟩
  · refine ⟨task,inside,hit,?_⟩
    rcases (sound.tasks task inside).2.1 with open_ | closed
    · exact open_
    · exact absurd closed unfinished
  · exact absurd key (nobody row present)
  · rw [fits other there same] at overflow
    cases overflow

theorem Sound.finish {waiting : List (Int × Int)} (sound : Sound cfg s) (member : task ∈ s.db.task)
    (hit : completed pkey taskID workerID task = true) (open_ : task.state = running)
    (arrived : ∀ request ∈ waiting, request.1 ∈ s.serving) (inFlight : List TaskAssignRow) :
    Sound cfg ⟨s.db.finish pkey workerID taskID,s.started,s.serving,inFlight,waiting⟩ := by
  refine sound.transact finish_who sound.keyed.finish (sound.balanced.finish sound.keyed member hit (.inr open_))
    (fun other present => ?_) arrived inFlight
  rcases (mem_finish_task sound.keyed member hit other).mp present with rfl | ⟨old,_⟩
  · obtain ⟨here,_,owner⟩ := sound.tasks task member
    exact ⟨here,.inr rfl,owner⟩
  · exact sound.tasks other old

-- The condition on a step: only a report can break the books.
def Careful (cfg : Setting) (s : State) : Action → Prop
  | .handleRequest j _ _ => ∀ request, s.requests[j]? = some request →
      Creditable (cfg.pkey request.1) request.1 request.2 s.db
  | _ => True

instance : Decidable (Creditable pkey workerID taskID db) := inferInstanceAs (Decidable (_ ∨ _ ∨ _))

instance (cfg : Setting) (s : State) : (action : Action) → Decidable (Careful cfg s action)
  | .handleRequest j _ _ => decidable_of_iff
      ((s.requests[j]?).all fun request => decide (Creditable (cfg.pkey request.1) request.1 request.2 s.db))
      (by simp [Careful,Option.all_eq_true])
  | .startServing _ _ | .push _ _ _ | .processRow _ _ _ | .lose _ => .isTrue trivial

theorem mem_remaining {requests : List (Int × Int)} {again : Bool}
    (member : request ∈ if again then requests else requests.eraseIdx j) : request ∈ requests := by
  split at member
  · exact member
  · exact List.mem_of_mem_eraseIdx member

theorem Sound.step (sound : Sound cfg s) (careful : Careful cfg s action) (turn : Turn cfg s action next) :
    Sound cfg next := by
  cases turn with
  | unregistered =>
    refine ⟨fun row member => ?_,sound.keyed,sound.tasks,sound.balanced,sound.serving,sound.requests⟩
    obtain ⟨known,rest⟩ := sound.workers row member
    exact ⟨List.mem_cons_of_mem _ known,rest⟩
  | registered new => exact sound.register new
  | refused => exact sound
  | pushed free fresh => exact sound.push free fresh _ _
  | processed _ serving =>
    refine ⟨sound.workers,sound.keyed,sound.tasks,sound.balanced,sound.serving,fun request member => ?_⟩
    rcases List.mem_append.mp member with old | new
    · exact sound.requests request old
    · cases List.mem_singleton.mp new
      exact serving
  | lost => exact ⟨sound.workers,sound.keyed,sound.tasks,sound.balanced,sound.serving,sound.requests⟩
  | unreported =>
    exact sound.transact rfl sound.keyed sound.balanced sound.tasks
      (fun other member => sound.requests other (mem_remaining member)) _
  | reported found _ fits =>
    obtain ⟨task,member,hit,open_⟩ := sound.finishes (List.mem_of_getElem? found) fits (careful _ found)
    exact sound.finish member hit open_ (fun other member => sound.requests other (mem_remaining member)) _

end DbosScheduler.Push
