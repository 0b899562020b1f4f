import DbosScheduler.Push.System

namespace DbosScheduler.Push
open Machine Sql Table

variable {cfg : Setting} {db after : Database} {s next last : State}

-- A row of the stream and an arrived request are two stages of one token: the
-- right to report one running task of one worker. With deliveries at most once,
-- no task ever has two tokens.
def stamp (row : TaskAssignRow) : Int × Int := (row.pkey,row.taskID)
def Setting.aim (cfg : Setting) (request : Int × Int) : Int × Int := (cfg.pkey request.1,request.2)

structure Tokens (cfg : Setting) (s : State) : Prop where
  distinct : (s.inFlight.map stamp ++ s.requests.map cfg.aim).Nodup
  flying : ∀ row ∈ s.inFlight, ∃ workerID, row.url = url workerID ∧ ⟨row.taskID,workerID,running,row.pkey⟩ ∈ s.db.task
  arrived : ∀ request ∈ s.requests, ⟨request.2,request.1,running,cfg.pkey request.1⟩ ∈ s.db.task

theorem start_tokens (cfg : Setting) (db : Database) : Tokens cfg (State.start db) := by
  constructor <;> simp [State.start]

theorem Tokens.creditable (tokens : Tokens cfg s) (member : request ∈ s.requests) :
    Creditable (cfg.pkey request.1) request.1 request.2 s.db :=
  .inl ⟨_,tokens.arrived request member,by simp,show running ≠ complete by decide⟩

theorem Tokens.careful (tokens : Tokens cfg s) (action : Action) : Careful cfg s action := by
  cases action with
  | handleRequest j choice again => exact fun request found => tokens.creditable (List.mem_of_getElem? found)
  | startServing | push | processRow | lose => exact trivial

-- Every token belongs to a row of the table, so a fresh key has none.
theorem Tokens.keys (tokens : Tokens cfg s) (member : key ∈ s.inFlight.map stamp ++ s.requests.map cfg.aim) :
    ∃ task ∈ s.db.task, task.key = key := by
  rcases List.mem_append.mp member with flying | arrived
  · obtain ⟨row,inside,rfl⟩ := List.mem_map.mp flying
    obtain ⟨workerID,_,present⟩ := tokens.flying row inside
    exact ⟨_,present,rfl⟩
  · obtain ⟨request,inside,rfl⟩ := List.mem_map.mp arrived
    exact ⟨_,tokens.arrived request inside,rfl⟩

theorem Tokens.push {row : WorkerRow} (tokens : Tokens cfg s) (fresh : Fresh s.db row.pkey taskID)
    (address : row.url = url row.workerID) : Tokens cfg {s with
      db:={s.db.assign taskID running row with taskAssign:=s.db.taskAssign ++ [⟨taskID,row.url,row.pkey⟩]}
      inFlight:=s.inFlight ++ [⟨taskID,row.url,row.pkey⟩]} := by
  refine ⟨?_,?_,?_⟩
  · have moved : ((s.inFlight ++ [(⟨taskID,row.url,row.pkey⟩ : TaskAssignRow)]).map stamp ++ s.requests.map cfg.aim).Perm
        ((row.pkey,taskID) :: (s.inFlight.map stamp ++ s.requests.map cfg.aim)) := by
      simp only [List.map_append,List.map_cons,List.map_nil,List.append_assoc,List.singleton_append]
      exact List.perm_middle
    refine moved.nodup_iff.mpr (List.nodup_cons.mpr ⟨fun known => ?_,tokens.distinct⟩)
    obtain ⟨task,present,key⟩ := tokens.keys known
    exact fresh task present key
  · intro message member
    rcases List.mem_append.mp member with old | new
    · obtain ⟨workerID,there,present⟩ := tokens.flying message old
      exact ⟨workerID,there,List.mem_append_left _ present⟩
    · cases List.mem_singleton.mp new
      exact ⟨row.workerID,address,List.mem_append_right _ (List.mem_singleton.mpr rfl)⟩
  · intro request member
    exact List.mem_append_left _ (tokens.arrived request member)

theorem Tokens.process {row : TaskAssignRow} (tokens : Tokens cfg s) (sound : Sound cfg s) (found : s.inFlight[i]? = some row)
    (address : row.url = url workerID) :
    Tokens cfg {s with inFlight:=s.inFlight.eraseIdx i,requests:=s.requests ++ [(workerID,row.taskID)]} := by
  obtain ⟨inside,value⟩ := List.getElem?_eq_some_iff.mp found
  obtain ⟨owner,there,present⟩ := tokens.flying row (List.mem_of_getElem? found)
  have same : owner = workerID := url_injective (there.symm.trans address)
  subst same
  have place : row.pkey = cfg.pkey owner := (sound.tasks _ present).1
  have order := List.getElem_cons_eraseIdx_perm inside
  rw [value] at order
  refine ⟨?_,?_,?_⟩
  · have moved : ((s.inFlight.eraseIdx i).map stamp ++ (s.requests ++ [(owner,row.taskID)]).map cfg.aim).Perm
        (s.inFlight.map stamp ++ s.requests.map cfg.aim) := by
      rw [List.map_append,← List.append_assoc]
      refine (List.perm_append_singleton _ _).trans ?_
      have front := (order.map stamp).append_right (s.requests.map cfg.aim)
      simpa [stamp,Setting.aim,place] using front
    exact moved.nodup_iff.mpr tokens.distinct
  · intro message member
    exact tokens.flying message (List.mem_of_mem_eraseIdx member)
  · intro request member
    rcases List.mem_append.mp member with old | new
    · exact tokens.arrived request old
    · cases List.mem_singleton.mp new
      rw [← place]
      exact present

-- The handled request takes its token away; the rows of all others stay running.
theorem Tokens.handle {request : Int × Int} (tokens : Tokens cfg s) (sound : Sound cfg s) (found : s.requests[j]? = some request) :
    Tokens cfg {s with
      db:=s.db.finish (cfg.pkey request.1) request.1 request.2
      requests:=s.requests.eraseIdx j} := by
  obtain ⟨inside,value⟩ := List.getElem?_eq_some_iff.mp found
  have order := List.getElem_cons_eraseIdx_perm inside
  rw [value] at order
  have whole : (s.inFlight.map stamp ++ s.requests.map cfg.aim).Perm
      (cfg.aim request :: (s.inFlight.map stamp ++ (s.requests.eraseIdx j).map cfg.aim)) := by
    refine ((order.map cfg.aim).symm.append_left _).trans ?_
    simp
  obtain ⟨others,distinct⟩ := List.nodup_cons.mp (whole.nodup_iff.mp tokens.distinct)
  have present := tokens.arrived request (List.mem_of_getElem? found)
  have kept : ∀ task ∈ s.db.task, task.key ≠ cfg.aim request →
      task ∈ (s.db.finish (cfg.pkey request.1) request.1 request.2).task := fun task member apart =>
    (mem_finish_task sound.keyed present (completed_iff.mpr ⟨rfl,rfl,rfl⟩) task).mpr (.inr ⟨member,apart⟩)
  refine ⟨distinct,?_,?_⟩
  · intro message member
    obtain ⟨workerID,address,inTable⟩ := tokens.flying message member
    refine ⟨workerID,address,kept _ inTable fun same => others ?_⟩
    exact List.mem_append_left _ (List.mem_map.mpr ⟨message,member,same⟩)
  · intro other member
    refine kept _ (tokens.arrived other (List.mem_of_mem_eraseIdx member)) fun same => others ?_
    exact List.mem_append_right _ (List.mem_map.mpr ⟨other,member,same⟩)

theorem never_again (atMostOnce : cfg.atLeastOnce = false) (allowed : again = true → cfg.atLeastOnce = true) :
    again = false := by
  cases again with
  | false => rfl
  | true => exact absurd (allowed rfl) (by simp [atMostOnce])

theorem Tokens.step (tokens : Tokens cfg s) (sound : Sound cfg s) (atMostOnce : cfg.atLeastOnce = false)
    (turn : Turn cfg s action next) : Tokens cfg next := by
  cases turn with
  | unregistered | registered => exact ⟨tokens.distinct,tokens.flying,tokens.arrived⟩
  | refused => exact tokens
  | pushed free fresh => exact tokens.push fresh (sound.workers _ free.1).2.2
  | processed found _ address allowed =>
    cases never_again atMostOnce allowed
    exact tokens.process sound found address
  | lost =>
    refine ⟨?_,fun row member => tokens.flying row (List.mem_of_mem_eraseIdx member),tokens.arrived⟩
    exact tokens.distinct.sublist (((List.eraseIdx_sublist _ _).map stamp).append_right _)
  | unreported allowed =>
    cases never_again atMostOnce allowed
    refine ⟨?_,tokens.flying,fun request member => tokens.arrived request (List.mem_of_mem_eraseIdx member)⟩
    exact tokens.distinct.sublist (((List.eraseIdx_sublist _ _).map cfg.aim).append_left _)
  | reported found allowed =>
    cases never_again atMostOnce allowed
    exact tokens.handle sound found

theorem sound_of_run (atMostOnce : cfg.atLeastOnce = false) (path : Runs (advance cfg) (State.start db) moves last) :
    Sound cfg last ∧ Tokens cfg last := by
  refine path.invariant (fun s => Sound cfg s ∧ Tokens cfg s) ⟨start_sound cfg db,start_tokens cfg db⟩ ?_
  intro s action next seen given stepped
  obtain ⟨sound,tokens⟩ := given
  have turn := advance_turn stepped
  exact ⟨sound.step (tokens.careful action) turn,tokens.step sound atMostOnce turn⟩

-- The emitted row names, by its Url, the one worker that the same transaction
-- charged and wrote into the task row.
def Emits (before after : Database) : Prop :=
  after.taskAssign = before.taskAssign ∨ ∃ row left right taskID,
    before.worker = left ++ row :: right ∧ 0 < row.capacity ∧
    after.worker = left ++ {row with capacity:=row.capacity - 1} :: right ∧
    after.task = before.task ++ [⟨taskID,row.workerID,running,row.pkey⟩] ∧
    after.taskAssign = before.taskAssign ++ [⟨taskID,url row.workerID,row.pkey⟩] ∧
    ∀ workerID, url workerID = url row.workerID → workerID = row.workerID

-- A row becomes complete in the handler of the worker it names, and nowhere else.
def Completes (cfg : Setting) (move : Move State Action (Request × Response)) : Prop :=
  ∀ task ∈ move.after.db.task, task.state = complete → task ∈ move.before.db.task ∨
    ∃ j choice again, move.action = .handleRequest j choice again ∧
      move.before.requests[j]? = some (task.workerID,task.taskID) ∧ task.pkey = cfg.pkey task.workerID ∧
      {task with state:=running} ∈ move.before.db.task

theorem Sound.emits (sound : Sound cfg s) (turn : Turn cfg s action next) : Emits s.db next.db := by
  cases turn with
  | @pushed _ taskID _ row free _ =>
    obtain ⟨left,right,cut,_,changed⟩ := setCapacity_unique sound.keyed.worker free.1
    refine .inr ⟨row,left,right,taskID,cut,free.2.2,changed _,rfl,?_,fun _ => url_injective⟩
    simp only [(sound.workers row free.1).2.2]
  | unregistered | registered | refused | processed | lost | unreported | reported => exact .inl rfl

theorem Tokens.completes (tokens : Tokens cfg s) (sound : Sound cfg s) (turn : Turn cfg s action next)
    (seen : List (Request × Response)) : Completes cfg ⟨s,action,next,seen⟩ := by
  intro task member closed
  cases turn with
  | pushed =>
    rcases List.mem_append.mp member with old | new
    · exact .inl old
    · cases List.mem_singleton.mp new
      exact absurd closed (show running ≠ complete by decide)
  | @reported j again choice request found =>
    have present := tokens.arrived request (List.mem_of_getElem? found)
    rcases (mem_finish_task sound.keyed present (completed_iff.mpr ⟨rfl,rfl,rfl⟩) task).mp member with rfl | old
    · exact .inr ⟨j,choice,again,rfl,found,rfl,present⟩
    · exact .inl old.1
  | unregistered | registered | refused | processed | lost | unreported => exact .inl member

def runningOf (cfg : Setting) (workerID : Int) (task : TaskRow) : Bool :=
  task.workerID == workerID && task.pkey == cfg.pkey workerID && task.state == running

theorem Sound.unfinished (sound : Sound cfg s) (workerID : Int) :
    unfinished s.db (cfg.pkey workerID) workerID = s.db.task.countP (runningOf cfg workerID) := by
  refine List.countP_congr fun task member => ?_
  rcases (sound.tasks task member).2.1 with open_ | closed
  · simp [runningOf,open_,and_comm]
  · simp [runningOf,closed,pending,running,complete]

theorem push_safe (atMostOnce : cfg.atLeastOnce = false) (path : Runs (advance cfg) (State.start db) moves last) :
    (∀ row ∈ last.db.worker, last.db.worker.filter (fun other => other.workerID == row.workerID) = [row] ∧
      row.pkey = cfg.pkey row.workerID ∧
      row.capacity + last.db.task.countP (runningOf cfg row.workerID) = cfg.capacity) ∧
    ∀ move ∈ moves, Emits move.before.db move.after.db ∧ Completes cfg move := by
  obtain ⟨sound,_⟩ := sound_of_run atMostOnce path
  refine ⟨fun row member => ?_,fun move member => ?_⟩
  · have here := (sound.workers row member).2.1
    refine ⟨filter_unique sound.keyed.worker member fun other present => ?_,here,?_⟩
    · simp [WorkerRow.key,here,(sound.workers other present).2.1]
      intro same
      rw [same]
    · have account := sound.balanced row member
      rw [here,sound.unfinished] at account
      exact account
  · obtain ⟨⟨_,_,before⟩,stepped⟩ := path.stepped member
    obtain ⟨there,tokens⟩ := sound_of_run atMostOnce before
    have turn := advance_turn stepped
    exact ⟨there.emits turn,tokens.completes there turn _⟩

-- Two workers in one partition; a task goes to the second and comes back.
def twoWorkers : Setting := ⟨2,fun _ => 0,false⟩

theorem push_safe_sample : ∃ moves last, Runs (advance twoWorkers) (State.start Database.empty) moves last ∧
    last.db.task = [⟨7,1,complete,0⟩,⟨8,1,running,0⟩] ∧
    ∀ row ∈ last.db.worker, row.capacity + last.db.task.countP (runningOf twoWorkers row.workerID) = 2 := by
  obtain ⟨moves,last,path,checked⟩ := run_reaches (advance twoWorkers) (State.start Database.empty)
    (fun _ last => decide (last.db.task = [⟨7,1,complete,0⟩,⟨8,1,running,0⟩]))
    [.startServing 0 {},.startServing 1 {},.push 0 7 {worker:=1},.push 0 8 {worker:=1},.processRow 0 1 false,
      .handleRequest 0 {} false] (by decide)
  refine ⟨moves,last,path,of_decide_eq_true checked,fun row member => ?_⟩
  exact ((push_safe rfl path).1 row member).2.2

end DbosScheduler.Push
