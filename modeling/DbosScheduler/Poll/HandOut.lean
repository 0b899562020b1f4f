import DbosScheduler.Poll.System

namespace DbosScheduler.Poll
open Machine Client Sql Scheduler Worker Table

-- What the two tables owe each other in this system.
structure Accounted (cfg : Config) (db : Database) : Prop where
  roster : Roster cfg db
  keyed : Keyed db
  balanced : Balanced (fun _ => cfg.workerCapacity) db
  nonNegative : 0 ≤ cfg.workerCapacity → NonNegative db

-- The history of one worker inside the history of the whole system.
def seenBy (w : Nat) (past : List Event) : List Worker.Event :=
  past.filterMap fun event => match event with
    | .worker v event => if v = w then some event else none
    | .called _ _ => none

structure Sound (cfg : Setting) (past : List Event) (s : State) : Prop where
  accounted : Accounted cfg.scheduler s.db
  clients : ∀ prog ∈ s.clients, prog.Only Places
  handed : ∀ w, Handed (cfg.identity w) (seenBy w past) s.db (s.workers w)

@[simp] theorem seenBy_append : seenBy w (past ++ more) = seenBy w past ++ seenBy w more := by simp [seenBy]

@[simp] theorem seenBy_own (seen : List Worker.Event) : seenBy w (seen.map (.worker w)) = seen := by
  simp [seenBy,List.filterMap_map,Function.comp]

theorem seenBy_other (other : v ≠ w) (seen : List Worker.Event) : seenBy v (seen.map (.worker w)) = [] := by
  simp [seenBy,List.filterMap_map,Function.comp,other.symm]

theorem Accounted.change (accounted : Accounted cfg db) (change : Change db who after) : Accounted cfg after where
  roster := change.keys.trans accounted.roster
  keyed := change.keyed accounted.keyed
  balanced := change.balanced accounted.keyed accounted.balanced
  nonNegative funded := change.nonNegative accounted.keyed (accounted.nonNegative funded)

theorem populated_accounted (cfg : Config) (db : Database) : Accounted cfg (populated cfg db) := by
  have rows : ∀ row ∈ (populated cfg db).worker, row.capacity = cfg.workerCapacity := by
    intro row member
    obtain ⟨i,_,rfl⟩ := List.mem_map.mp member
    rfl
  refine ⟨populated_roster cfg db,⟨(populated_roster cfg db).nodup,List.nodup_nil⟩,?_,?_⟩
  · intro row member
    simp [unfinished,populated,rows row member]
  · intro funded row member
    rw [rows row member]
    exact funded

theorem start_sound (cfg : Setting) (db : Database) (taskindex : Nat → Algorithm → BitVec 32) :
    Sound cfg [] (State.start cfg db taskindex) where
  accounted := populated_accounted cfg.scheduler db
  clients _ member := absurd member (by simp [State.start])
  handed w := started_at_birth (cfg.identity w) rfl

-- One worker moves: its own history grows, and the others do not notice.
theorem Sound.turn (sound : Sound cfg past s) (change : Change s.db (some (w : Nat)) db)
    (own : Handed (cfg.identity w) (seenBy w past ++ seen) db next) :
    Sound cfg (past ++ seen.map (.worker w)) (s.setWorker db w next) := by
  refine ⟨sound.accounted.change change,sound.clients,fun v => ?_⟩
  by_cases same : v = w
  · subst same
    simpa [State.setWorker] using own
  · have apart : some (w : Int) ≠ some (cfg.identity v).workerId := by
      intro equal
      exact same (Int.ofNat.inj (Option.some.inj equal)).symm
    have framed := (sound.handed v).frame fun taskId state started =>
      change.frame sound.accounted.keyed apart started (cfg.identity v).pkey taskId
    simpa [State.setWorker,same,seenBy_other same] using framed

theorem Sound.step (sound : Sound cfg past s) (stepped : advance cfg s action = some (next,seen)) :
    Sound cfg (past ++ seen) next ∧ ∃ who, Change s.db who next.db := by
  cases action with
  | start process algorithm async rand =>
    cases stepped
    refine ⟨⟨sound.accounted,?_,by simpa [State.fetchAdd] using sound.handed⟩,none,.none⟩
    intro prog member
    rcases List.mem_append.mp member with old | new
    · exact sound.clients prog old
    · cases List.mem_singleton.mp new
      exact program_places _ _
  | client i choice =>
    simp only [advance] at stepped
    obtain ⟨⟨db,clients,request,response⟩,served,ended⟩ := Option.bind_eq_some_iff.mp stepped
    cases ended
    obtain ⟨asks,others⟩ := serve_only sound.clients served
    obtain ⟨_,_,ran,_⟩ := serve_parts served
    have change := places_change asks ran
    refine ⟨⟨sound.accounted.change change,others,fun w => ?_⟩,none,change⟩
    have framed := (sound.handed w).frame fun taskId state started =>
      change.frame sound.accounted.keyed (by simp) started (cfg.identity w).pkey taskId
    simpa [seenBy] using framed
  | dispatch w choice =>
    simp only [advance] at stepped
    split at stepped
    · obtain ⟨⟨db,worker,events⟩,moved,ended⟩ := Option.bind_eq_some_iff.mp stepped
      cases ended
      obtain ⟨own,change⟩ := (sound.handed w).dispatch sound.accounted.keyed moved
      exact ⟨sound.turn change own,_,change⟩
    · cases stepped
  | execute w execId choice =>
    simp only [advance] at stepped
    split at stepped
    · obtain ⟨⟨db,worker,events⟩,moved,ended⟩ := Option.bind_eq_some_iff.mp stepped
      cases ended
      obtain ⟨own,change⟩ := (sound.handed w).execute sound.accounted.keyed moved
      exact ⟨sound.turn change own,_,change⟩
    · cases stepped
  | endServing w =>
    simp only [advance] at stepped
    split at stepped
    · obtain ⟨worker,moved,ended⟩ := Option.bind_eq_some_iff.mp stepped
      cases ended
      have own := (sound.handed w).endServing moved
      have turned : Sound cfg (past ++ ([] : List Worker.Event).map (.worker w)) (s.setWorker s.db w worker) :=
        sound.turn .none (by simpa using own)
      exact ⟨turned,none,.none⟩
    · cases stepped

theorem sound_of_run (path : Runs (advance cfg) (State.start cfg db taskindex) moves last) : Sound cfg (observed moves) last :=
  path.past (Sound cfg) (start_sound cfg db taskindex) fun _ _ _ _ _ sound stepped => (sound.step stepped).1

theorem capacity_conserved (funded : 0 ≤ cfg.scheduler.workerCapacity)
    (path : Runs (advance cfg) (State.start cfg db taskindex) moves last) (registered : w < cfg.scheduler.numWorkers) :
    ∃ row, last.db.worker.filter (fun row => row.workerID == (w : Int)) = [row] ∧
      row.pkey = (w % cfg.scheduler.partitions : Nat) ∧
      row.capacity + unfinished last.db (w % cfg.scheduler.partitions : Nat) w = cfg.scheduler.workerCapacity ∧
      0 ≤ row.capacity ∧ row.capacity ≤ cfg.scheduler.workerCapacity ∧
      (unfinished last.db (w % cfg.scheduler.partitions : Nat) w : Int) ≤ cfg.scheduler.workerCapacity := by
  have accounted := (sound_of_run path).accounted
  obtain ⟨row,only,member,key⟩ := accounted.roster.row registered
  obtain ⟨here,named⟩ := Prod.mk.inj key
  have account := accounted.balanced row member
  have bounds := accounted.balanced.bounds (accounted.nonNegative funded) member
  rw [here,named] at account bounds
  exact ⟨row,only,here,account,bounds⟩

-- One worker with one executor, and one task from its submission to its report.
def sample : Setting := ⟨⟨1,0,1,1⟩,fun _ => 1,fun _ => 1⟩

def sampleSchedule : List Action :=
  [.start 0 .singlePartitioned false 0,.client 0 {},.dispatch 0 {},.dispatch 0 {},.execute 0 0 {},.execute 0 0 {}]

theorem capacity_conserved_sample : ∃ moves last,
    Runs (advance sample) (State.start sample Database.empty fun _ _ => 0) moves last ∧
      last.db.task = [⟨0,0,complete,0⟩] ∧ ∃ row, last.db.worker.filter (fun row => row.workerID == ((0 : Nat) : Int)) = [row] ∧
        row.pkey = (0 % 1 : Nat) ∧ row.capacity + unfinished last.db (0 % 1 : Nat) (0 : Nat) = 1 ∧
        0 ≤ row.capacity ∧ row.capacity ≤ 1 ∧ (unfinished last.db (0 % 1 : Nat) (0 : Nat) : Int) ≤ 1 := by
  obtain ⟨moves,last,path,finished⟩ := run_reaches (advance sample)
    (State.start sample Database.empty fun _ _ => 0) (fun _ last => decide (last.db.task = [⟨0,0,complete,0⟩]))
    sampleSchedule (by decide)
  exact ⟨moves,last,path,of_decide_eq_true finished,capacity_conserved (by decide) path (by decide)⟩

section OneWorker
variable {me : Identity} {past : List Worker.Event} {w : PollWorker}

theorem handed_nodup (handed : Handed me past db w) :
    (pushedIn past).Nodup ∧ (poppedIn past).Nodup ∧ (reportedIn past).Nodup := by
  have whole := handed.distinct
  rw [handed.pushed] at whole
  have split := handed.reported.nodup_iff.mp handed.popped_nodup
  exact ⟨(List.nodup_append.mp whole).1,handed.popped_nodup,(List.nodup_append.mp split).1⟩

theorem handed_subset (handed : Handed me past db w) :
    pushedIn past ⊆ returnedIn past ∧ poppedIn past ⊆ pushedIn past ∧ reportedIn past ⊆ poppedIn past := by
  refine ⟨?_,?_,?_⟩
  · rw [handed.pushed]
    exact List.subset_append_left _ _
  · rw [handed.popped]
    exact List.subset_append_left _ _
  · intro taskId known
    exact handed.reported.symm.subset (List.mem_append_left _ known)

end OneWorker

-- What all workers together did, tagged with the worker that did it.
def gather (collect : Worker.Event → List Int) (past : List Event) : List (Nat × Int) :=
  past.flatMap fun event => match event with
    | .worker w event => (collect event).map fun taskId => (w,taskId)
    | .called _ _ => []

def Setting.key (cfg : Setting) (handed : Nat × Int) : Int × Int :=
  (((handed.1 % cfg.scheduler.partitions : Nat) : Int),handed.2)

theorem gather_of (collect : Worker.Event → List Int) (past : List Event) (w : Nat) :
    ((gather collect past).filter fun handed => handed.1 == w).map Prod.snd = (seenBy w past).flatMap collect := by
  induction past with
  | nil => rfl
  | cons event past ih =>
    have cut : gather collect (event :: past) = gather collect [event] ++ gather collect past := by simp [gather]
    have same : seenBy w (event :: past) = seenBy w [event] ++ seenBy w past := by rw [← seenBy_append]; rfl
    rw [cut,same,List.filter_append,List.map_append,List.flatMap_append,ih]
    congr 1
    cases event with
    | called request response => rfl
    | worker v event =>
      by_cases here : v = w <;> simp [gather,seenBy,here,List.filter_map,Function.comp_def]

theorem mem_gather {collect : Worker.Event → List Int} :
    (w,taskId) ∈ gather collect past ↔ taskId ∈ (seenBy w past).flatMap collect := by
  rw [← gather_of]
  simp

theorem Sound.returned_row (sound : Sound cfg past s) (returned : (w,taskId) ∈ gather Event.returns past) :
    ∃ row ∈ s.db.task, row.key = cfg.key (w,taskId) ∧ row.workerID = w ∧ (row.state = running ∨ row.state = complete) := by
  rcases ((sound.handed w).started taskId).mp (mem_gather.mp returned) with here | closed
  · exact ⟨_,here,rfl,rfl,.inl rfl⟩
  · exact ⟨_,closed,rfl,rfl,.inr rfl⟩

-- A row names one worker, so no key is handed to two of them.
theorem Sound.keys_nodup (sound : Sound cfg past s) (collect : Worker.Event → List Int)
    (each : ∀ w, ((seenBy w past).flatMap collect).Nodup)
    (within : ∀ w, (seenBy w past).flatMap collect ⊆ returnedIn (seenBy w past)) :
    ((gather collect past).map cfg.key).Nodup := by
  have distinct : (gather collect past).Nodup := nodup_of_tags fun w => by rw [gather_of]; exact each w
  refine distinct.map_on ?_
  rintro ⟨v,left⟩ leftIn ⟨w,right⟩ rightIn same
  obtain ⟨first,firstIn,firstKey,firstWorker,_⟩ := sound.returned_row (mem_gather.mpr (within v (mem_gather.mp leftIn)))
  obtain ⟨second,secondIn,secondKey,secondWorker,_⟩ :=
    sound.returned_row (mem_gather.mpr (within w (mem_gather.mp rightIn)))
  have equal : first = second :=
    key_unique sound.accounted.keyed.task firstIn secondIn (by rw [firstKey,secondKey,same])
  have owner : (v : Int) = w := by rw [← firstWorker,← secondWorker,equal]
  exact Prod.ext (Int.ofNat.inj owner) (Prod.mk.inj same).2

theorem handed_out_exactly_once (path : Runs (advance cfg) (State.start cfg db taskindex) moves last) :
    (((gather Event.returns (observed moves)).map cfg.key).Nodup ∧
      ((gather Event.pushes (observed moves)).map cfg.key).Nodup ∧
      ((gather Event.pops (observed moves)).map cfg.key).Nodup ∧
      ((gather Event.reports (observed moves)).map cfg.key).Nodup) ∧
    (∀ w taskId, (w,taskId) ∈ gather Event.returns (observed moves) →
      ∃ row ∈ last.db.task, row.key = cfg.key (w,taskId) ∧ row.workerID = w ∧
        (row.state = running ∨ row.state = complete)) ∧
    (∀ move ∈ moves, Progress move.before.db move.after.db) ∧
    ∀ w, (returnedIn (seenBy w (observed moves)) =
        pushedIn (seenBy w (observed moves)) ++ (last.workers w).dispatcher.rows ∧
      pushedIn (seenBy w (observed moves)) = poppedIn (seenBy w (observed moves)) ++ (last.workers w).taskQueue ∧
      (poppedIn (seenBy w (observed moves))).Perm (reportedIn (seenBy w (observed moves)) ++ (last.workers w).held)) ∧
      ((last.workers w).dispatcher.rows ++ (last.workers w).taskQueue ++ (last.workers w).held).Nodup ∧
      ∀ taskId,
        (⟨taskId,w,running,(w % cfg.scheduler.partitions : Nat)⟩ ∈ last.db.task ↔
          taskId ∈ (last.workers w).dispatcher.rows ++ (last.workers w).taskQueue ++ (last.workers w).held) ∧
        (⟨taskId,w,complete,(w % cfg.scheduler.partitions : Nat)⟩ ∈ last.db.task ↔
          (w,taskId) ∈ gather Event.reports (observed moves)) := by
  have sound := sound_of_run path
  refine ⟨⟨?_,?_,?_,?_⟩,?_,?_,?_⟩
  · exact sound.keys_nodup _ (fun w => (sound.handed w).distinct) fun w => List.Subset.refl _
  · exact sound.keys_nodup _ (fun w => (handed_nodup (sound.handed w)).1) fun w => (handed_subset (sound.handed w)).1
  · refine sound.keys_nodup _ (fun w => (handed_nodup (sound.handed w)).2.1) fun w => ?_
    obtain ⟨pushed,popped,_⟩ := handed_subset (sound.handed w)
    exact List.Subset.trans popped pushed
  · refine sound.keys_nodup _ (fun w => (handed_nodup (sound.handed w)).2.2) fun w => ?_
    obtain ⟨pushed,popped,reported⟩ := handed_subset (sound.handed w)
    exact List.Subset.trans (List.Subset.trans reported popped) pushed
  · intro w taskId returned
    exact sound.returned_row returned
  · intro move member
    obtain ⟨⟨earlier,_,before⟩,stepped⟩ := path.stepped member
    have there := sound_of_run before
    obtain ⟨who,change⟩ := (there.step stepped).2
    exact change.progress there.accounted.keyed
  · intro w
    have handed := sound.handed w
    refine ⟨⟨handed.pushed,handed.popped,handed.reported⟩,handed.places_nodup,fun taskId => ⟨?_,?_⟩⟩
    · exact handed.running_iff sound.accounted.keyed taskId
    · rw [mem_gather]
      exact (handed.finished taskId).symm

theorem handed_out_exactly_once_sample : ∃ moves last,
    Runs (advance sample) (State.start sample Database.empty fun _ _ => 0) moves last ∧
      gather Event.reports (observed moves) = [(0,0)] ∧ ((gather Event.returns (observed moves)).map sample.key).Nodup ∧
      ∃ row ∈ last.db.task, row.key = sample.key (0,0) ∧ row.workerID = 0 ∧
        (row.state = running ∨ row.state = complete) := by
  obtain ⟨moves,last,path,finished⟩ := run_reaches (advance sample)
    (State.start sample Database.empty fun _ _ => 0)
    (fun moves _ => decide (gather Event.returns (observed moves) = [(0,0)] ∧
      gather Event.reports (observed moves) = [(0,0)])) sampleSchedule (by decide)
  obtain ⟨returned,reported⟩ := of_decide_eq_true finished
  have once := handed_out_exactly_once path
  exact ⟨moves,last,path,reported,once.1.1,once.2.1 0 0 (by simp [returned])⟩

end DbosScheduler.Poll
