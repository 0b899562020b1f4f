import DbosScheduler.Push.System

namespace DbosScheduler.Push
open Machine Sql Table

variable {cfg : Setting} {db after : Database} {s next last : State}

-- "If change to complete, then add back one capacity": the Worker table changes
-- only together with a task row that was not complete before.
def CreditsOnlyCompletions (pkey workerID taskID : Int) (db : Database) : Prop :=
  ∀ result after, WorkerUpdateTask.run pkey workerID taskID complete db = some (result,after) →
    (∃ row ∈ db.task, completed pkey taskID workerID row = true ∧ row.state ≠ complete ∧
      {row with state:=complete} ∈ after.task) ∨ after.worker = db.worker

-- The two statements of the procedure share no condition: the second one credits
-- every row of the worker whether or not the first one found a task.
theorem credits_iff : CreditsOnlyCompletions pkey workerID taskID db ↔ Creditable pkey workerID taskID db := by
  constructor
  · intro only
    by_cases fits : ∀ row ∈ db.worker, row.key = (pkey,workerID) → integer (row.capacity + 1) = true
    · obtain ⟨⟨result,after⟩,ran⟩ := Option.isSome_iff_exists.mp (WorkerUpdateTask.commits.mpr fits)
      obtain ⟨_,rfl⟩ := finish_of_run ran
      rcases only _ _ ran with ⟨row,member,hit,open_,_⟩ | same
      · exact .inl ⟨row,member,hit,open_⟩
      · refine .inr (.inl fun row member key => ?_)
        obtain ⟨here,named⟩ := Prod.mk.inj key
        have position : ∀ old ∈ db.worker,
            (if ofWorker pkey workerID old then {old with capacity:=old.capacity+1} else old) = old := by
          have fixed : db.worker.map (fun old =>
              if ofWorker pkey workerID old then {old with capacity:=old.capacity+1} else old) = db.worker.map id := by
            simpa [Database.finish,update] using same
          exact List.map_inj_left.mp fixed
        have raised := congrArg WorkerRow.capacity (position row member)
        simp only [ofWorker_iff.mpr ⟨here,named⟩,if_true] at raised
        omega
    · simp only [not_forall] at fits
      obtain ⟨row,member,key,overflow⟩ := fits
      exact .inr (.inr ⟨row,member,key,by simpa using overflow⟩)
  · intro credit result after ran
    obtain ⟨_,rfl⟩ := finish_of_run ran
    rcases credit with ⟨row,member,hit,open_⟩ | nobody | ⟨row,member,key,overflow⟩
    · refine .inl ⟨row,member,hit,open_,?_⟩
      exact mem_update.mpr ⟨row,member,by simp [hit]⟩
    · refine .inr (update_nothing _ fun row member => ?_)
      exact Bool.eq_false_iff.mpr fun mine => nobody row member (by simp [WorkerRow.key,ofWorker_iff.mp mine])
    · have fits := WorkerUpdateTask.commits.mp (by rw [ran]; rfl) row member key
      rw [fits] at overflow
      cases overflow

theorem sound_of_careful_run (path : Runs (advance cfg) (State.start db) moves last)
    (careful : ∀ move ∈ moves, Careful cfg move.before move.action) : Sound cfg last :=
  path.guarded (Sound cfg) (Careful cfg) careful (start_sound cfg db) fun _ _ _ _ sound guard stepped =>
    sound.step guard (advance_turn stepped)

theorem Sound.capacity_le (sound : Sound cfg s) (member : row ∈ s.db.worker) : row.capacity ≤ cfg.capacity := by
  have account : row.capacity + (unfinished s.db row.pkey row.workerID : Int) = cfg.capacity := sound.balanced row member
  omega

theorem completions_credited_once (cfg : Setting) :
    (∀ pkey workerID taskID db, CreditsOnlyCompletions pkey workerID taskID db ↔ Creditable pkey workerID taskID db) ∧
    ∀ db moves last, Runs (advance cfg) (State.start db) moves last →
      (∀ move ∈ moves, Careful cfg move.before move.action) → ∀ row ∈ last.db.worker, row.capacity ≤ cfg.capacity :=
  ⟨fun _ _ _ _ => credits_iff,fun _ _ _ path careful _ => (sound_of_careful_run path careful).capacity_le⟩

-- One worker of capacity 1; the exporter sends the row of the only task twice.
def resending : Setting := ⟨1,fun _ => 0,true⟩

-- The exporter could, but does not: each task is reported once.
theorem completions_credited_once_delivered : ∃ moves last,
    Runs (advance resending) (State.start Database.empty) moves last ∧
      last.db.task = [⟨7,0,complete,0⟩,⟨8,0,complete,0⟩] ∧ ∀ row ∈ last.db.worker, row.capacity ≤ 1 := by
  obtain ⟨moves,last,path,checked⟩ := run_reaches (advance resending) (State.start Database.empty)
    (fun moves last => decide (last.db.task = [⟨7,0,complete,0⟩,⟨8,0,complete,0⟩] ∧
      ∀ move ∈ moves, Careful resending move.before move.action))
    [.startServing 0 {},.push 0 7 {},.processRow 0 0 false,.handleRequest 0 {} false,.push 0 8 {},.processRow 0 0 false,
      .handleRequest 0 {} false] (by decide)
  obtain ⟨tasks,careful⟩ := of_decide_eq_true checked
  exact ⟨moves,last,path,tasks,(completions_credited_once resending).2 _ _ _ path careful⟩

theorem delivered_twice :
    (∃ moves last, Runs (advance resending) (State.start Database.empty) moves last ∧
      last.db.task = [⟨7,0,complete,0⟩] ∧ ∃ row ∈ last.db.worker, resending.capacity < row.capacity) ∧
    ¬CreditsOnlyCompletions 0 0 7 {Database.empty with worker:=[⟨0,1,0,0,""⟩],task:=[⟨7,0,complete,0⟩]} := by
  refine ⟨?_,fun only => ?_⟩
  · obtain ⟨moves,last,path,checked⟩ := run_reaches (advance resending) (State.start Database.empty)
      (fun _ last => decide (last.db.task = [⟨7,0,complete,0⟩] ∧ ∃ row ∈ last.db.worker, resending.capacity < row.capacity))
      [.startServing 0 {},.push 0 7 {},.processRow 0 0 true,.handleRequest 0 {} false,.processRow 0 0 false,
        .handleRequest 0 {} false] (by decide)
    exact ⟨moves,last,path,of_decide_eq_true checked⟩
  · rcases only _ _ rfl with ⟨row,member,_,open_,_⟩ | same
    · cases List.mem_singleton.mp member
      exact open_ rfl
    · exact absurd same (by decide)

end DbosScheduler.Push
