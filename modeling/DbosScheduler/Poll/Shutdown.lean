import DbosScheduler.Poll.HandOut
import DbosScheduler.Worker.Shutdown

namespace DbosScheduler.Poll
open Machine Client Sql Scheduler Worker Table

-- Seen from one worker, a step of the system is a move of its own or nothing.
theorem advance_moves (stepped : advance cfg s action = some (next,seen)) (w : Nat) :
    Moves (s.workers w) (next.workers w) (seenBy w seen) ∨ (next.workers w = s.workers w ∧ seenBy w seen = []) := by
  have local_ : ∀ {v worker db} {events : List Worker.Event}, Moves (s.workers v) worker events →
      Moves (s.workers w) ((s.setWorker db v worker).workers w) (seenBy w (events.map (.worker v))) ∨
        ((s.setWorker db v worker).workers w = s.workers w ∧ seenBy w (events.map (.worker v)) = []) := by
    intro v worker db events moved
    by_cases mine : w = v
    · subst mine
      refine .inl ?_
      simpa [State.setWorker] using moved
    · exact .inr ⟨by simp [State.setWorker,mine],seenBy_other mine events⟩
  cases action with
  | start process algorithm async rand =>
    cases stepped
    exact .inr ⟨rfl,rfl⟩
  | client i choice =>
    simp only [advance] at stepped
    obtain ⟨⟨db,clients,request,response⟩,_,ended⟩ := Option.bind_eq_some_iff.mp stepped
    cases ended
    exact .inr ⟨rfl,rfl⟩
  | dispatch v choice =>
    simp only [advance] at stepped
    split at stepped
    · obtain ⟨⟨db,worker,events⟩,moved,ended⟩ := Option.bind_eq_some_iff.mp stepped
      cases ended
      exact local_ (dispatch_moves moved)
    · cases stepped
  | execute v execId choice =>
    simp only [advance] at stepped
    split at stepped
    · obtain ⟨⟨db,worker,events⟩,moved,ended⟩ := Option.bind_eq_some_iff.mp stepped
      cases ended
      exact local_ (execute_moves moved)
    · cases stepped
  | endServing v =>
    simp only [advance] at stepped
    split at stepped
    · obtain ⟨worker,moved,ended⟩ := Option.bind_eq_some_iff.mp stepped
      cases ended
      exact local_ (.ending moved)
    · cases stepped

theorem orderly_of_system (path : Runs (advance cfg) (State.start cfg db taskindex) moves last) (w : Nat) :
    Orderly (seenBy w (observed moves)) (last.workers w) := by
  refine path.past (fun past s => Orderly (seenBy w past) (s.workers w)) (start_orderly _) ?_
  intro past s action next seen orderly stepped
  rw [seenBy_append]
  rcases advance_moves stepped w with moved | ⟨same,silent⟩
  · exact orderly.step moved
  · rw [same,silent,List.append_nil]
    exact orderly

-- Against any database at all every returned id is reported as often as it was
-- returned; in the system of the schedulers it is returned only once.
theorem shutdown_loses_nothing :
    (∀ me db moves last, Runs (station me) (db,PollWorker.start me) moves last → last.2.closer = .ended →
      Clean (observed moves) last.2) ∧
    ∀ cfg db taskindex moves last w, Runs (advance cfg) (State.start cfg db taskindex) moves last →
      (last.workers w).closer = .ended →
      Clean (seenBy w (observed moves)) (last.workers w) ∧
        ∀ taskId ∈ returnedIn (seenBy w (observed moves)), (reportedIn (seenBy w (observed moves))).count taskId = 1 ∧
          ⟨taskId,w,complete,(w % cfg.scheduler.partitions : Nat)⟩ ∈ last.db.task := by
  constructor
  · intro me db moves last path ended
    exact (orderly_of_run path).clean ended
  · intro cfg db taskindex moves last w path ended
    have clean := (orderly_of_system path w).clean ended
    have handed := (sound_of_run path).handed w
    refine ⟨clean,fun taskId returned => ⟨?_,?_⟩⟩
    · rw [clean.reported.count_eq]
      exact List.count_eq_one_of_mem handed.distinct returned
    · exact (handed.finished taskId).mp (clean.reported.symm.subset returned)

-- One task, pushed before the dispatcher sees the flag and popped while endServing
-- waits for the queue.
def closingSchedule : List Action :=
  [.start 0 .singlePartitioned false 0,.client 0 {},.dispatch 0 {},.endServing 0,.dispatch 0 {},.dispatch 0 {},
    .dispatch 0 {},.endServing 0,.execute 0 0 {},.endServing 0,.endServing 0,.execute 0 0 {},.execute 0 0 {},
    .execute 0 0 {},.endServing 0]

theorem shutdown_loses_nothing_sample : ∃ moves last,
    Runs (advance sample) (State.start sample Database.empty fun _ _ => 0) moves last ∧
      (last.workers 0).closer = .ended ∧ returnedIn (seenBy 0 (observed moves)) = [0] ∧
      Clean (seenBy 0 (observed moves)) (last.workers 0) ∧ (reportedIn (seenBy 0 (observed moves))).count 0 = 1 := by
  obtain ⟨moves,last,path,checked⟩ := run_reaches (advance sample) (State.start sample Database.empty fun _ _ => 0)
    (fun moves last => decide ((last.workers 0).closer = .ended ∧ returnedIn (seenBy 0 (observed moves)) = [0]))
    closingSchedule (by decide +kernel)
  obtain ⟨ended,returned⟩ := of_decide_eq_true checked
  have both := shutdown_loses_nothing.2 sample Database.empty (fun _ _ => 0) moves last 0 path ended
  exact ⟨moves,last,path,ended,returned,both.1,(both.2 0 (by simp [returned])).1⟩

end DbosScheduler.Poll
