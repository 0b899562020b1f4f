import Mathlib.Algebra.Group.Nat.Defs
import DbosScheduler.Poll.HandOut
import DbosScheduler.Scheduler.AllOrNothing

namespace DbosScheduler.Poll
open Machine Client Sql Scheduler Worker Table

-- Where the task ids come from. Each counter starts at zero in every process, so
-- the numbers are only unique while a single counter is in use.
abbrev Trace := List (Move State Action Event)

def drawn (move : Move State Action Event) : Option ((Nat × Algorithm) × Int) :=
  match move.action with
  | .start process algorithm _ _ => some ((process,algorithm),(move.before.taskindex process algorithm).toInt)
  | _ => none

-- Every number that was drawn, with the counter it came from.
def draws (moves : Trace) : List ((Nat × Algorithm) × Int) := moves.filterMap drawn

def calls (process : Nat) (moves : Trace) : Nat := (draws moves).countP fun draw => draw.1.1 == process

-- A scheduling call meets this if no other counter has been used before it.
def Sole (s : State) : Action → Prop
  | .start process algorithm _ _ => ∀ p a, (p,a) ≠ (process,algorithm) → s.taskindex p a = 0
  | _ => True

-- taskIDIndex cannot refuse the transaction: no row has its id, in any partition.
def Unrefused (move : Move State Action Event) : Prop :=
  ∀ request response, .called request response ∈ move.seen → ∀ pkey taskID, request.params = [.int pkey,.int taskID] →
    ∀ row ∈ move.before.db.task, row.taskID ≠ taskID

def Asks (taskID : Int) (request : Request) : Prop :=
  ∃ pkey, request = ⟨.selectSinglePartitionedTaskWorker,[.int pkey,.int taskID]⟩ ∨
    request = ⟨.selectOrderedWorker,[.int pkey,.int taskID]⟩

-- The answer says that the task has been placed.
def settles (procedure : Procedure) (reply : Reply) : Bool :=
  if procedure = .selectOrderedWorker then getInt64 reply != -1 else getInt64 reply == success

-- A call under one number: all its requests carry it, and it sends none after the
-- one that placed the task.
inductive Numbered (taskID : Int) : Program Bool → Prop where
  | done : Numbered taskID (.done result)
  | invoke : Asks taskID request →
      (∀ reply, settles request.procedure reply = true → ∃ result, next (some reply) = .done result) →
      (∀ response, Numbered taskID (next response)) → Numbered taskID (.invoke request next)

variable {cfg : Setting} {s next last : State} {moves : Trace} {db after : Database} {taskID : Int}

theorem asserted_done (holds : α → Bool) (result : Option α) : ∃ out, asserted holds result = .done out := by
  cases result with
  | none => exact ⟨none,rfl⟩
  | some value =>
    by_cases good : holds value = true
    · exact ⟨some true,by simp [asserted,good]⟩
    · exact ⟨none,by simp [asserted,good]⟩

theorem numbered_of_probing {prog : Program β} {rest : Option β → Program Bool} (probing : Probing asks accept failed prog)
    (places : ∀ request, asks request → Asks taskID request)
    (catches : ∀ request reply, asks request → settles request.procedure reply = true →
      ∃ result, accept (some reply) = some result)
    (ends : ∀ result, ∃ out, rest result = .done out) : Numbered taskID (prog.bind rest) := by
  have stop : ∀ result, Numbered taskID (rest result) := by
    intro result
    obtain ⟨out,same⟩ := ends result
    rw [same]
    exact .done
  induction probing with
  | done => exact stop _
  | @invoke request next allowed stops continues ih =>
    refine .invoke (places request allowed) (fun reply settled => ?_) (fun response => ?_)
    · obtain ⟨result,taken⟩ := catches request reply allowed settled
      obtain ⟨out,same⟩ := ends result
      exact ⟨out,by rw [stops _ result taken]; exact same⟩
    · cases verdict : accept response with
      | none => exact ih response verdict
      | some result =>
        rw [stops response result verdict]
        exact stop result

theorem numbered_async (asked : Asks taskID request) (holds : Reply → Bool) :
    Numbered taskID (.invoke request fun response => asserted holds response) := by
  refine .invoke asked (fun reply _ => asserted_done holds (some reply)) fun response => ?_
  obtain ⟨out,same⟩ := asserted_done holds response
  rw [same]
  exact .done

theorem numbered_randBelow {rest : Nat → Program Bool} (rand n : Nat) (each : ∀ start, Numbered taskID (rest start)) :
    Numbered taskID (randBelow rand n rest) := by
  unfold randBelow
  split
  · exact .done
  · exact each _

theorem program_numbered (algorithm : Algorithm) (async : Bool) (cfg : Config) (rand : Nat) (taskID : Int) :
    Numbered taskID (algorithm.program cfg rand taskID async) := by
  cases algorithm with
  | singlePartitioned =>
    cases async with
    | false =>
      refine numbered_of_probing (probing_randBelow rand _ (by simp) fun _ => probing_tries taskID _ _) ?_ ?_
        (asserted_done id)
      · intro request given
        obtain ⟨pkey,rfl⟩ := given
        exact ⟨pkey,.inl rfl⟩
      · intro request reply given settled
        obtain ⟨pkey,rfl⟩ := given
        have placed : getInt64 reply = success := by
          simpa [settles,SinglePartitionedFIFOTaskScheduler.request] using settled
        exact ⟨some true,by simp [acceptStatus,placed]⟩
    | true => exact numbered_randBelow rand _ fun pkey => numbered_async ⟨pkey,.inl rfl⟩ _
  | partitionedLocal =>
    cases async with
    | false =>
      refine numbered_of_probing (probing_randBelow rand _ (.inl rfl) fun _ => probing_scan _ _) ?_ ?_
        (asserted_done _)
      · intro request given
        obtain ⟨pkey,rfl⟩ := given
        exact ⟨pkey,.inr rfl⟩
      · intro request reply given settled
        obtain ⟨pkey,rfl⟩ := given
        have placed : getInt64 reply ≠ -1 := by
          simpa [settles,PartitionedLocalFIFOScheduler.request] using settled
        exact ⟨some (getInt64 reply),by simp [acceptWorker,placed]⟩
    | true => exact numbered_randBelow rand _ fun pkey => numbered_async ⟨pkey,.inr rfl⟩ _

-- With one counter in use the i-th call has number i. It has no row yet, or it has
-- ended; no row has a number beyond the calls.
structure Spread (s : State) : Prop where
  clients : ∀ (i : Nat) prog, s.clients[i]? = some prog → Numbered (i : Int) prog ∧
    ((∃ result, prog = .done result) ∨ ∀ row ∈ s.db.task, row.taskID ≠ i)
  rows : ∀ row ∈ s.db.task, ∃ i, i < s.clients.length ∧ row.taskID = (i : Int)
  distinct : (s.db.task.map TaskRow.taskID).Nodup

-- What the workers do to the Task table leaves the ids where they are.
theorem Change.ids (change : Change db (some who) after) :
    after.task.map TaskRow.taskID = db.task.map TaskRow.taskID := by
  cases change with
  | none => rfl
  | handedOut => exact map_update TaskRow.taskID (by intro row _; rfl) _
  | finished => exact map_update TaskRow.taskID (by intro row _; rfl) _

theorem Spread.relabel (spread : Spread s) (same : next.db.task.map TaskRow.taskID = s.db.task.map TaskRow.taskID)
    (clients : next.clients = s.clients) : Spread next := by
  have known : ∀ row ∈ next.db.task, ∃ old ∈ s.db.task, old.taskID = row.taskID := by
    intro row member
    have listed : row.taskID ∈ s.db.task.map TaskRow.taskID := same ▸ List.mem_map_of_mem member
    exact List.mem_map.mp listed
  refine ⟨fun i prog found => ?_,fun row member => ?_,same ▸ spread.distinct⟩
  · rw [clients] at found
    obtain ⟨numbered,free⟩ := spread.clients i prog found
    refine ⟨numbered,free.imp_right fun absent row member => ?_⟩
    obtain ⟨old,present,title⟩ := known row member
    rw [← title]
    exact absent old present
  · obtain ⟨old,present,title⟩ := known row member
    rw [clients,← title]
    exact spread.rows old present

theorem Spread.start (spread : Spread s) (process : Nat) (algorithm : Algorithm) (async : Bool) (rand : Nat)
    (number : (s.taskindex process algorithm).toInt = s.clients.length)
    (advanced : advance cfg s (.start process algorithm async rand) = some (next,seen)) : Spread next := by
  cases advanced
  refine ⟨fun i prog found => ?_,fun row member => ?_,spread.distinct⟩
  · rcases Nat.lt_or_ge i s.clients.length with old | new
    · rw [List.getElem?_append_left old] at found
      exact spread.clients i prog found
    · obtain ⟨inside,_⟩ := List.getElem?_eq_some_iff.mp found
      simp only [List.length_append,List.length_singleton] at inside
      have place : i = s.clients.length := by omega
      subst place
      simp only [List.getElem?_append_right (Nat.le_refl _),Nat.sub_self,List.getElem?_cons_zero,Option.some.injEq] at found
      rw [← found,number]
      refine ⟨program_numbered _ _ _ _ _,.inr fun row member same => ?_⟩
      obtain ⟨j,below,title⟩ := spread.rows row member
      rw [title] at same
      exact absurd (Int.ofNat.inj same) (by omega)
  · obtain ⟨i,below,title⟩ := spread.rows row member
    exact ⟨i,by simp only [List.length_append]; omega,title⟩

-- One request of a call: it changed nothing, or it added the one row of the call.
theorem ask_cases (asks : Asks taskID request) (named : ∀ row ∈ db.worker, row.workerID ≠ -1)
    (ran : invoke db request choice = (after,response)) :
    after.task = db.task ∨ ∃ row reply, row.taskID = taskID ∧ after.task = db.task ++ [row] ∧ response = some reply ∧
      settles request.procedure reply = true := by
  obtain ⟨pkey,rfl | rfl⟩ := asks
  · rcases SelectSinglePartitionedTaskWorker.invoked ran with ⟨rfl,_⟩ | ⟨row,_,_,rfl,rfl⟩
    · exact .inl rfl
    · exact .inr ⟨_,_,rfl,rfl,rfl,rfl⟩
  · rcases SelectOrderedWorker.invoked ran with ⟨rfl,_⟩ | ⟨row,free,_,rfl,rfl⟩
    · exact .inl rfl
    · refine .inr ⟨_,_,rfl,rfl,rfl,?_⟩
      simpa [settles,getInt64] using named row free.1

theorem Spread.client (spread : Spread s) (named : ∀ row ∈ s.db.worker, row.workerID ≠ -1)
    (served : serve invoke s.db s.clients i choice = some (after,pool,request,response)) :
    Spread {s with db:=after,clients:=pool} ∧
      ∀ pkey taskID, request.params = [.int pkey,.int taskID] → ∀ row ∈ s.db.task, row.taskID ≠ taskID := by
  obtain ⟨rest,found,ran,rfl⟩ := serve_parts served
  obtain ⟨numbered,free⟩ := spread.clients i _ found
  have absent : ∀ row ∈ s.db.task, row.taskID ≠ (i : Int) := by
    rcases free with ⟨result,ended⟩ | absent
    · cases ended
    · exact absent
  obtain ⟨inside,_⟩ := List.getElem?_eq_some_iff.mp found
  cases numbered with
  | invoke asks stops others =>
    have again : ∀ j prog, (s.clients.set i (rest response))[j]? = some prog →
        (j = i ∧ prog = rest response) ∨ (j ≠ i ∧ s.clients[j]? = some prog) := by
      intro j prog there
      by_cases mine : j = i
      · subst mine
        rw [List.getElem?_set_self inside] at there
        exact .inl ⟨rfl,(Option.some.inj there).symm⟩
      · rw [List.getElem?_set_ne (Ne.symm mine)] at there
        exact .inr ⟨mine,there⟩
    refine ⟨?_,?_⟩
    · rcases ask_cases asks named ran with same | ⟨row,reply,title,grown,rfl,settled⟩
      · refine ⟨fun j prog there => ?_,?_,?_⟩
        · simp only [same]
          rcases again j prog there with ⟨rfl,rfl⟩ | ⟨_,old⟩
          · exact ⟨others response,.inr absent⟩
          · exact spread.clients j prog old
        · simpa [same] using spread.rows
        · simpa [same] using spread.distinct
      · obtain ⟨result,ended⟩ := stops reply settled
        refine ⟨fun j prog there => ?_,fun found member => ?_,?_⟩
        · rcases again j prog there with ⟨rfl,rfl⟩ | ⟨apart,old⟩
          · exact ⟨others _,.inl ⟨result,ended⟩⟩
          · obtain ⟨numbered,free⟩ := spread.clients j prog old
            refine ⟨numbered,free.imp_right fun absent found member => ?_⟩
            simp only [grown] at member
            rcases List.mem_append.mp member with before | new
            · exact absent found before
            · rw [List.mem_singleton.mp new,title]
              exact fun equal => apart (Int.ofNat.inj equal).symm
        · simp only [grown] at member
          rw [List.length_set]
          rcases List.mem_append.mp member with before | new
          · exact spread.rows found before
          · exact ⟨i,inside,by rw [List.mem_singleton.mp new,title]⟩
        · simp only [grown,List.map_append,List.map_cons,List.map_nil,title,List.nodup_append]
          refine ⟨spread.distinct,by simp,?_⟩
          intro left present right single equal
          obtain ⟨old,member,rfl⟩ := List.mem_map.mp present
          exact absent old member (by rw [equal,List.mem_singleton.mp single])
    · intro pkey taskID shape row member
      obtain ⟨place,rfl | rfl⟩ := asks <;>
      · simp only [List.cons.injEq,Param.int.injEq] at shape
        rw [← shape.2.1]
        exact absent row member

theorem draws_append (left right : Trace) : draws (left ++ right) = draws left ++ draws right := by simp [draws]

theorem calls_extended (left right : Trace) (process : Nat) : calls process left ≤ calls process (left ++ right) := by
  simp [calls,draws_append]

-- The counters as long as only one of them is used: all others stand at zero, and
-- what was drawn so far is 0, 1, 2, ..
structure Counted (moves : Trace) (s : State) : Prop where
  numbers : (draws moves).map Prod.snd = (List.range s.clients.length).map Int.ofNat
  single : (∀ p a, s.taskindex p a = 0) ∧ s.clients = [] ∨
    ∃ process algorithm, (∀ p a, (p,a) ≠ (process,algorithm) → s.taskindex p a = 0) ∧
      s.taskindex process algorithm = BitVec.ofNat 32 s.clients.length ∧ s.clients ≠ [] ∧
      s.clients.length = calls process moves

theorem toInt_ofNat_small (small : n < 2 ^ 31) : (BitVec.ofNat 32 n).toInt = (n : Int) := by
  have value : (BitVec.ofNat 32 n).toNat = n := by
    rw [BitVec.toNat_ofNat,Nat.mod_eq_of_lt (by omega)]
  rw [BitVec.toInt_eq_toNat_of_lt (by omega),value]

theorem Counted.start (counted : Counted moves s) (few : ∀ p, calls p moves < 2 ^ 31)
    (sole : Sole s (.start process algorithm async rand)) :
    (s.taskindex process algorithm).toInt = s.clients.length ∧ (∀ p a, (p,a) ≠ (process,algorithm) → s.taskindex p a = 0) ∧
      s.taskindex process algorithm = BitVec.ofNat 32 s.clients.length ∧ s.clients.length = calls process moves := by
  rcases counted.single with ⟨unused,empty⟩ | ⟨p,a,others,own,used,count⟩
  · have nothing : draws moves = [] := by
      have numbers := counted.numbers
      simpa [empty] using numbers
    refine ⟨?_,sole,?_,?_⟩
    · simp [unused,empty]
    · simp [unused,empty]
    · simp [empty,calls,nothing]
  · have small : s.clients.length < 2 ^ 31 := count ▸ few p
    have same : (p,a) = (process,algorithm) := by
      by_contra apart
      have zero := sole p a apart
      rw [own] at zero
      have value := congrArg BitVec.toNat zero
      rw [BitVec.toNat_ofNat,Nat.mod_eq_of_lt (by omega)] at value
      exact used (List.length_eq_zero_iff.mp value)
    cases same
    exact ⟨by rw [own,toInt_ofNat_small small],others,own,count⟩

-- Steps other than a scheduling call draw nothing and keep counters and pool size.
theorem advance_quiet (stepped : advance cfg s action = some (next,seen))
    (other : ∀ process algorithm async rand, action ≠ .start process algorithm async rand) :
    next.taskindex = s.taskindex ∧ next.clients.length = s.clients.length ∧ drawn ⟨s,action,next,seen⟩ = none := by
  cases action with
  | start process algorithm async rand => exact absurd rfl (other process algorithm async rand)
  | client i choice =>
    simp only [advance] at stepped
    obtain ⟨⟨db,pool,request,response⟩,served,ended⟩ := Option.bind_eq_some_iff.mp stepped
    cases ended
    obtain ⟨rest,_,_,rfl⟩ := serve_parts served
    exact ⟨rfl,List.length_set,rfl⟩
  | dispatch w choice =>
    simp only [advance] at stepped
    split at stepped
    · obtain ⟨moved,_,ended⟩ := Option.bind_eq_some_iff.mp stepped
      cases ended
      exact ⟨rfl,rfl,rfl⟩
    · cases stepped
  | execute w execId choice =>
    simp only [advance] at stepped
    split at stepped
    · obtain ⟨moved,_,ended⟩ := Option.bind_eq_some_iff.mp stepped
      cases ended
      exact ⟨rfl,rfl,rfl⟩
    · cases stepped
  | endServing w =>
    simp only [advance] at stepped
    split at stepped
    · obtain ⟨moved,_,ended⟩ := Option.bind_eq_some_iff.mp stepped
      cases ended
      exact ⟨rfl,rfl,rfl⟩
    · cases stepped

theorem Counted.step (counted : Counted moves s) (few : ∀ p, calls p moves < 2 ^ 31) (sole : Sole s action)
    (stepped : advance cfg s action = some (next,seen)) : Counted (moves ++ [⟨s,action,next,seen⟩]) next := by
  by_cases scheduling : ∃ process algorithm async rand, action = .start process algorithm async rand
  · obtain ⟨process,algorithm,async,rand,rfl⟩ := scheduling
    obtain ⟨number,others,own,count⟩ := counted.start few sole
    cases stepped
    refine ⟨?_,.inr ⟨process,algorithm,?_,?_,by simp,?_⟩⟩
    · rw [draws_append,List.map_append,counted.numbers]
      simp [draws,drawn,number,List.range_succ]
    · intro p a apart
      have away : ¬(p = process ∧ a = algorithm) := fun same => apart (by rw [same.1,same.2])
      simp [State.fetchAdd,away,others p a apart]
    · simp [State.fetchAdd,own,BitVec.ofNat_add]
    · simp [calls,draws,drawn,count]
  · have quiet := advance_quiet stepped fun process algorithm async rand same =>
      scheduling ⟨process,algorithm,async,rand,same⟩
    obtain ⟨taskindex,size,silent⟩ := quiet
    have same : draws (moves ++ [⟨s,action,next,seen⟩]) = draws moves := by simp [draws,silent]
    refine ⟨by rw [same,size]; exact counted.numbers,?_⟩
    rcases counted.single with ⟨unused,empty⟩ | ⟨p,a,others,own,used,count⟩
    · refine .inl ⟨taskindex ▸ unused,List.length_eq_zero_iff.mp ?_⟩
      rw [size,empty]
      rfl
    · refine .inr ⟨p,a,taskindex ▸ others,by rw [taskindex,size]; exact own,?_,by rw [size,count,calls,calls,same]⟩
      intro empty
      rw [empty] at size
      exact used (List.length_eq_zero_iff.mp size.symm)

theorem Spread.step (spread : Spread s) (sound : Sound cfg past s) (counted : Counted moves s)
    (few : ∀ p, calls p moves < 2 ^ 31) (sole : Sole s action) (stepped : advance cfg s action = some (next,seen)) :
    Spread next ∧ Unrefused ⟨s,action,next,seen⟩ := by
  cases action with
  | start process algorithm async rand =>
    refine ⟨spread.start process algorithm async rand (counted.start few sole).1 stepped,?_⟩
    cases stepped
    exact nofun
  | client i choice =>
    simp only [advance] at stepped
    obtain ⟨⟨after,pool,request,response⟩,served,ended⟩ := Option.bind_eq_some_iff.mp stepped
    cases ended
    have named : ∀ row ∈ s.db.worker, row.workerID ≠ -1 := by
      intro row member
      obtain ⟨j,_,title,_⟩ := sound.accounted.roster.place member
      omega
    obtain ⟨kept,absent⟩ := spread.client named served
    refine ⟨kept,?_⟩
    intro asked answered member
    cases List.mem_singleton.mp member
    exact absent
  | dispatch w choice =>
    simp only [advance] at stepped
    split at stepped
    · obtain ⟨⟨after,worker,events⟩,moved,ended⟩ := Option.bind_eq_some_iff.mp stepped
      cases ended
      have change := ((sound.handed w).dispatch sound.accounted.keyed moved).2
      exact ⟨spread.relabel (Change.ids change) rfl,by simp [Unrefused]⟩
    · cases stepped
  | execute w execId choice =>
    simp only [advance] at stepped
    split at stepped
    · obtain ⟨⟨after,worker,events⟩,moved,ended⟩ := Option.bind_eq_some_iff.mp stepped
      cases ended
      have change := ((sound.handed w).execute sound.accounted.keyed moved).2
      exact ⟨spread.relabel (Change.ids change) rfl,by simp [Unrefused]⟩
    · cases stepped
  | endServing w =>
    simp only [advance] at stepped
    split at stepped
    · obtain ⟨worker,moved,ended⟩ := Option.bind_eq_some_iff.mp stepped
      cases ended
      exact ⟨spread.relabel rfl rfl,by simp [Unrefused]⟩
    · cases stepped

theorem start_counted (cfg : Setting) (db : Database) : Counted [] (State.start cfg db fun _ _ => 0) :=
  ⟨rfl,.inl ⟨fun _ _ => rfl,rfl⟩⟩

theorem start_spread (cfg : Setting) (db : Database) (taskindex : Nat → Algorithm → BitVec 32) :
    Spread (State.start cfg db taskindex) := by
  refine ⟨?_,?_,List.nodup_nil⟩
  · intro i prog found
    simp [State.start] at found
  · simp [State.start,populated]

-- One counter in use, from the first step to the last.
theorem spread_of_run (path : Runs (advance cfg) (State.start cfg db fun _ _ => 0) moves last)
    (few : ∀ p, calls p moves < 2 ^ 31) (sole : ∀ move ∈ moves, Sole move.before move.action) :
    Spread last ∧ Counted moves last ∧ ∀ move ∈ moves, Unrefused move := by
  induction path with
  | nil => exact ⟨start_spread cfg db _,start_counted cfg db,nofun⟩
  | @step earlier middle action after seen prior stepped ih =>
    have below : ∀ p, calls p earlier < 2 ^ 31 := fun p => Nat.lt_of_le_of_lt (calls_extended earlier _ p) (few p)
    obtain ⟨spread,counted,unrefused⟩ := ih below fun move member => sole move (List.mem_append_left _ member)
    have now : Sole middle action := sole ⟨middle,action,after,seen⟩ (by simp)
    obtain ⟨next,clear⟩ := spread.step (sound_of_run prior) counted below now stepped
    refine ⟨next,counted.step below now stepped,fun move member => ?_⟩
    rcases List.mem_append.mp member with old | new
    · exact unrefused move old
    · rw [List.mem_singleton.mp new]
      exact clear

-- A counter that does not stand at zero has given out the number zero.
theorem zero_drawn (path : Runs (advance cfg) (State.start cfg db fun _ _ => 0) moves last)
    (used : last.taskindex process algorithm ≠ 0) : ((process,algorithm),0) ∈ draws moves := by
  induction path with
  | nil => exact absurd rfl used
  | @step earlier middle action after seen prior stepped ih =>
    rw [draws_append]
    by_cases before : middle.taskindex process algorithm = 0
    · refine List.mem_append_right _ ?_
      by_cases scheduling : ∃ p a async rand, action = .start p a async rand
      · obtain ⟨p,a,async,rand,rfl⟩ := scheduling
        cases stepped
        by_cases mine : process = p ∧ algorithm = a
        · obtain ⟨rfl,rfl⟩ := mine
          simp [draws,drawn,before]
        · exact absurd (by simp [State.fetchAdd,mine,before]) used
      · have quiet := advance_quiet stepped fun p a async rand same => scheduling ⟨p,a,async,rand,same⟩
        exact absurd (by rw [quiet.1,before]) used
    · exact List.mem_append_left _ (ih before)

-- Two counters in use number two calls alike.
theorem sole_of_distinct (path : Runs (advance cfg) (State.start cfg db fun _ _ => 0) moves last)
    (distinct : ((draws moves).map Prod.snd).Nodup) : ∀ move ∈ moves, Sole move.before move.action := by
  intro move member
  obtain ⟨earlier,later,cut⟩ := List.append_of_mem member
  obtain ⟨before,_,_⟩ := path.split cut
  obtain ⟨s,action,next,seen⟩ := move
  cases action with
  | start process algorithm async rand =>
    intro p a apart
    by_contra used
    have theirs : ((p,a),0) ∈ draws moves := by
      rw [cut,draws_append]
      exact List.mem_append_left _ (zero_drawn before used)
    have ours : ((process,algorithm),0) ∈ draws moves := by
      rw [cut,draws_append]
      by_cases first : s.taskindex process algorithm = 0
      · refine List.mem_append_right _ ?_
        simp [draws,drawn,first]
      · exact List.mem_append_left _ (zero_drawn before first)
    exact apart (congrArg Prod.fst (key_unique distinct theirs ours rfl))
  | _ => trivial

theorem task_ids_unique (path : Runs (advance cfg) (State.start cfg db fun _ _ => 0) moves last)
    (few : ∀ process, calls process moves < 2 ^ 31) :
    ((∀ move ∈ moves, Sole move.before move.action) →
      (last.db.task.map TaskRow.taskID).Nodup ∧ ∀ move ∈ moves, Unrefused move) ∧
    ((∀ move ∈ moves, Sole move.before move.action) ↔ ((draws moves).map Prod.snd).Nodup) := by
  refine ⟨?_,?_,sole_of_distinct path⟩
  · intro sole
    obtain ⟨spread,_,unrefused⟩ := spread_of_run path few sole
    exact ⟨spread.distinct,unrefused⟩
  · intro sole
    rw [(spread_of_run path few sole).2.1.numbers]
    exact List.nodup_range.map fun _ _ same => Int.ofNat.inj same

theorem calls_length (process : Nat) (moves : Trace) : calls process moves ≤ moves.length :=
  Nat.le_trans List.countP_le_length (List.length_filterMap_le _ _)

-- Two partitions with one worker each.
def twoPartitions : Setting := ⟨⟨2,0,2,2⟩,fun _ => 1,fun _ => 1⟩

-- One process with two calls, the second of which is served first.
theorem task_ids_unique_two_calls : ∃ moves last,
    Runs (advance twoPartitions) (State.start twoPartitions Database.empty fun _ _ => 0) moves last ∧
      last.db.task = [⟨1,1,pending,1⟩,⟨0,0,pending,0⟩] ∧ (last.db.task.map TaskRow.taskID).Nodup := by
  obtain ⟨moves,last,path,checked⟩ := run_reaches (advance twoPartitions)
    (State.start twoPartitions Database.empty fun _ _ => 0)
    (fun moves last => decide (last.db.task = [⟨1,1,pending,1⟩,⟨0,0,pending,0⟩] ∧ moves.length = 4 ∧
      ((draws moves).map Prod.snd).Nodup))
    [.start 0 .singlePartitioned false 0,.start 0 .singlePartitioned true 1,.client 1 {},.client 0 {}]
    (by decide +kernel)
  obtain ⟨rows,size,distinct⟩ := of_decide_eq_true checked
  have few : ∀ process, calls process moves < 2 ^ 31 := fun process =>
    Nat.lt_of_le_of_lt (calls_length process moves) (by rw [size]; decide)
  have unique := task_ids_unique path few
  exact ⟨moves,last,path,rows,(unique.1 (unique.2.mpr distinct)).1⟩

-- Two processes, both started after the setup: each numbers its first task 0.
theorem task_ids_collide : ∃ moves last,
    Runs (advance twoPartitions) (State.start twoPartitions Database.empty fun _ _ => 0) moves last ∧
      (∀ process, calls process moves < 2 ^ 31) ∧ ¬(last.db.task.map TaskRow.taskID).Nodup := by
  obtain ⟨moves,last,path,checked⟩ := run_reaches (advance twoPartitions)
    (State.start twoPartitions Database.empty fun _ _ => 0)
    (fun moves last => decide (last.db.task = [⟨0,0,pending,0⟩,⟨0,1,pending,1⟩] ∧ moves.length = 4))
    [.start 0 .singlePartitioned false 0,.start 1 .singlePartitioned false 1,.client 0 {},.client 1 {}]
    (by decide +kernel)
  obtain ⟨rows,size⟩ := of_decide_eq_true checked
  refine ⟨moves,last,path,fun process => Nat.lt_of_le_of_lt (calls_length process moves) (by rw [size]; decide),?_⟩
  rw [rows]
  decide

end DbosScheduler.Poll
