import DbosScheduler.Sql.Procedures

namespace DbosScheduler.Sql
open Table

-- What each procedure does when it commits, said once. Later proofs cite these
-- cases and never look into a procedure again.

def Free (db : Database) (pkey : Int) (row : WorkerRow) : Prop :=
  row ∈ db.worker ∧ row.pkey = pkey ∧ 0 < row.capacity

def Fresh (db : Database) (pkey taskID : Int) : Prop := ∀ old ∈ db.task, old.key ≠ (pkey,taskID)

-- One unit of capacity is taken from the worker of `row`.
def Database.charge (row : WorkerRow) (db : Database) : Database :=
  {db with worker:=setCapacity (row.capacity - 1) row.pkey row.workerID db.worker}

-- The charge together with the task row that names the charged worker.
def Database.assign (taskID state : Int) (row : WorkerRow) (db : Database) : Database :=
  {db.charge row with task:=db.task ++ [⟨taskID,row.workerID,state,row.pkey⟩]}

theorem not_free_of_none (nobody : selectWorker choice pkey db = none) : ∀ row, ¬Free db pkey row := by
  intro row given
  obtain ⟨member,here,capacity⟩ := given
  exact absurd (selectWorker_none.mp nobody row member here) (by omega)

theorem SelectWorker.run_cases (ran : SelectWorker.run choice pkey db = some (result,after)) :
    (result = -1 ∧ after = db ∧ ∀ row, ¬Free db pkey row) ∨
      ∃ row, Free db pkey row ∧ result = row.workerID ∧ after = db.charge row := by
  unfold SelectWorker.run at ran
  split at ran
  · rename_i nobody
    cases ran
    exact .inl ⟨rfl,rfl,not_free_of_none nobody⟩
  · rename_i row found
    obtain ⟨next,updated,ended⟩ := Option.bind_eq_some_iff.mp ran
    cases ended
    have free := selectWorker_some found
    refine .inr ⟨row,free,rfl,?_⟩
    rw [updateCapacity_some updated,Database.charge,free.2.1]

-- The shared tail of the three procedures that record the task they place.
theorem assign_parts {db : Database} (here : row.pkey = pkey)
    (inserted : db.insertTask ⟨taskID,row.workerID,state,pkey⟩ = some middle)
    (updated : middle.updateCapacity (row.capacity - 1) pkey row.workerID = some after) :
    Fresh db pkey taskID ∧ after = db.assign taskID state row := by
  obtain ⟨fresh,rfl⟩ := insertTask_some inserted
  refine ⟨fun old member => by simpa [TaskRow.key] using fresh old member,?_⟩
  rw [updateCapacity_some updated,Database.assign,Database.charge,here]

theorem SelectSinglePartitionedTaskWorker.run_cases
    (ran : SelectSinglePartitionedTaskWorker.run choice pkey taskID db = some (result,after)) :
    (result = noWorker ∧ after = db ∧ ∀ row, ¬Free db pkey row) ∨
      ∃ row, Free db pkey row ∧ Fresh db pkey taskID ∧ result = success ∧ after = db.assign taskID 1 row := by
  unfold SelectSinglePartitionedTaskWorker.run at ran
  split at ran
  · rename_i nobody
    cases ran
    exact .inl ⟨rfl,rfl,not_free_of_none nobody⟩
  · rename_i row found
    obtain ⟨middle,inserted,ran⟩ := Option.bind_eq_some_iff.mp ran
    obtain ⟨next,updated,ended⟩ := Option.bind_eq_some_iff.mp ran
    cases ended
    have free := selectWorker_some found
    obtain ⟨fresh,placed⟩ := assign_parts free.2.1 inserted updated
    exact .inr ⟨row,free,fresh,rfl,placed⟩

theorem SelectOrderedWorker.run_cases
    (ran : SelectOrderedWorker.run choice pkey taskID db = some (result,after)) :
    (result = -1 ∧ after = db ∧ ∀ row, ¬Free db pkey row) ∨
      ∃ row, Free db pkey row ∧ (∀ other, Free db pkey other → other.capacity ≤ row.capacity) ∧
        Fresh db pkey taskID ∧ result = row.workerID ∧ after = db.assign taskID 1 row := by
  unfold SelectOrderedWorker.run at ran
  split at ran
  · rename_i nobody
    cases ran
    refine .inl ⟨rfl,rfl,?_⟩
    intro row given
    obtain ⟨member,here,capacity⟩ := given
    have kept : row ∈ db.worker.filter (available pkey) := by simp [member,here,capacity]
    exact largest_ne_nil (List.ne_nil_of_mem kept) (limitOne_none.mp nobody)
  · rename_i row found
    obtain ⟨middle,inserted,ran⟩ := Option.bind_eq_some_iff.mp ran
    obtain ⟨next,updated,ended⟩ := Option.bind_eq_some_iff.mp ran
    cases ended
    obtain ⟨kept,above⟩ := mem_largest.mp (limitOne_mem found)
    have free : Free db pkey row := by simpa [Free] using kept
    obtain ⟨fresh,placed⟩ := assign_parts free.2.1 inserted updated
    refine .inr ⟨row,free,?_,fresh,rfl,placed⟩
    intro other given
    obtain ⟨member,here,capacity⟩ := given
    exact above other (by simp [member,here,capacity])

theorem PushTask.run_cases (ran : PushTask.run choice pkey taskID db = some (result,after)) :
    (result = noWorker ∧ after = db ∧ ∀ row, ¬Free db pkey row) ∨
      ∃ row, Free db pkey row ∧ Fresh db pkey taskID ∧ result = success ∧
        after = {db.assign taskID 2 row with taskAssign:=db.taskAssign ++ [⟨taskID,row.url,pkey⟩]} := by
  unfold PushTask.run at ran
  split at ran
  · rename_i nobody
    cases ran
    exact .inl ⟨rfl,rfl,not_free_of_none nobody⟩
  · rename_i row found
    obtain ⟨middle,inserted,ran⟩ := Option.bind_eq_some_iff.mp ran
    obtain ⟨next,updated,ran⟩ := Option.bind_eq_some_iff.mp ran
    obtain ⟨emitted,assigned,ended⟩ := Option.bind_eq_some_iff.mp ran
    cases ended
    have free := selectWorker_some found
    obtain ⟨fresh,rfl⟩ := assign_parts free.2.1 inserted updated
    refine .inr ⟨row,free,fresh,rfl,?_⟩
    unfold Database.insertTaskAssign at assigned
    split at assigned
    · exact (Option.some.inj assigned).symm
    · cases assigned

-- Both new values go into INTEGER columns.
def fits (row : WorkerRow) : Bool := integer (row.capacity - 1) && integer row.workerID

theorem SelectPartitionedTaskWorker.run_found (taskFound : SelectPartitionedTaskWorker.selectTask choice pkey db = some task)
    (found : selectWorker choice pkey db = some row) :
    SelectPartitionedTaskWorker.run choice pkey db = if fits row then
      some (success,{db.charge row with task:=(update (fun old => old.pkey == pkey && old.taskID == task.taskID)
        (fun old => {old with workerID:=row.workerID}) db.task)}) else none := by
  have here := (selectWorker_some found).2.1
  cases small : integer (row.capacity - 1) <;> cases named : integer row.workerID <;>
    simp [SelectPartitionedTaskWorker.run,taskFound,found,fits,small,named,Database.updateCapacity,
      SelectPartitionedTaskWorker.updateTask,Database.charge,here,success]

theorem SelectPartitionedTaskWorker.run_cases
    (ran : SelectPartitionedTaskWorker.run choice pkey db = some (result,after)) :
    (result ≠ success ∧ after = db) ∨
      ∃ task row, SelectPartitionedTaskWorker.selectTask choice pkey db = some task ∧
        selectWorker choice pkey db = some row ∧ fits row = true ∧ result = success ∧
        after = {db.charge row with task:=(update (fun old => old.pkey == pkey && old.taskID == task.taskID)
          (fun old => {old with workerID:=row.workerID}) db.task)} := by
  cases taskFound : SelectPartitionedTaskWorker.selectTask choice pkey db with
  | none =>
    simp only [SelectPartitionedTaskWorker.run,taskFound,Option.some.injEq,Prod.mk.injEq] at ran
    exact .inl ⟨by rw [← ran.1]; decide,ran.2.symm⟩
  | some task =>
    cases found : selectWorker choice pkey db with
    | none =>
      simp only [SelectPartitionedTaskWorker.run,taskFound,found,Option.some.injEq,Prod.mk.injEq] at ran
      exact .inl ⟨by rw [← ran.1]; decide,ran.2.symm⟩
    | some row =>
      rw [SelectPartitionedTaskWorker.run_found taskFound found] at ran
      split at ran
      · cases ran
        exact .inr ⟨task,row,rfl,rfl,‹_›,rfl,rfl⟩
      · cases ran

theorem SelectTaskWorker.run_found (taskFound : SelectTaskWorker.selectTask choice db = some task)
    (found : SelectTaskWorker.selectWorker choice db = some row) :
    SelectTaskWorker.run choice db = if fits row then some (success,{db with
      worker:=(update (fun old => old.workerID == row.workerID)
        (fun old => {old with capacity:=row.capacity - 1}) db.worker)
      task:=(update (fun old => old.taskID == task.taskID)
        (fun old => {old with workerID:=row.workerID}) db.task)}) else none := by
  cases small : integer (row.capacity - 1) <;> cases named : integer row.workerID <;>
    simp [SelectTaskWorker.run,taskFound,found,fits,small,named,SelectTaskWorker.updateCapacity,SelectTaskWorker.updateTask]

theorem SelectTaskWorker.run_cases (ran : SelectTaskWorker.run choice db = some (result,after)) :
    (result ≠ success ∧ after = db) ∨
      ∃ task row, SelectTaskWorker.selectTask choice db = some task ∧
        SelectTaskWorker.selectWorker choice db = some row ∧ fits row = true ∧ result = success ∧
        after = {db with
          worker:=(update (fun old => old.workerID == row.workerID)
            (fun old => {old with capacity:=row.capacity - 1}) db.worker)
          task:=(update (fun old => old.taskID == task.taskID)
            (fun old => {old with workerID:=row.workerID}) db.task)} := by
  cases taskFound : SelectTaskWorker.selectTask choice db with
  | none =>
    simp only [SelectTaskWorker.run,taskFound,Option.some.injEq,Prod.mk.injEq] at ran
    exact .inl ⟨by rw [← ran.1]; decide,ran.2.symm⟩
  | some task =>
    cases found : SelectTaskWorker.selectWorker choice db with
    | none =>
      simp only [SelectTaskWorker.run,taskFound,found,Option.some.injEq,Prod.mk.injEq] at ran
      exact .inl ⟨by rw [← ran.1]; decide,ran.2.symm⟩
    | some row =>
      rw [SelectTaskWorker.run_found taskFound found] at ran
      split at ran
      · cases ran
        exact .inr ⟨task,row,rfl,rfl,‹_›,rfl,rfl⟩
      · cases ran

theorem SelectSparkWorker.run_cases
    (ran : SelectSparkWorker.run choice pkey targetData db = some (result,after)) :
    (SelectSparkWorker.selectWorker choice pkey targetData db = none ∧ result = -1 ∧ after = db) ∨
      ∃ row, SelectSparkWorker.selectWorker choice pkey targetData db = some row ∧ Free db pkey row ∧
        row.dataShards = targetData ∧ result = row.workerID ∧ after = db.charge row := by
  unfold SelectSparkWorker.run at ran
  split at ran
  · rename_i nobody
    cases ran
    exact .inl ⟨nobody,rfl,rfl⟩
  · rename_i row found
    obtain ⟨next,updated,ended⟩ := Option.bind_eq_some_iff.mp ran
    cases ended
    have kept : (row ∈ db.worker ∧ row.pkey = pkey ∧ 0 < row.capacity ∧ row.dataShards = targetData) := by
      simpa [and_assoc] using limitOne_mem found
    refine .inr ⟨row,found,⟨kept.1,kept.2.1,kept.2.2.1⟩,kept.2.2.2,rfl,?_⟩
    rw [updateCapacity_some updated,Database.charge,kept.2.1]

theorem FinishWorkerTask.run_cases
    (ran : FinishWorkerTask.run choice workerID taskID pkey db = some (result,after)) :
    (result = -1 ∧ after = db ∧ ∀ row ∈ db.worker, row.key ≠ (pkey,workerID)) ∨
      ∃ row ∈ db.worker, row.key = (pkey,workerID) ∧ integer (row.capacity + 1) = true ∧ result = 0 ∧
        after = {db with worker:=setCapacity (row.capacity + 1) pkey workerID db.worker,task:=after.task} := by
  unfold FinishWorkerTask.run at ran
  split at ran
  · rename_i nobody
    cases ran
    refine .inl ⟨rfl,rfl,?_⟩
    have empty := limitOne_none.mp nobody
    simpa [WorkerRow.key] using empty
  · rename_i row found
    obtain ⟨next,updated,ended⟩ := Option.bind_eq_some_iff.mp ran
    cases ended
    have kept : row ∈ db.worker ∧ row.pkey = pkey ∧ row.workerID = workerID := by
      simpa using limitOne_mem found
    refine .inr ⟨row,kept.1,by simp [WorkerRow.key,kept.2],updateCapacity_legal updated,rfl,?_⟩
    rw [updateCapacity_some updated]
    by_cases real : taskID = -1 <;> simp [real,FinishWorkerTask.updateState]

-- Whatever state is reported, only a completion touches the Worker table.
theorem WorkerUpdateTask.run_cases (ran : WorkerUpdateTask.run pkey workerID taskID taskState db = some (result,after)) :
    (taskState ≠ 3 ∧ after = {db with task:=after.task}) ∨
      (taskState = 3 ∧ (∀ row ∈ db.worker, ofWorker pkey workerID row = true → integer (row.capacity + 1) = true) ∧
        after = {db with
          worker:=(update (ofWorker pkey workerID) (fun row => {row with capacity:=row.capacity+1}) db.worker)
          task:=after.task}) := by
  unfold WorkerUpdateTask.run at ran
  obtain ⟨middle,updated,ran⟩ := Option.bind_eq_some_iff.mp ran
  unfold WorkerUpdateTask.updateTask at updated
  split at updated
  · cases updated
    split at ran
    · rename_i finished
      obtain ⟨next,credited,ended⟩ := Option.bind_eq_some_iff.mp ran
      cases ended
      unfold WorkerUpdateTask.updateCapacity at credited
      split at credited
      · rename_i bounded
        cases credited
        refine .inr ⟨finished,fun row member mine => ?_,rfl⟩
        simpa [mine] using List.all_eq_true.mp bounded row member
      · cases credited
    · rename_i unfinished
      cases ran
      exact .inl ⟨unfinished,rfl⟩
  · cases updated

-- The statements queued one per id amount to one pass over the table: none of
-- them looks at the column the others write.
def marked (pkey workerID : Int) (ids : List Int) (row : TaskRow) : Bool :=
  row.pkey == pkey && row.workerID == workerID && ids.contains row.taskID

@[simp] theorem marked_iff {row : TaskRow} : marked pkey workerID ids row = true ↔
    row.pkey = pkey ∧ row.workerID = workerID ∧ row.taskID ∈ ids := by
  simp [marked,and_assoc]

def markRunning (pkey workerID : Int) (ids : List Int) : List TaskRow → List TaskRow :=
  update (marked pkey workerID ids) fun row => {row with state:=2}

theorem updateTaskRunning_fold (ids : List Int) (db : Database) :
    ids.foldl (fun db taskID => WorkerSelectTask.updateTaskRunning pkey taskID workerID db) db =
      {db with task:=markRunning pkey workerID ids db.task} := by
  induction ids generalizing db with
  | nil => rw [List.foldl_nil,markRunning,update_nothing _ (by simp [marked])]
  | cons head rest ih =>
    rw [List.foldl_cons,ih]
    simp only [WorkerSelectTask.updateTaskRunning,markRunning,update,List.map_map]
    congr 1
    apply List.map_congr_left
    intro row _
    by_cases here : row.pkey = pkey ∧ row.workerID = workerID
    · obtain ⟨rfl,rfl⟩ := here
      by_cases first : row.taskID = head
      · by_cases again : row.taskID ∈ rest <;> simp_all [marked]
      · by_cases again : row.taskID ∈ rest <;> simp [marked,first,again]
    · have other : ¬((row.pkey = pkey ∧ row.taskID = head) ∧ row.workerID = workerID) :=
        fun same => here ⟨same.1.1,same.2⟩
      have never : ∀ named : Prop, ¬(row.pkey = pkey ∧ row.workerID = workerID ∧ named) :=
        fun _ same => here ⟨same.1,same.2.1⟩
      simp [other,never]

theorem WorkerSelectTask.run_some (ran : WorkerSelectTask.run choice pkey workerID topk db = some (ids,after)) :
    0 ≤ topk ∧ ∃ picked : List TaskRow, picked.Subperm (db.task.filter (pendingOf pkey workerID)) ∧
      picked.length = min topk.toNat (db.task.filter (pendingOf pkey workerID)).length ∧
      ids = picked.map TaskRow.taskID ∧ after = {db with task:=markRunning pkey workerID ids db.task} := by
  unfold WorkerSelectTask.run at ran
  split at ran
  · cases ran
  · rename_i enough
    cases ran
    exact ⟨by omega,_,limit_subperm _ _ _,limit_length _ _ _,rfl,updateTaskRunning_fold _ _⟩

-- What a receiver deletes is what it returns: its own rows, all of them.
theorem ReceiveMessage.run_some (ran : ReceiveMessage.run choice receiverID db = some (result,after)) :
    ∃ rows : List MessageRow, rows.Perm (db.message.filter fun row => row.receiverID == receiverID) ∧
      result = rows.map (fun row => (row.senderID,row.messageID,row.data)) ∧
      after = {db with message:=db.message.filter fun row => !(row.receiverID == receiverID)} := by
  have whole : ∀ rows : List MessageRow, (limit rows.length choice.rows rows).Perm rows := by
    intro rows
    exact (limit_subperm _ _ _).perm_of_length_le (by rw [limit_length]; omega)
  refine ⟨_,whole _,?_⟩
  simp only [ReceiveMessage.run] at ran
  split at ran
  · rename_i nothing
    cases ran
    refine ⟨rfl,?_⟩
    rw [List.length_map,limit_length] at nothing
    have empty : db.message.filter (fun row => row.receiverID == receiverID) = [] :=
      List.length_eq_zero_iff.mp (by omega)
    have all : db.message.filter (fun row => !(row.receiverID == receiverID)) = db.message := by
      rw [List.filter_eq_self]
      simpa using empty
    rw [all]
  · cases ran
    exact ⟨rfl,rfl⟩

theorem reply_some {wrap : α → Reply} (ended : reply wrap result = some (answer,after)) :
    ∃ value, result = some (value,after) ∧ answer = wrap value := by
  obtain ⟨⟨value,db⟩,ran,same⟩ := Option.map_eq_some_iff.mp ended
  cases same
  exact ⟨value,ran,rfl⟩

-- A failed invocation changed nothing; any other one is a committed call.
theorem execute_cases (ran : Call.execute call choice db = (after,response)) :
    (response = none ∧ after = db) ∨ ∃ answer, response = some answer ∧ call.run choice db = some (answer,after) := by
  unfold Call.execute at ran
  split at ran
  · cases ran
    exact .inl ⟨rfl,rfl⟩
  · split at ran
    · cases ran
      exact .inl ⟨rfl,rfl⟩
    · rename_i answer next committed
      cases ran
      exact .inr ⟨answer,rfl,committed⟩

theorem invoke_fault (fault : choice.fault = true) : invoke db request choice = (db,none) := by
  unfold invoke
  split
  · rfl
  · simp [Call.execute,fault]

theorem invoke_failed (failed : invoke db request choice = (after,none)) : after = db := by
  unfold invoke at failed
  split at failed
  · exact (Prod.mk.inj failed).1.symm
  · rcases execute_cases failed with ⟨_,same⟩ | ⟨answer,given,_⟩
    · exact same
    · cases given

theorem invoke_ran (call : Call) (named : request.call = some call) (healthy : choice.fault = false)
    (ran : call.run choice db = some (answer,after)) : invoke db request choice = (after,some answer) := by
  simp [invoke,named,Call.execute,healthy,ran]

theorem invoke_cases (call : Call) (named : request.call = some call) (ran : invoke db request choice = (after,response)) :
    (response = none ∧ after = db) ∨ ∃ answer, response = some answer ∧ call.run choice db = some (answer,after) := by
  simp only [invoke,named] at ran
  exact execute_cases ran

-- The four scheduling procedures as their clients see them: an invocation that failed or
-- found nobody changed nothing, and any other one charged a worker.
theorem SelectWorker.invoked (ran : invoke db ⟨.selectWorker,[.int pkey]⟩ choice = (after,response)) :
    (after = db ∧ (response = none ∨ (response = some (.long (-1)) ∧ ∀ row, ¬Free db pkey row))) ∨
      ∃ row, Free db pkey row ∧ response = some (.long row.workerID) ∧ after = db.charge row := by
  rcases invoke_cases (.selectWorker pkey) rfl ran with ⟨failed,same⟩ | ⟨answer,rfl,committed⟩
  · exact .inl ⟨same,.inl failed⟩
  · obtain ⟨code,chosen,rfl⟩ := reply_some committed
    rcases SelectWorker.run_cases chosen with ⟨rfl,same,nobody⟩ | ⟨row,free,rfl,charged⟩
    · exact .inl ⟨same,.inr ⟨rfl,nobody⟩⟩
    · exact .inr ⟨row,free,rfl,charged⟩

theorem SelectOrderedWorker.invoked
    (ran : invoke db ⟨.selectOrderedWorker,[.int pkey,.int taskID]⟩ choice = (after,response)) :
    (after = db ∧ (response = none ∨ (response = some (.long (-1)) ∧ ∀ row, ¬Free db pkey row))) ∨
      ∃ row, Free db pkey row ∧ Fresh db pkey taskID ∧ response = some (.long row.workerID) ∧
        after = db.assign taskID 1 row := by
  rcases invoke_cases (.selectOrderedWorker pkey taskID) rfl ran with ⟨failed,same⟩ | ⟨answer,rfl,committed⟩
  · exact .inl ⟨same,.inl failed⟩
  · obtain ⟨code,chosen,rfl⟩ := reply_some committed
    rcases SelectOrderedWorker.run_cases chosen with ⟨rfl,same,nobody⟩ | ⟨row,free,_,fresh,rfl,placed⟩
    · exact .inl ⟨same,.inr ⟨rfl,nobody⟩⟩
    · exact .inr ⟨row,free,fresh,rfl,placed⟩

theorem SelectSinglePartitionedTaskWorker.invoked
    (ran : invoke db ⟨.selectSinglePartitionedTaskWorker,[.int pkey,.int taskID]⟩ choice = (after,response)) :
    (after = db ∧ (response = none ∨ (response = some (.long noWorker) ∧ ∀ row, ¬Free db pkey row))) ∨
      ∃ row, Free db pkey row ∧ Fresh db pkey taskID ∧ response = some (.long success) ∧
        after = db.assign taskID 1 row := by
  rcases invoke_cases (.selectSinglePartitionedTaskWorker pkey taskID) rfl ran with ⟨failed,same⟩ | ⟨answer,rfl,committed⟩
  · exact .inl ⟨same,.inl failed⟩
  · obtain ⟨code,chosen,rfl⟩ := reply_some committed
    rcases SelectSinglePartitionedTaskWorker.run_cases chosen with ⟨rfl,same,nobody⟩ | ⟨row,free,fresh,rfl,placed⟩
    · exact .inl ⟨same,.inr ⟨rfl,nobody⟩⟩
    · exact .inr ⟨row,free,fresh,rfl,placed⟩

theorem PushTask.invoked (ran : invoke db ⟨.pushTask,[.int pkey,.int taskID]⟩ choice = (after,response)) :
    (after = db ∧ (response = none ∨ (response = some (.long noWorker) ∧ ∀ row, ¬Free db pkey row))) ∨
      ∃ row, Free db pkey row ∧ Fresh db pkey taskID ∧ response = some (.long success) ∧
        after = {db.assign taskID 2 row with taskAssign:=db.taskAssign ++ [⟨taskID,row.url,pkey⟩]} := by
  rcases invoke_cases (.pushTask pkey taskID) rfl ran with ⟨failed,same⟩ | ⟨answer,rfl,committed⟩
  · exact .inl ⟨same,.inl failed⟩
  · obtain ⟨code,chosen,rfl⟩ := reply_some committed
    rcases PushTask.run_cases chosen with ⟨rfl,same,nobody⟩ | ⟨row,free,fresh,rfl,placed⟩
    · exact .inl ⟨same,.inr ⟨rfl,nobody⟩⟩
    · exact .inr ⟨row,free,fresh,rfl,placed⟩

end DbosScheduler.Sql
