import DbosScheduler.Sql.Commits

namespace DbosScheduler.Message
open Machine Sql

-- Exactly-once delivery, read off the history of the committed calls. A message
-- is what a receiver gets to see of its row: sender, message id and data.
abbrev Content := Int × Int × String

def content (row : MessageRow) : Content := (row.senderID,row.messageID,row.data)

def addressed (receiverID : Int) (row : MessageRow) : Bool := row.receiverID == receiverID

-- The rows for one receiver that are still in the table.
def waiting (receiverID : Int) (rows : List MessageRow) : List Content :=
  (rows.filter (addressed receiverID)).map content

def sentTo (receiverID : Int) : Call × Reply → List Content
  | (.sendMessage receiver senderID messageID data,_) =>
    if receiver = receiverID then [(senderID,messageID,data)] else []
  | _ => []

def returnedTo (receiverID : Int) : Call × Reply → List Content
  | (.receiveMessage receiver,.messages rows) => if receiver = receiverID then rows else []
  | _ => []

def Accounted (past : List (Call × Reply)) (db : Database) : Prop :=
  ∀ receiverID, (past.flatMap (sentTo receiverID)).Perm
    (past.flatMap (returnedTo receiverID) ++ waiting receiverID db.message)

variable {db after : Database} {call : Call} {answer : Reply} {rows : List MessageRow}

@[simp] theorem addressed_iff {row : MessageRow} : addressed receiverID row = true ↔ row.receiverID = receiverID := by
  simp [addressed]

-- A receive takes the whole mailbox of its receiver and leaves every other one.
theorem waiting_received (receiverID owner : Int) (rows : List MessageRow) :
    waiting receiverID (rows.filter fun row => !(row.receiverID == owner)) =
      if receiverID = owner then [] else waiting receiverID rows := by
  by_cases mine : receiverID = owner
  · subst mine
    simp [waiting,List.filter_filter,addressed]
  · have kept : ∀ row : MessageRow, (addressed receiverID row && !(row.receiverID == owner)) = addressed receiverID row := by
      intro row
      by_cases here : row.receiverID = receiverID
      · simp [addressed,here,mine]
      · simp [addressed,here]
    simp [waiting,List.filter_filter,kept,mine]

-- One committed call: what it sends goes into the table, what it returns comes
-- out of it, and this is all that happens to any mailbox.
theorem mailbox_step (change : MessageChange call db answer rows) (receiverID : Int) :
    (waiting receiverID db.message ++ sentTo receiverID (call,answer)).Perm
      (returnedTo receiverID (call,answer) ++ waiting receiverID rows) := by
  cases change with
  | same unsent unreceived =>
    cases call <;> try simp [sentTo,returnedTo]
    case sendMessage receiver senderID messageID data => exact absurd rfl (unsent ⟨receiver,senderID,messageID,data⟩)
    case receiveMessage receiver => exact absurd rfl (unreceived receiver)
  | @sent row named =>
    subst named
    by_cases mine : row.receiverID = receiverID
    · simp [waiting,sentTo,returnedTo,mine,addressed,content]
    · simp [waiting,sentTo,returnedTo,mine,addressed]
  | @received owner picked named all returned =>
    subst named returned
    rw [waiting_received]
    by_cases mine : owner = receiverID
    · subst mine
      simp only [sentTo,returnedTo,if_true,List.append_nil]
      exact (all.map content).symm
    · simp [sentTo,returnedTo,mine,Ne.symm mine]

theorem accounted_step (accounted : Accounted past db) (change : MessageChange call db answer after.message) :
    Accounted (past ++ [(call,answer)]) after := by
  intro receiverID
  have before := (accounted receiverID).append_right (sentTo receiverID (call,answer))
  have moved := (mailbox_step change receiverID).append_left (past.flatMap (returnedTo receiverID))
  rw [List.append_assoc] at before
  simpa using before.trans moved

theorem messages_delivered_once {moves : List (Move Database (Call × Choice) (Call × Reply))} {last : Database}
    (path : Runs commit db moves last) (empty : db.message = []) (receiverID : Int) :
    ((observed moves).flatMap (sentTo receiverID)).Perm
      ((observed moves).flatMap (returnedTo receiverID) ++ waiting receiverID last.message) ∧
    ∀ move ∈ moves, ∀ owner, move.action.1 = .receiveMessage owner → ∃ contents : List Content,
      move.seen = [(.receiveMessage owner,.messages contents)] ∧
      contents.Perm (waiting owner move.before.message) ∧ waiting owner move.after.message = [] ∧
      ∀ other, other ≠ owner → waiting other move.after.message = waiting other move.before.message := by
  constructor
  · refine path.past Accounted ?_ ?_ receiverID
    · intro owner
      simp [empty,waiting]
    · intro past s action next seen accounted stepped
      obtain ⟨answer,ran,rfl⟩ := commit_some stepped
      exact accounted_step accounted (run_effect ran).message
  · intro move member owner receives
    obtain ⟨answer,ran,seen⟩ := commit_some (path.stepped member).2
    have change := (run_effect ran).message
    rw [receives] at change seen
    revert change
    generalize move.after.message = rows
    intro change
    cases change with
    | same _ unreceived => exact absurd rfl (unreceived owner)
    | sent named => cases named
    | received named all returned =>
      cases named
      refine ⟨_,by rw [seen,returned]; rfl,all.map content,by simp [waiting_received],?_⟩
      intro other apart
      simp [waiting_received,apart]

-- Two equal messages are two messages; the second poll of receiver 5 finds none.
theorem messages_delivered_once_twins : ∃ moves last, Runs commit Database.empty moves last ∧
    (observed moves).flatMap (returnedTo 5) = [(1,0,"ping"),(1,0,"ping")] ∧
    ((observed moves).flatMap (sentTo 5)).Perm
      ((observed moves).flatMap (returnedTo 5) ++ waiting 5 last.message) := by
  obtain ⟨moves,last,path,checked⟩ := run_reaches commit Database.empty
    (fun moves _ => decide ((observed moves).flatMap (returnedTo 5) = [(1,0,"ping"),(1,0,"ping")]))
    [(.sendMessage 5 1 0 "ping",{}),(.sendMessage 6 1 0 "ping",{}),(.sendMessage 5 1 0 "ping",{}),(.receiveMessage 5,{}),
      (.receiveMessage 5,{})] (by decide)
  exact ⟨moves,last,path,of_decide_eq_true checked,(messages_delivered_once path rfl 5).1⟩

end DbosScheduler.Message
