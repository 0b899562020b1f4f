import DbosScheduler.Lib.Flight
import DbosScheduler.Sql.Commits

namespace DbosScheduler.Message
open Machine Sql Flights

theorem toInt_succ {i stop : Int32} (below : i < stop) : (i + 1).toInt = i.toInt + 1 := by
  have inside := Int32.lt_iff_toInt_lt.mp below
  have least := i.le_toInt
  have most := stop.toInt_lt
  rw [Int32.toInt_add]
  exact Int.bmod_eq_of_le (by simp; omega) (by simp; omega)

-- for (int i = partition; i < partition + num_partitions; ++i), with one parameter in
-- each invocation.
def sendLoop (i stop : Int32) : List Request :=
  if i < stop then ⟨.sendMessage,[.int i.toInt]⟩ :: sendLoop (i + 1) stop else []
  termination_by (stop.toInt - i.toInt).toNat
  decreasing_by
    rename_i below
    have inside := Int32.lt_iff_toInt_lt.mp below
    rw [toInt_succ below]
    omega

-- What the two calls return, and what they have invoked by then.
def asyncSendMessage (partition num_partitions : Int32) : Bool × List Request :=
  (true,sendLoop partition (partition + num_partitions))

def asyncBroadcastMessage : Bool × List Request := (true,[⟨.broadcastMessage,[.int 0]⟩])

theorem sendLoop_length (i stop : Int32) : (sendLoop i stop).length = (stop.toInt - i.toInt).toNat := by
  induction i using sendLoop.induct stop with
  | case1 i below ih =>
    have inside := Int32.lt_iff_toInt_lt.mp below
    rw [sendLoop,if_pos below,List.length_cons,ih,toInt_succ below]
    omega
  | case2 i above =>
    have outside := Int32.not_lt.mp above
    rw [Int32.le_iff_toInt_le] at outside
    rw [sendLoop,if_neg above,List.length_nil]
    omega

-- SendMessage.run has four parameters, so that none of these invocations is a call.
theorem sendLoop_refused (i stop : Int32) : ∀ request ∈ sendLoop i stop, request.call = none := by
  induction i using sendLoop.induct stop with
  | case1 i below ih =>
    intro request member
    rw [sendLoop,if_pos below] at member
    rcases List.mem_cons.mp member with rfl | later
    · rfl
    · exact ih request later
  | case2 i above =>
    intro request member
    rw [sendLoop,if_neg above] at member
    cases member

theorem diff_self (rows : List MessageRow) : rows.diff rows = [] := by
  have joined := List.subperm_append_diff_self_of_count_le fun row (_ : row ∈ rows) => Nat.le_refl (rows.count row)
  have size := joined.length_eq
  rw [List.length_append] at size
  exact List.length_eq_zero_iff.mp (by omega)

-- The rows that came into the table with the invocations of the call, whoever else
-- changes the table meanwhile.
def gained : Seen Database Response → List MessageRow
  | .executed before after => after.message.diff before.message
  | .looked _ => []

def succeeded : Seen Database Response → Bool
  | .looked (some _) => true
  | _ => false

-- One row for each addressed receiver, and as many callbacks with a success.
structure Delivered (partition num_partitions : Int32) (past : List (Seen Database Response)) : Prop where
  rows : ((past.flatMap gained).map MessageRow.receiverID).Perm
    ((List.range num_partitions.toInt.toNat).map fun n => partition.toInt + n)
  callbacks : past.countP succeeded = num_partitions.toInt.toNat

-- All invocations of the call have completed.
structure Completed (db : Database) (partition num_partitions : Int32) (past : List (Seen Database Response)) : Prop where
  ran : ∃ moves last, Runs (settling Sql.invoke) ⟨db,(asyncSendMessage partition num_partitions).2,[]⟩ moves last ∧
    last.Settled ∧ observed moves = past

theorem completes (db : Database) (partition num_partitions : Int32) : ∃ past, Completed db partition num_partitions past := by
  obtain ⟨moves,last,path,settled⟩ := settles Sql.invoke {} _ ⟨db,(asyncSendMessage partition num_partitions).2,[]⟩
    (Nat.le_refl _)
  exact ⟨observed moves,moves,last,path,settled,rfl⟩

theorem refused_changes {request : Request} (refused : request.call = none) (db : Database) (choice : Choice) :
    (Sql.invoke db request choice).1 = db ∧ (Sql.invoke db request choice).2 = none := by
  rw [Sql.invoke,refused]
  exact ⟨rfl,rfl⟩

theorem completed_empty (completed : Completed db partition num_partitions past) :
    past.flatMap gained = [] ∧ past.countP succeeded = 0 := by
  obtain ⟨moves,last,path,_,rfl⟩ := completed.ran
  have fits := settling_fits (fun request => Request.call request = none) (fun reply => reply = none)
    (fun before after => after = before) path ⟨sendLoop_refused _ _,by simp⟩ ?_
  · constructor
    · apply List.flatMap_eq_nil_iff.mpr
      intro event member
      have fit := fits event member
      cases event with
      | executed before after =>
        cases fit
        exact diff_self _
      | looked reply => rfl
    · apply List.countP_eq_zero.mpr
      intro event member
      have fit := fits event member
      cases event with
      | executed before after => simp [succeeded]
      | looked reply =>
        cases fit
        simp [succeeded]
  · intro db request choice refused
    exact refused_changes refused db choice

theorem asyncSendMessage_delivers_iff (db : Database) (partition num_partitions : Int32) (many : 0 ≤ num_partitions.toInt) :
    (∃ past, Completed db partition num_partitions past) ∧
      ∀ past, Completed db partition num_partitions past → (Delivered partition num_partitions past ↔ num_partitions = 0) := by
  refine ⟨completes db partition num_partitions,fun past completed => ?_⟩
  obtain ⟨rows,callbacks⟩ := completed_empty completed
  constructor
  · intro delivered
    have none_ := delivered.callbacks
    rw [callbacks] at none_
    apply Int32.toInt_inj.mp
    rw [Int32.toInt_zero]
    omega
  · rintro rfl
    refine ⟨?_,callbacks⟩
    rw [rows]
    exact .nil

-- To nobody, and to two receivers in a table that already has messages.
theorem asyncSendMessage_delivers_two :
    (∀ past, Completed Database.empty 3 0 past → Delivered 3 0 past) ∧
    ∃ past, Completed {Database.empty with message:=[⟨0,1,7,"ping"⟩]} 0 2 past ∧ ¬Delivered 0 2 past := by
  constructor
  · intro past completed
    exact ((asyncSendMessage_delivers_iff Database.empty 3 0 (by decide)).2 past completed).mpr rfl
  · obtain ⟨⟨past,completed⟩,delivers⟩ :=
      asyncSendMessage_delivers_iff {Database.empty with message:=[⟨0,1,7,"ping"⟩]} 0 2 (by decide)
    exact ⟨past,completed,fun delivered => absurd ((delivers past completed).mp delivered) (by decide)⟩

-- One receiver: the invocation is refused, and the callback hears of a failure.
theorem asyncSendMessage_loses : ∃ past, Completed Database.empty 0 1 past ∧ (.looked none) ∈ past ∧
    past.flatMap gained = [] ∧ past.countP succeeded = 0 ∧ ¬Delivered 0 1 past := by
  have invoked : (asyncSendMessage 0 1).2 = [⟨.sendMessage,[.int 0]⟩] := by
    rw [asyncSendMessage,sendLoop,if_pos (by decide),sendLoop,if_neg (by decide)]
    rfl
  have path := run_sound (show run (settling Sql.invoke) ⟨Database.empty,[⟨.sendMessage,[.int 0]⟩],[]⟩ [.execute 0 {},.look 0] =
    some (_,_) from rfl)
  have completed : Completed Database.empty 0 1 [.executed Database.empty Database.empty,.looked none] := by
    constructor
    rw [invoked]
    exact ⟨_,_,path,⟨rfl,rfl⟩,rfl⟩
  obtain ⟨rows,callbacks⟩ := completed_empty completed
  refine ⟨_,completed,by simp,rows,callbacks,fun delivered => ?_⟩
  have once := delivered.callbacks
  rw [callbacks] at once
  exact absurd once (by decide)

end DbosScheduler.Message
