import DbosScheduler.Lib.Machine

namespace DbosScheduler.Client
open Machine

-- A client of a shared store, as the invocations it makes: it either ends with
-- a result, or sends one request and goes on with the response it gets.
inductive Prog (ρ κ α : Type) where
  | done (result : α)
  | invoke (request : ρ) (next : κ → Prog ρ κ α)

variable {ρ κ α β σ χ ε : Type}

def Prog.bind : Prog ρ κ α → (α → Prog ρ κ β) → Prog ρ κ β
  | .done result,rest => rest result
  | .invoke request next,rest => .invoke request fun reply => (next reply).bind rest

-- Every request the program may ever send, whatever it is answered.
inductive Prog.Only (good : ρ → Prop) : Prog ρ κ α → Prop where
  | done : Prog.Only good (.done result)
  | invoke : good request → (∀ reply, (next reply).Only good) → Prog.Only good (.invoke request next)

theorem Prog.Only.bind {rest : α → Prog ρ κ β} (first : Prog.Only good prog)
    (others : ∀ result, (rest result).Only good) : (Prog.bind prog rest).Only good := by
  induction first with
  | done => exact others _
  | invoke allowed _ ih => exact .invoke allowed ih

theorem Prog.Only.imp {prog : Prog ρ κ α} (only : prog.Only good) (weaker : ∀ request, good request → other request) :
    prog.Only other := by
  induction only with
  | done => exact .done
  | invoke allowed _ ih => exact .invoke (weaker _ allowed) ih

-- One client alone. The choices are those of the store, one for each request.
def solo (exec : σ → ρ → χ → σ × κ) : σ → Prog ρ κ α → List χ → Option (σ × α)
  | store,.done result,[] => some (store,result)
  | store,.invoke request next,choice :: rest =>
    let (after,reply) := exec store request choice
    solo exec after (next reply) rest
  | _,_,_ => none

theorem solo_invoke {exec : σ → ρ → χ → σ × κ} {next : κ → Prog ρ κ α}
    (ran : solo exec store (.invoke request next) choices = some ended) :
    ∃ choice rest, choices = choice :: rest ∧
      solo exec (exec store request choice).1 (next (exec store request choice).2) rest = some ended := by
  cases choices with
  | nil => simp [solo] at ran
  | cons choice rest => exact ⟨choice,rest,rfl,ran⟩

theorem solo_bind {exec : σ → ρ → χ → σ × κ} {rest : α → Prog ρ κ β} (prog : Prog ρ κ α)
    (ran : solo exec store (prog.bind rest) choices = some ended) :
    ∃ left right middle result, choices = left ++ right ∧ solo exec store prog left = some (middle,result) ∧
      solo exec middle (rest result) right = some ended := by
  induction prog generalizing store choices with
  | done result => exact ⟨[],choices,store,result,rfl,rfl,ran⟩
  | invoke request next ih =>
    obtain ⟨choice,others,rfl,went⟩ := solo_invoke ran
    obtain ⟨left,right,middle,result,rfl,first,second⟩ := ih _ went
    exact ⟨choice :: left,right,middle,result,rfl,first,second⟩

-- The same with a choice for every moment: the client runs to its end.
def drive (exec : σ → ρ → χ → σ × κ) : σ → Prog ρ κ α → (Nat → χ) → σ × α
  | store,.done result,_ => (store,result)
  | store,.invoke request next,choose =>
    let (after,reply) := exec store request (choose 0)
    drive exec after (next reply) fun i => choose (i + 1)

def replies (exec : σ → ρ → χ → σ × κ) : σ → Prog ρ κ α → (Nat → χ) → List κ
  | _,.done _,_ => []
  | store,.invoke request next,choose =>
    let (after,reply) := exec store request (choose 0)
    reply :: replies exec after (next reply) fun i => choose (i + 1)

def requests (exec : σ → ρ → χ → σ × κ) : σ → Prog ρ κ α → (Nat → χ) → List ρ
  | _,.done _,_ => []
  | store,.invoke request next,choose =>
    let (after,reply) := exec store request (choose 0)
    request :: requests exec after (next reply) fun i => choose (i + 1)

-- What every request of a program keeps, a run of the program keeps.
theorem solo_invariant {exec : σ → ρ → χ → σ × κ} {prog : Prog ρ κ α} (Inv : σ → Prop) (only : prog.Only good)
    (keeps : ∀ store request choice, good request → Inv store → Inv (exec store request choice).1) (start : Inv store)
    (ran : solo exec store prog choices = some (after,result)) : Inv after := by
  induction only generalizing store choices with
  | done =>
    cases choices with
    | nil =>
      cases ran
      exact start
    | cons => cases ran
  | invoke allowed _ ih =>
    obtain ⟨choice,rest,rfl,went⟩ := solo_invoke ran
    exact ih _ (keeps _ _ choice allowed start) went

-- Any number of clients over one store: client `i` gets its next request served
-- as one atomic step. Finished clients stay in the pool and never move again.
def serve (exec : σ → ρ → χ → σ × κ) (store : σ) (pool : List (Prog ρ κ α)) (i : Nat) (choice : χ) :
    Option (σ × List (Prog ρ κ α) × ρ × κ) :=
  match pool[i]? with
  | some (.invoke request next) =>
    let (after,reply) := exec store request choice
    some (after,pool.set i (next reply),request,reply)
  | _ => none

theorem serve_parts {exec : σ → ρ → χ → σ × κ}
    (served : serve exec store pool i choice = some (after,rest,request,reply)) :
    ∃ next : κ → Prog ρ κ α, pool[i]? = some (.invoke request next) ∧
      exec store request choice = (after,reply) ∧ rest = pool.set i (next reply) := by
  unfold serve at served
  split at served
  · rename_i asked next found
    cases ran : exec store asked choice with
    | mk stored answer =>
      simp only [ran,Option.some.injEq,Prod.mk.injEq] at served
      obtain ⟨rfl,rfl,rfl,rfl⟩ := served
      exact ⟨next,found,ran,rfl⟩
  · cases served

theorem serve_only {exec : σ → ρ → χ → σ × κ} (all : ∀ prog ∈ pool, Prog.Only good prog)
    (served : serve exec store pool i choice = some (after,(rest : List (Prog ρ κ α)),request,reply)) :
    good request ∧ ∀ prog ∈ rest, Prog.Only good prog := by
  obtain ⟨next,found,_,rfl⟩ := serve_parts served
  cases all _ (List.mem_of_getElem? found) with
  | invoke allowed others =>
    refine ⟨allowed,?_⟩
    intro prog member
    rcases List.mem_or_eq_of_mem_set member with old | rfl
    · exact all prog old
    · exact others reply

-- A pool that anybody may join: a client starts, or one that has started is served.
inductive Joining (ρ κ α χ : Type) where
  | start (prog : Prog ρ κ α)
  | serve (i : Nat) (choice : χ)

def pooled (exec : σ → ρ → χ → σ × κ) : Advance (σ × List (Prog ρ κ α)) (Joining ρ κ α χ) (ρ × κ)
  | (store,pool),.start prog => some ((store,pool ++ [prog]),[])
  | (store,pool),.serve i choice =>
    (serve exec store pool i choice).map fun (after,rest,request,reply) => ((after,rest),[(request,reply)])

def Joining.Admits (admits : Prog ρ κ α → Prop) : Joining ρ κ α χ → Prop
  | .start prog => admits prog
  | .serve _ _ => True

-- What every admissible request keeps, the whole pool keeps.
theorem pooled_invariant {exec : σ → ρ → χ → σ × κ} {admits : Prog ρ κ α → Prop} {good : ρ → Prop} {last : σ × List (Prog ρ κ α)}
    (Inv : σ → Prop) (asks : ∀ prog, admits prog → prog.Only good)
    (keeps : ∀ store request choice, good request → Inv store → Inv (exec store request choice).1)
    (start : Inv store) (path : Runs (pooled exec) (store,[]) moves last)
    (admitted : ∀ move ∈ moves, move.action.Admits admits) : Inv last.1 := by
  have both : Inv last.1 ∧ ∀ prog ∈ last.2, prog.Only good := by
    refine path.guarded (fun s => Inv s.1 ∧ ∀ prog ∈ s.2, prog.Only good) (fun _ action => action.Admits admits)
      admitted ⟨start,by simp⟩ ?_
    intro s action next seen sound allowed stepped
    obtain ⟨store,pool⟩ := s
    cases action with
    | start prog =>
      cases stepped
      refine ⟨sound.1,fun other member => ?_⟩
      rcases List.mem_append.mp member with old | new
      · exact sound.2 other old
      · rw [List.mem_singleton.mp new]
        exact asks prog allowed
    | serve i choice =>
      obtain ⟨⟨after,rest,request,reply⟩,served,same⟩ := Option.map_eq_some_iff.mp stepped
      cases same
      obtain ⟨asked,others⟩ := serve_only sound.2 served
      obtain ⟨_,_,ran,_⟩ := serve_parts served
      refine ⟨?_,others⟩
      have kept := keeps store request choice asked sound.1
      rwa [ran] at kept
  exact both.1

-- One client between the steps of everybody else. Only the client's own
-- requests are observed; `others` is whatever the rest of the world may do.
inductive Turn (χ ε : Type) where
  | own (choice : χ)
  | other (event : ε)

def Turn.isOwn : Turn χ ε → Bool
  | .own _ => true
  | .other _ => false

def among (exec : σ → ρ → χ → σ × κ) (others : σ → ε → Option σ) :
    Advance (σ × Prog ρ κ α) (Turn χ ε) (ρ × κ)
  | (store,.invoke request next),.own choice =>
    let (after,reply) := exec store request choice
    some ((after,next reply),[(request,reply)])
  | (_,.done _),.own _ => none
  | (store,prog),.other event => (others store event).map fun after => ((after,prog),[])

theorem among_cases {exec : σ → ρ → χ → σ × κ} {others : σ → ε → Option σ}
    {s next : σ × Prog ρ κ α} (stepped : among exec others s turn = some (next,seen)) :
    (∃ choice request rest after reply, turn = .own choice ∧ s.2 = .invoke request rest ∧
      exec s.1 request choice = (after,reply) ∧ next = (after,rest reply)) ∨
    (∃ event after, turn = .other event ∧ others s.1 event = some after ∧ next = (after,s.2)) := by
  obtain ⟨store,prog⟩ := s
  cases turn with
  | own choice =>
    cases prog with
    | done result => simp [among] at stepped
    | invoke request rest =>
      cases ran : exec store request choice with
      | mk after reply =>
        simp only [among,ran,Option.some.injEq,Prod.mk.injEq] at stepped
        exact .inl ⟨choice,request,rest,after,reply,rfl,rfl,ran,stepped.1.symm⟩
  | other event =>
    simp only [among,Option.map_eq_some_iff] at stepped
    obtain ⟨after,moved,same⟩ := stepped
    cases same
    exact .inr ⟨event,after,rfl,moved,rfl⟩

-- A probing client: it asks until one answer is accepted and then stops at once
-- with the result of that answer; with nothing accepted it ends in a failure.
inductive Probing (asks : ρ → Prop) (accept : κ → Option α) (failed : α → Prop) :
    Prog ρ κ α → Prop where
  | done : failed result → Probing asks accept failed (.done result)
  | invoke : asks request → (∀ reply result, accept reply = some result → next reply = .done result) →
      (∀ reply, accept reply = none → Probing asks accept failed (next reply)) →
      Probing asks accept failed (.invoke request next)

section Once
variable {exec : σ → ρ → χ → σ × κ} {others : σ → ε → Option σ} {asks : ρ → Prop}
  {accept : κ → Option α} {failed : α → Prop} {Good : σ → Prop} {Effect : σ → α → σ → Prop}

abbrev Step (σ ρ κ α χ ε : Type) := Move (σ × Prog ρ κ α) (Turn χ ε) (ρ × κ)

-- None of the client's own steps in `moves` changed the store.
def Idle (moves : List (Step σ ρ κ α χ ε)) : Prop :=
  ∀ move ∈ moves, move.action.isOwn = true → move.after.1 = move.before.1

-- Exactly one own step changed the store, with effect `Effect` for `result`.
def Once (Effect : σ → α → σ → Prop) (moves : List (Step σ ρ κ α χ ε)) (result : α) : Prop :=
  ∃ earlier move later, moves = earlier ++ move :: later ∧ move.action.isOwn = true ∧
    Effect move.before.1 result move.after.1 ∧ Idle (earlier ++ later)

theorem Idle.snoc (quiet : Idle moves) (same : last.action.isOwn = true → last.after.1 = last.before.1) :
    Idle (moves ++ [last] : List (Step σ ρ κ α χ ε)) := by
  intro move member own
  rcases List.mem_append.mp member with old | new
  · exact quiet move old own
  · cases List.mem_singleton.mp new
    exact same own

theorem Once.snoc (once : Once Effect moves result) (other : last.action.isOwn = false) :
    Once Effect (moves ++ [last] : List (Step σ ρ κ α χ ε)) result := by
  obtain ⟨earlier,move,later,rfl,own,effect,quiet⟩ := once
  refine ⟨earlier,move,later ++ [last],by simp,own,effect,?_⟩
  rw [← List.append_assoc]
  exact quiet.snoc fun claimed => absurd claimed (by simp [other])

-- The induction behind every all-or-nothing statement. The invariant has two
-- phases: still probing with nothing changed, or stopped after the one change.
theorem probing_once (asked : Probing asks accept failed prog) (start : Good store)
    (worldGood : ∀ s event after, Good s → others s event = some after → Good after)
    (rejected : ∀ s request choice after reply, Good s → asks request →
      exec s request choice = (after,reply) → accept reply = none → after = s)
    (accepted : ∀ s request choice after reply result, Good s → asks request →
      exec s request choice = (after,reply) → accept reply = some result → Effect s result after)
    (path : Runs (among exec others) (store,prog) moves last) :
    (Good last.1 ∧ Probing asks accept failed last.2 ∧ Idle moves) ∨
      ∃ result, last.2 = .done result ∧ Once Effect moves result := by
  induction path with
  | nil => exact .inl ⟨start,asked,fun _ member => absurd member (by simp)⟩
  | @step earlier middle action after seen prior stepped ih =>
    rcases ih with ⟨good,probing,quiet⟩ | ⟨result,stopped,once⟩
    · rcases among_cases stepped with ⟨choice,request,rest,stored,reply,rfl,here,ran,rfl⟩ |
        ⟨event,stored,rfl,moved,rfl⟩
      · rw [here] at probing
        cases probing with
        | invoke allowed stops continues =>
          cases verdict : accept reply with
          | none =>
            have same := rejected _ _ _ _ _ good allowed ran verdict
            exact .inl ⟨same ▸ good,continues reply verdict,quiet.snoc fun _ => same⟩
          | some result =>
            exact .inr ⟨result,stops reply result verdict,earlier,_,[],rfl,rfl,
              accepted _ _ _ _ _ _ good allowed ran verdict,by simpa using quiet⟩
      · exact .inl ⟨worldGood _ _ _ good moved,probing,quiet.snoc fun own => absurd own (by simp [Turn.isOwn])⟩
    · rcases among_cases stepped with ⟨choice,request,rest,stored,reply,rfl,here,ran,rfl⟩ |
        ⟨event,stored,rfl,moved,rfl⟩
      · rw [stopped] at here
        cases here
      · exact .inr ⟨result,stopped,once.snoc rfl⟩

end Once
end DbosScheduler.Client
