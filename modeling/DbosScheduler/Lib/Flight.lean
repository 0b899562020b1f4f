import DbosScheduler.Lib.Machine

namespace DbosScheduler.Flights
open Machine

variable {σ ρ κ χ : Type}

-- Requests that were sent to a shared store without waiting: some have not been carried
-- out yet, some have, and their replies have not been looked at.
structure Flight (σ ρ κ : Type) where
  store : σ
  waiting : List ρ
  arrived : List κ

namespace Flight

def issue (f : Flight σ ρ κ) (request : ρ) : Flight σ ρ κ := {f with waiting:=f.waiting ++ [request]}

-- The store takes the requests in any order.
def execute (exec : σ → ρ → χ → σ × κ) (f : Flight σ ρ κ) (i : Nat) (choice : χ) : Option (Flight σ ρ κ) :=
  f.waiting[i]?.map fun request =>
    ⟨(exec f.store request choice).1,f.waiting.eraseIdx i,f.arrived ++ [(exec f.store request choice).2]⟩

-- Somebody else's request.
def disturb (exec : σ → ρ → χ → σ × κ) (f : Flight σ ρ κ) (request : ρ) (choice : χ) : Flight σ ρ κ :=
  {f with store:=(exec f.store request choice).1}

-- The replies are looked at in any order.
def take (f : Flight σ ρ κ) (i : Nat) : Option (κ × Flight σ ρ κ) :=
  f.arrived[i]?.map fun reply => (reply,{f with arrived:=f.arrived.eraseIdx i})

def inFlight (f : Flight σ ρ κ) : Nat := f.waiting.length + f.arrived.length

variable {exec : σ → ρ → χ → σ × κ} {f next : Flight σ ρ κ}

@[simp] theorem inFlight_issue (f : Flight σ ρ κ) (request : ρ) : (f.issue request).inFlight = f.inFlight + 1 := by
  simp only [inFlight,issue,List.length_append,List.length_singleton]
  omega

theorem execute_parts (executed : f.execute exec i choice = some next) :
    ∃ request, f.waiting[i]? = some request ∧ next.waiting = f.waiting.eraseIdx i ∧
      next.store = (exec f.store request choice).1 ∧ next.arrived = f.arrived ++ [(exec f.store request choice).2] := by
  obtain ⟨request,found,rfl⟩ := Option.map_eq_some_iff.mp executed
  exact ⟨request,found,rfl,rfl,rfl⟩

theorem take_parts (taken : f.take i = some (reply,next)) :
    f.arrived[i]? = some reply ∧ next = {f with arrived:=f.arrived.eraseIdx i} := by
  obtain ⟨found,same,pair⟩ := Option.map_eq_some_iff.mp taken
  cases pair
  exact ⟨same,rfl⟩

theorem inFlight_execute (executed : f.execute exec i choice = some next) : next.inFlight = f.inFlight := by
  obtain ⟨request,found,waiting,_,arrived⟩ := execute_parts executed
  obtain ⟨inside,_⟩ := List.getElem?_eq_some_iff.mp found
  rw [inFlight,inFlight,waiting,arrived,List.length_eraseIdx_of_lt inside,List.length_append,List.length_singleton]
  omega

theorem inFlight_take (taken : f.take i = some (reply,next)) : next.inFlight + 1 = f.inFlight := by
  obtain ⟨found,rfl⟩ := take_parts taken
  obtain ⟨inside,_⟩ := List.getElem?_eq_some_iff.mp found
  rw [inFlight,inFlight,List.length_eraseIdx_of_lt inside]
  dsimp only
  omega

-- Replies that all come from one kind of request are all of one kind.
structure Kind (sent : ρ → Prop) (answer : κ → Prop) (f : Flight σ ρ κ) : Prop where
  waiting : ∀ request ∈ f.waiting, sent request
  arrived : ∀ reply ∈ f.arrived, answer reply

variable {sent : ρ → Prop} {answer : κ → Prop}

theorem Kind.execute (kind : Kind sent answer f) (executed : f.execute exec i choice = some next)
    (answers : ∀ store request, sent request → answer (exec store request choice).2) : Kind sent answer next := by
  obtain ⟨request,found,waiting,_,arrived⟩ := execute_parts executed
  constructor
  · intro other member
    rw [waiting] at member
    exact kind.waiting other (List.mem_of_mem_eraseIdx member)
  · intro reply member
    rw [arrived] at member
    rcases List.mem_append.mp member with earlier | last
    · exact kind.arrived reply earlier
    · rw [List.mem_singleton.mp last]
      exact answers f.store request (kind.waiting request (List.mem_of_getElem? found))

theorem Kind.take (kind : Kind sent answer f) (taken : f.take i = some (reply,next)) :
    answer reply ∧ Kind sent answer next := by
  obtain ⟨found,rfl⟩ := take_parts taken
  exact ⟨kind.arrived reply (List.mem_of_getElem? found),kind.waiting,
    fun other member => kind.arrived other (List.mem_of_mem_eraseIdx member)⟩

end Flight

-- What may happen until everything has been answered and every answer looked at.
inductive Act (ρ χ : Type) where
  | execute (i : Nat) (choice : χ)
  | look (i : Nat)
  | disturb (request : ρ) (choice : χ)

inductive Seen (σ κ : Type) where
  | executed (before after : σ)
  | looked (reply : κ)

def settling (exec : σ → ρ → χ → σ × κ) : Advance (Flight σ ρ κ) (Act ρ χ) (Seen σ κ)
  | f,.execute i choice => (f.execute exec i choice).map fun next => (next,[.executed f.store next.store])
  | f,.look i => (f.take i).map fun taken => (taken.2,[.looked taken.1])
  | f,.disturb request choice => some (f.disturb exec request choice,[])

structure Flight.Settled (f : Flight σ ρ κ) : Prop where
  waiting : f.waiting = []
  arrived : f.arrived = []

variable {exec : σ → ρ → χ → σ × κ}

-- Every event of a run, when all requests are of one kind.
def Seen.Fits (change : σ → σ → Prop) (answer : κ → Prop) : Seen σ κ → Prop
  | .executed before after => change before after
  | .looked reply => answer reply

theorem settling_fits (sent : ρ → Prop) (answer : κ → Prop) (change : σ → σ → Prop)
    (path : Runs (settling exec) origin moves last) (kind : origin.Kind sent answer)
    (answers : ∀ store request choice, sent request →
      change store (exec store request choice).1 ∧ answer (exec store request choice).2) :
    ∀ event ∈ observed moves, event.Fits change answer := by
  have both := path.past (fun past f => (∀ event ∈ past, event.Fits change answer) ∧ f.Kind sent answer) ⟨by simp,kind⟩ ?_
  · exact both.1
  intro past f act next seen holds stepped
  obtain ⟨fits,here⟩ := holds
  cases act with
  | execute i choice =>
    obtain ⟨after,executed,same⟩ := Option.map_eq_some_iff.mp stepped
    cases same
    obtain ⟨request,found,_,store,_⟩ := Flight.execute_parts executed
    have asked := here.waiting request (List.mem_of_getElem? found)
    refine ⟨?_,here.execute executed fun store request asked => (answers store request choice asked).2⟩
    intro event member
    rcases List.mem_append.mp member with earlier | now
    · exact fits event earlier
    · rw [List.mem_singleton.mp now]
      have changed := (answers f.store request choice asked).1
      rwa [← store] at changed
  | look i =>
    obtain ⟨⟨reply,after⟩,taken,same⟩ := Option.map_eq_some_iff.mp stepped
    cases same
    obtain ⟨answered,kept⟩ := here.take taken
    refine ⟨?_,kept⟩
    intro event member
    rcases List.mem_append.mp member with earlier | now
    · exact fits event earlier
    · rw [List.mem_singleton.mp now]
      exact answered
  | disturb request choice =>
    cases stepped
    refine ⟨?_,here.waiting,here.arrived⟩
    rwa [List.append_nil]

-- Whatever is in flight can be settled: the budget is one execution and one look for a
-- request, and one look for a reply.
theorem settles (exec : σ → ρ → χ → σ × κ) (choice : χ) (budget : Nat) (f : Flight σ ρ κ)
    (enough : 2 * f.waiting.length + f.arrived.length ≤ budget) :
    ∃ moves last, Runs (settling exec) f moves last ∧ last.Settled := by
  induction budget generalizing f with
  | zero =>
    refine ⟨[],f,.nil,List.length_eq_zero_iff.mp ?_,List.length_eq_zero_iff.mp ?_⟩
    · omega
    · omega
  | succ budget ih =>
    cases waiting : f.waiting with
    | cons request rest =>
      have stepped : settling exec f (.execute 0 choice) = some (⟨(exec f.store request choice).1,rest,
          f.arrived ++ [(exec f.store request choice).2]⟩,[.executed f.store (exec f.store request choice).1]) := by
        simp [settling,Flight.execute,waiting]
      have fewer : 2 * rest.length + (f.arrived ++ [(exec f.store request choice).2]).length ≤ budget := by
        rw [waiting,List.length_cons] at enough
        rw [List.length_append,List.length_singleton]
        omega
      obtain ⟨moves,last,path,settled⟩ := ih ⟨_,rest,f.arrived ++ [_]⟩ fewer
      exact ⟨_,last,(Runs.step .nil stepped).append path,settled⟩
    | nil =>
      cases arrived : f.arrived with
      | nil => exact ⟨[],f,.nil,waiting,arrived⟩
      | cons reply rest =>
        have stepped : settling exec f (.look 0) = some ({f with arrived:=rest},[.looked reply]) := by
          simp [settling,Flight.take,arrived]
        have fewer : 2 * f.waiting.length + rest.length ≤ budget := by
          rw [arrived,List.length_cons] at enough
          omega
        obtain ⟨moves,last,path,settled⟩ := ih {f with arrived:=rest} fewer
        exact ⟨_,last,(Runs.step .nil stepped).append path,settled⟩

end DbosScheduler.Flights
