import Mathlib.Data.List.Basic

namespace DbosScheduler.Sites

-- A log of actions, each of which has a site: what it does to the state can be seen in
-- the piece of the state at its site, and nowhere else.
variable {σ τ α ρ ι : Type} [DecidableEq ι]

def perform (step : α → σ → σ × ρ) : List α → σ → σ × List (α × ρ)
  | [],s => (s,[])
  | action :: rest,s =>
    let (next,reply) := step action s
    let (last,replies) := perform step rest next
    (last,(action,reply) :: replies)

structure Local (step : α → σ → σ × ρ) (inner : α → τ → τ × ρ) (piece : ι → σ → τ) (site : α → ι) : Prop where
  own : ∀ action s, piece (site action) (step action s).1 = (inner action (piece (site action) s)).1
  reply : ∀ action s, (step action s).2 = (inner action (piece (site action) s)).2
  others : ∀ action s i, i ≠ site action → piece i (step action s).1 = piece i s

variable {step : α → σ → σ × ρ} {inner : α → τ → τ × ρ} {piece : ι → σ → τ} {site : α → ι}

-- What happens at a site is what its own actions do there.
theorem Local.at_site (law : Local step inner piece site) (log : List α) (s : σ) (i : ι) :
    piece i (perform step log s).1 = (perform inner (log.filter fun action => site action = i) (piece i s)).1 ∧
      ((perform step log s).2.filter fun entry => site entry.1 = i) =
        (perform inner (log.filter fun action => site action = i) (piece i s)).2 := by
  induction log generalizing s with
  | nil => exact ⟨rfl,rfl⟩
  | cons action rest ih =>
    obtain ⟨state,replies⟩ := ih (step action s).1
    by_cases here : site action = i
    · have own := law.own action s
      have reply := law.reply action s
      rw [here] at own reply
      simp only [perform,List.filter_cons,here,decide_true,if_true]
      rw [← own,← reply]
      exact ⟨state,congrArg _ replies⟩
    · have others := law.others action s i (Ne.symm here)
      rw [others] at state replies
      simp only [perform,List.filter_cons,here,decide_false,Bool.false_eq_true,if_false]
      exact ⟨state,replies⟩

-- Two orders of the same work that agree at every site cannot be told apart at any.
theorem Local.order_free (law : Local step inner piece site) {left right : List α} (s : σ)
    (same : ∀ i, (left.filter fun action => site action = i) = right.filter fun action => site action = i) (i : ι) :
    piece i (perform step left s).1 = piece i (perform step right s).1 ∧
      ((perform step left s).2.filter fun entry => site entry.1 = i) =
        (perform step right s).2.filter fun entry => site entry.1 = i := by
  obtain ⟨leftState,leftReplies⟩ := law.at_site left s i
  obtain ⟨rightState,rightReplies⟩ := law.at_site right s i
  rw [leftState,rightState,leftReplies,rightReplies,same i]
  exact ⟨rfl,rfl⟩

-- Rows that are the same piece by piece are the same rows.
theorem perm_of_pieces {β : Type} [DecidableEq β] {left right : List β} (key : β → ι)
    (same : ∀ i, (left.filter fun row => key row = i) = right.filter fun row => key row = i) : left.Perm right := by
  rw [List.perm_iff_count]
  intro row
  have counted (rows : List β) : (rows.filter fun other => key other = key row).count row = rows.count row :=
    List.count_filter (by simp)
  rw [← counted left,same (key row),counted right]

end DbosScheduler.Sites
