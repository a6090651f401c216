import Mathlib.Data.List.Basic
import Mathlib.Order.Defs.PartialOrder

/-!
# Timed calls one after another

A component is given by what a call at some time answers and leaves.  `answers` collects what a list
of timed calls answers.  A `Simulation` relates two components as of a time: it survives the passing
of time, a call that the second component does not have answers nothing and keeps it, and the others
answer the same.  So the answers are the same for calls in the order of time
(`Simulation.answers_eq`).
-/

namespace TimedRun

variable {T σ τ α β α' β' : Type*}

/-- What the calls answer. -/
def answers (step : σ → T → α → Option β × σ) : σ → List (T × α) → List β
  | _, [] => []
  | s, (t, a) :: calls => (step s t a).1.toList ++ answers step (step s t a).2 calls

/-- The calls that both components have. -/
def shared (abs : α → Option α') (calls : List (T × α)) : List (T × α') :=
  calls.filterMap fun c => (abs c.2).map fun a => (c.1, a)

/-- `R t` relates the states of two components at the time `t`, for calls with `P`. -/
structure Simulation [Preorder T] (step : σ → T → α → Option β × σ)
    (step' : τ → T → α' → Option β' × τ) (abs : α → Option α') (f : β' → β) (P : α → Prop)
    (R : T → σ → τ → Prop) : Prop where
  later : ∀ {t u s s'}, t ≤ u → R t s s' → R u s s'
  hidden : ∀ {t s s' a}, R t s s' → abs a = none →
    (step s t a).1 = none ∧ R t (step s t a).2 s'
  visible : ∀ {t s s' a a'}, P a → R t s s' → abs a = some a' →
    (step s t a).1 = (step' s' t a').1.map f ∧ R t (step s t a).2 (step' s' t a').2

variable [Preorder T] {step : σ → T → α → Option β × σ} {step' : τ → T → α' → Option β' × τ}
  {abs : α → Option α'} {f : β' → β} {P : α → Prop} {R : T → σ → τ → Prop}

theorem Simulation.answers_eq (h : Simulation step step' abs f P R) {calls : List (T × α)}
    {t : T} {s : σ} {s' : τ} (hsorted : (t :: calls.map Prod.fst).Pairwise (· ≤ ·))
    (hP : ∀ c ∈ calls, P c.2) (hR : R t s s') :
    answers step s calls = (answers step' s' (shared abs calls)).map f := by
  induction calls generalizing t s s' with
  | nil => rfl
  | cons c calls ih =>
    obtain ⟨u, a⟩ := c
    rw [List.map_cons, List.pairwise_cons] at hsorted
    have hu : R u s s' := h.later (hsorted.1 u List.mem_cons_self) hR
    have hrest := fun c hc => hP c (List.mem_cons_of_mem _ hc)
    cases habs : abs a with
    | none =>
      -- only the first component makes this call
      obtain ⟨hnone, hnext⟩ := h.hidden hu habs
      have hshared : shared abs ((u, a) :: calls) = shared abs calls := by
        simp [shared, habs]
      rw [answers, hnone, hshared, ih hsorted.2 hrest hnext]
      rfl
    | some a' =>
      obtain ⟨hsame, hnext⟩ := h.visible (hP _ List.mem_cons_self) hu habs
      have hshared : shared abs ((u, a) :: calls) = (u, a') :: shared abs calls := by
        simp [shared, habs]
      rw [answers, hshared, answers, hsame, ih hsorted.2 hrest hnext, List.map_append]
      cases (step' s' u a').1 with
      | none => rfl
      | some b => rfl

end TimedRun
