import Mathlib.Data.List.Basic
import Mathlib.Tactic.TypeStar

/-!
# Labelled transition systems with a partial step function

A system is a function `step : σ → α → Option σ`: `step s a = some s'` when the action `a` is
enabled in `s` and leads to `s'`.  `Run step init tr s` is a finite run from `init` to `s`; its
trace `tr` lists every step with the states before and after it, so that properties of whole runs
(what happened earlier, how often, in which order) are properties of a list; `Throughout` is such a
property of each step and the steps before it, and `lastUnder` the last value that a trace has under a
key.

The proof rules are `Run.invariant` (an inductive invariant holds in every reached state),
`Run.invariant_of_moves` (the same along runs whose steps all meet a side condition),
`Run.history` and `Run.history_of_moves` (an invariant that also speaks about the trace) and
`Reachable.simulate` (invariants move from an abstract system to a concrete one).
-/

namespace TransitionSystem

/-- One step of a run: the state before, the action taken, the state after. -/
structure Move (σ α : Type*) where
  /-- The state in which the action is taken. -/
  pre : σ
  /-- The action. -/
  act : α
  /-- The state it leads to. -/
  post : σ

variable {σ τ α β : Type*}

/-- `Run step init tr s`: the steps of `tr`, in order, lead from `init` to `s`. -/
inductive Run (step : σ → α → Option σ) (init : σ) : List (Move σ α) → σ → Prop
  | start : Run step init [] init
  | snoc {tr : List (Move σ α)} {s s' : σ} {a : α} (run : Run step init tr s)
      (hstep : step s a = some s') : Run step init (tr ++ [⟨s, a, s'⟩]) s'

/-- `s` is the last state of some run. -/
def Reachable (step : σ → α → Option σ) (init s : σ) : Prop :=
  ∃ tr, Run step init tr s

/-- Take the actions one after the other until one of them is not enabled: the steps taken, and the
state they lead to. -/
def runFrom (step : σ → α → Option σ) : σ → List α → List (Move σ α) × σ
  | s, [] => ([], s)
  | s, a :: as =>
    match step s a with
    | none => ([], s)
    | some s' => (⟨s, a, s'⟩ :: (runFrom step s' as).1, (runFrom step s' as).2)

variable {step : σ → α → Option σ} {init s s' : σ} {tr tr' : List (Move σ α)}

/-! ### Building runs -/

theorem Run.trans (h : Run step init tr s) (h' : Run step s tr' s') :
    Run step init (tr ++ tr') s' := by
  induction h' with
  | start => simpa using h
  | snoc _ hstep ih =>
    rw [← List.append_assoc]
    exact ih.snoc hstep

theorem run_runFrom (s : σ) (as : List α) :
    Run step s (runFrom step s as).1 (runFrom step s as).2 := by
  induction as generalizing s with
  | nil => exact .start
  | cons a as ih =>
    rw [runFrom]
    split
    · exact .start
    · rename_i s' hs
      exact (Run.start.snoc hs).trans (ih s')

theorem act_mem_of_mem_runFrom {m : Move σ α} {as : List α} (h : m ∈ (runFrom step s as).1) :
    m.act ∈ as := by
  induction as generalizing s with
  | nil => contradiction
  | cons a as ih =>
    rw [runFrom] at h
    split at h
    · contradiction
    · rcases List.mem_cons.mp h with rfl | h
      · exact List.mem_cons_self
      · exact List.mem_cons_of_mem _ (ih h)

theorem Reachable.refl : Reachable step init init := ⟨[], .start⟩

theorem Reachable.next {a : α} (h : Reachable step init s) (hs : step s a = some s') :
    Reachable step init s' := by
  obtain ⟨tr, hrun⟩ := h
  exact ⟨_, hrun.snoc hs⟩

theorem reachable_runFrom (s : σ) (as : List α) : Reachable step s (runFrom step s as).2 :=
  ⟨_, run_runFrom s as⟩

/-! ### Invariants -/

/-- An invariant may mention the trace: it holds of the empty trace, and each step extends it.  The
steps of the run may be known to meet the side condition `G`. -/
theorem Run.history_of_moves {P : List (Move σ α) → σ → Prop} {G : Move σ α → Prop} (h0 : P [] init)
    (hs : ∀ tr s a s', Run step init tr s → P tr s → step s a = some s' → G ⟨s, a, s'⟩ →
      P (tr ++ [⟨s, a, s'⟩]) s')
    (h : Run step init tr s) (hG : ∀ m ∈ tr, G m) : P tr s := by
  induction h with
  | start => exact h0
  | snoc run hstep ih =>
    rw [List.forall_mem_append, List.forall_mem_singleton] at hG
    exact hs _ _ _ _ run (ih hG.1) hstep hG.2

theorem Run.history {P : List (Move σ α) → σ → Prop} (h0 : P [] init)
    (hs : ∀ tr s a s', Run step init tr s → P tr s → step s a = some s' →
      P (tr ++ [⟨s, a, s'⟩]) s')
    (h : Run step init tr s) : P tr s :=
  h.history_of_moves (G := fun _ => True) h0
    (fun tr s a s' run hP hstep _ => hs tr s a s' run hP hstep) fun _ _ => trivial

/-- An inductive invariant holds in every state a run reaches. -/
theorem Run.invariant {I : σ → Prop} (h0 : I init)
    (hs : ∀ s a s', I s → step s a = some s' → I s') (h : Run step init tr s) : I s :=
  h.history (P := fun _ s => I s) h0 fun _ s a s' _ hI hstep => hs s a s' hI hstep

theorem Reachable.invariant {I : σ → Prop} (h0 : I init)
    (hs : ∀ s a s', I s → step s a = some s' → I s') (h : Reachable step init s) : I s := by
  obtain ⟨tr, hrun⟩ := h
  exact hrun.invariant h0 hs

/-- An invariant of the runs all of whose steps meet the side condition `G`. -/
theorem Run.invariant_of_moves {I : σ → Prop} {G : Move σ α → Prop} (h0 : I init)
    (hs : ∀ s a s', Reachable step init s → I s → step s a = some s' → G ⟨s, a, s'⟩ → I s')
    (h : Run step init tr s) (hG : ∀ m ∈ tr, G m) : I s :=
  h.history_of_moves (P := fun _ s => I s) h0
    (fun tr s a s' run hI hstep hm => hs s a s' ⟨tr, run⟩ hI hstep hm) hG

/-- Some step of a run that goes on by one. -/
theorem exists_mem_snoc {Q : Move σ α → Prop} {m : Move σ α} :
    (∃ m' ∈ tr ++ [m], Q m') ↔ (∃ m' ∈ tr, Q m') ∨ Q m := by
  simp [or_and_right, exists_or]

/-- The later part of a run is a run from the state that the earlier part reaches. -/
theorem Run.of_append (h : Run step init (tr ++ tr') s) :
    ∃ s', Run step init tr s' ∧ Run step s' tr' s := by
  generalize htr : tr ++ tr' = whole at h
  induction h generalizing tr' with
  | start =>
    obtain ⟨rfl, rfl⟩ := List.append_eq_nil_iff.mp htr
    exact ⟨_, .start, .start⟩
  | @snoc whole s s' a run hstep ih =>
    rcases List.eq_nil_or_concat tr' with rfl | ⟨tr', m, rfl⟩
    · rw [List.append_nil] at htr
      rw [htr]
      exact ⟨_, run.snoc hstep, .start⟩
    · rw [List.concat_eq_append, ← List.append_assoc] at htr
      obtain ⟨rfl, hm⟩ := List.append_inj' htr rfl
      obtain ⟨s₁, hrun, hrun'⟩ := ih rfl
      obtain rfl := List.singleton_injective hm
      rw [List.concat_eq_append]
      exact ⟨s₁, hrun, hrun'.snoc hstep⟩

/-- What follows a step of a run is a run from the state that the step leads to. -/
theorem Run.after {m : Move σ α} (h : Run step init (tr ++ m :: tr') s) :
    Run step m.post tr' s := by
  generalize htr : tr ++ m :: tr' = whole at h
  induction h generalizing tr' with
  | start => simp at htr
  | @snoc whole s s' a run hstep ih =>
    rcases List.eq_nil_or_concat tr' with rfl | ⟨tr', m', rfl⟩
    · obtain ⟨-, hm⟩ := List.append_inj' htr rfl
      obtain rfl := List.singleton_injective hm
      exact .start
    · rw [List.concat_eq_append, ← List.cons_append, ← List.append_assoc] at htr
      obtain ⟨hwhole, hm'⟩ := List.append_inj' htr rfl
      obtain rfl := List.singleton_injective hm'
      rw [List.concat_eq_append]
      exact (ih hwhole).snoc hstep

/-- Every step of a run is a step of the system, taken in the state the earlier steps reach. -/
theorem Run.split {tr₁ tr₂ : List (Move σ α)} {m : Move σ α}
    (h : Run step init (tr₁ ++ m :: tr₂) s) :
    Run step init tr₁ m.pre ∧ step m.pre m.act = some m.post := by
  generalize htr : tr₁ ++ m :: tr₂ = tr at h
  induction h generalizing tr₂ with
  | start => simp at htr
  | @snoc tr s s' a run hstep ih =>
    rcases List.eq_nil_or_concat tr₂ with rfl | ⟨tr₃, m', rfl⟩
    · obtain ⟨rfl, hm⟩ := List.append_inj' htr rfl
      obtain rfl := List.singleton_inj.mp hm
      exact ⟨run, hstep⟩
    · rw [List.concat_eq_append, ← List.cons_append, ← List.append_assoc] at htr
      exact ih (List.append_inj' htr rfl).1

theorem Run.step_of_mem {m : Move σ α} (h : Run step init tr s) (hm : m ∈ tr) :
    Reachable step init m.pre ∧ step m.pre m.act = some m.post := by
  obtain ⟨tr₁, tr₂, rfl⟩ := List.append_of_mem hm
  exact ⟨⟨tr₁, h.split.1⟩, h.split.2⟩

/-! ### Properties of steps that look back -/

/-- `Q` holds of every step of the trace, given the steps before it. -/
def Throughout (Q : List (Move σ α) → Move σ α → Prop) (tr : List (Move σ α)) : Prop :=
  ∀ tr₁ m tr₂, tr = tr₁ ++ m :: tr₂ → Q tr₁ m

/-- Such a property of some of the steps, each with those among the steps before it. -/
theorem throughout_filter {Q : List (Move σ α) → Move σ α → Prop} {p : Move σ α → Bool}
    (h : Throughout (fun before m => p m = true → Q (before.filter p) m) tr) :
    Throughout Q (tr.filter p) := by
  intro tr₁ m tr₂ htr
  obtain ⟨before, rest, rfl, hbefore, hrest⟩ := List.filter_eq_append_iff.mp htr
  obtain ⟨skipped, after, rfl, hskipped, hm, -⟩ := List.filter_eq_cons_iff.mp hrest
  have hQ := h (before ++ skipped) m after (by simp) hm
  rwa [List.filter_append, List.filter_eq_nil_iff.mpr hskipped, List.append_nil, hbefore] at hQ

/-- Two such properties are the same for a run if they are the same for each step a run can take. -/
theorem Run.throughout_iff {Q Q' : List (Move σ α) → Move σ α → Prop} (h : Run step init tr s)
    (hQ : ∀ tr₁ m, Run step init tr₁ m.pre → step m.pre m.act = some m.post → (Q tr₁ m ↔ Q' tr₁ m)) :
    Throughout Q tr ↔ Throughout Q' tr := by
  have hiff : ∀ tr₁ m tr₂, tr = tr₁ ++ m :: tr₂ → (Q tr₁ m ↔ Q' tr₁ m) := by
    rintro tr₁ m tr₂ rfl
    exact hQ tr₁ m h.split.1 h.split.2
  constructor
  · intro hall tr₁ m tr₂ htr
    exact (hiff tr₁ m tr₂ htr).mp (hall tr₁ m tr₂ htr)
  · intro hall tr₁ m tr₂ htr
    exact (hiff tr₁ m tr₂ htr).mpr (hall tr₁ m tr₂ htr)

/-- A property of the steps alone. -/
theorem throughout_forall {Q : Move σ α → Prop} :
    Throughout (fun _ m => Q m) tr ↔ ∀ m ∈ tr, Q m := by
  constructor
  · intro h m hm
    obtain ⟨tr₁, tr₂, rfl⟩ := List.append_of_mem hm
    exact h tr₁ m tr₂ rfl
  · rintro h tr₁ m tr₂ rfl
    exact h m (List.mem_append_right _ List.mem_cons_self)

/-- The same, step by step: each step of the list with the steps before it and those of `before`. -/
def ThroughoutFrom (Q : List (Move σ α) → Move σ α → Prop) :
    List (Move σ α) → List (Move σ α) → Prop
  | _, [] => True
  | before, m :: tr => Q before m ∧ ThroughoutFrom Q (before ++ [m]) tr

theorem throughoutFrom_iff {Q : List (Move σ α) → Move σ α → Prop} {before : List (Move σ α)} :
    ThroughoutFrom Q before tr ↔ Throughout (fun tr₁ m => Q (before ++ tr₁) m) tr := by
  induction tr generalizing before with
  | nil =>
    constructor
    · intro _ tr₁ m tr₂ htr
      simp at htr
    · intro _
      trivial
  | cons m tr ih =>
    rw [ThroughoutFrom, ih]
    constructor
    · rintro ⟨hm, hall⟩ tr₁ n tr₂ htr
      cases tr₁ with
      | nil =>
        obtain ⟨rfl, -⟩ := List.cons.inj htr
        rwa [List.append_nil]
      | cons m₁ tr₁ =>
        obtain ⟨rfl, hrest⟩ := List.cons.inj htr
        simpa using hall tr₁ n tr₂ hrest
    · intro hall
      refine ⟨by simpa using hall [] m tr rfl, ?_⟩
      rintro tr₁ n tr₂ rfl
      simpa using hall (m :: tr₁) n tr₂ rfl

instance decidableThroughoutFrom (Q : List (Move σ α) → Move σ α → Prop)
    [∀ before m, Decidable (Q before m)] :
    ∀ before tr, Decidable (ThroughoutFrom Q before tr)
  | _, [] => .isTrue trivial
  | before, m :: tr =>
    have := decidableThroughoutFrom Q (before ++ [m]) tr
    inferInstanceAs (Decidable (Q before m ∧ ThroughoutFrom Q (before ++ [m]) tr))

instance (Q : List (Move σ α) → Move σ α → Prop) [∀ before m, Decidable (Q before m)]
    (tr : List (Move σ α)) : Decidable (Throughout Q tr) :=
  decidable_of_iff (ThroughoutFrom Q [] tr) throughoutFrom_iff

/-! ### The last value under a key -/

section LastUnder

variable {κ ν : Type*} [DecidableEq κ] {f : Move σ α → Option (κ × ν)} {m : Move σ α} {k : κ}
  {v : ν}

/-- What the last step that has a value under the key `k` has there. -/
def lastUnder (f : Move σ α → Option (κ × ν)) (tr : List (Move σ α)) (k : κ) : Option ν :=
  (((tr.filterMap f).filter fun e => e.1 = k).getLast?).map Prod.snd

theorem exists_of_lastUnder (h : lastUnder f tr k = some v) : ∃ m ∈ tr, f m = some (k, v) := by
  obtain ⟨e, he, rfl⟩ := Option.map_eq_some_iff.mp h
  obtain ⟨hmem, hkey⟩ := List.mem_filter.mp (List.mem_of_getLast? he)
  obtain ⟨m, hm, hfm⟩ := List.mem_filterMap.mp hmem
  rw [decide_eq_true_eq] at hkey
  exact ⟨m, hm, by rw [hfm, ← hkey]⟩

theorem lastUnder_snoc_of_none (h : f m = none) (k : κ) :
    lastUnder f (tr ++ [m]) k = lastUnder f tr k := by
  unfold lastUnder
  rw [List.filterMap_append, List.filterMap_cons_none h]
  simp

theorem lastUnder_snoc_of_some (h : f m = some (k, v)) (k' : κ) :
    lastUnder f (tr ++ [m]) k' = if k = k' then some v else lastUnder f tr k' := by
  unfold lastUnder
  rw [List.filterMap_append, List.filterMap_cons_some h, List.filter_append]
  by_cases hk : k = k'
  · rw [if_pos hk, List.filter_cons_of_pos (by simp [hk])]
    simp
  · rw [if_neg hk, List.filter_cons_of_neg (by simp [hk])]
    simp

end LastUnder

/-! ### Simulation -/

/-- If every step of the concrete system is matched by a step of the abstract one, or leaves its
image unchanged, then the image of a reachable state is reachable. -/
theorem Reachable.simulate {step' : τ → β → Option τ} (f : σ → τ)
    (hsim : ∀ s a s', Reachable step init s → step s a = some s' →
      f s' = f s ∨ ∃ b, step' (f s) b = some (f s'))
    (h : Reachable step init s) : Reachable step' (f init) (f s) := by
  obtain ⟨tr, hrun⟩ := h
  induction hrun with
  | start => exact .refl
  | snoc run hstep ih =>
    rcases hsim _ _ _ ⟨_, run⟩ hstep with heq | ⟨b, hb⟩
    · rw [heq]
      exact ih
    · exact ih.next hb

end TransitionSystem
