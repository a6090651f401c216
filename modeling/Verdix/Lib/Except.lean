import Mathlib.Data.List.Basic
import Mathlib.Data.List.Forall2

/-!
# Loops that may raise

Reading a run of a computation in `Except` back: what a `bind` came from (`bind_eq_ok`), what a loop
that returned says about each of its steps (`mapM_eq_ok`, `foldlM_of_mem`), where a loop that raised
did so (`foldlM_eq_error`), and what an invariant says at the end of a loop that is left early
(`foldUntil_eq_ok`, `foldUntil_eq_error`).
-/

namespace Except

universe u v

variable {ε : Type u} {α β σ : Type v}

theorem bind_eq_ok {x : Except ε α} {f : α → Except ε β} {b : β} :
    (x >>= f) = .ok b ↔ ∃ a, x = .ok a ∧ f a = .ok b := by
  cases x <;> simp [bind, Except.bind]

theorem bind_eq_error {x : Except ε α} {f : α → Except ε β} {e : ε} :
    (x >>= f) = .error e ↔ x = .error e ∨ ∃ a, x = .ok a ∧ f a = .error e := by
  cases x <;> simp [bind, Except.bind]

theorem map_eq_ok {x : Except ε α} {f : α → β} {b : β} :
    x.map f = .ok b ↔ ∃ a, x = .ok a ∧ f a = b := by
  cases x <;> simp [Except.map]

/-! ### Failures of one kind -/

/-- It fails, with an error that meets `P`. -/
def FailsWith (P : ε → Prop) (x : Except ε α) : Prop := ∃ e, x = .error e ∧ P e

theorem failsWith_error {P : ε → Prop} {e : ε} : FailsWith P (.error e : Except ε α) ↔ P e := by
  constructor
  · rintro ⟨e', he, h⟩
    rwa [Except.error.inj he]
  · exact fun h => ⟨e, rfl, h⟩

theorem not_failsWith_ok {P : ε → Prop} {a : α} : ¬ FailsWith P (.ok a : Except ε α) := by
  rintro ⟨e, he, -⟩
  contradiction

theorem failsWith_bind {P : ε → Prop} {x : Except ε α} {f : α → Except ε β} :
    FailsWith P (x >>= f) ↔ FailsWith P x ∨ ∃ a, x = .ok a ∧ FailsWith P (f a) := by
  constructor
  · rintro ⟨e, he, h⟩
    rcases bind_eq_error.mp he with hx | ⟨a, hx, ha⟩
    · exact .inl ⟨e, hx, h⟩
    · exact .inr ⟨a, hx, e, ha, h⟩
  · rintro (⟨e, hx, h⟩ | ⟨a, hx, e, ha, h⟩)
    · exact ⟨e, bind_eq_error.mpr (.inl hx), h⟩
    · exact ⟨e, bind_eq_error.mpr (.inr ⟨a, hx, ha⟩), h⟩

theorem failsWith_mapError_iff {ε' : Type u} {P : ε' → Prop} {g : ε → ε'} {x : Except ε α} :
    FailsWith P (x.mapError g) ↔ FailsWith (fun e => P (g e)) x := by
  cases x with
  | ok a => exact iff_of_false not_failsWith_ok not_failsWith_ok
  | error e => exact failsWith_error.trans (failsWith_error (P := fun e => P (g e))).symm

/-- Every failure is of this kind. -/
theorem failsWith_mapError {ε' : Type u} {P : ε' → Prop} {g : ε → ε'} (hP : ∀ e, P (g e))
    {x : Except ε α} : FailsWith P (x.mapError g) ↔ ¬ ∃ a, x = .ok a := by
  cases x with
  | ok a => exact iff_of_false not_failsWith_ok (not_not_intro ⟨a, rfl⟩)
  | error e =>
    refine iff_of_true ⟨g e, rfl, hP e⟩ ?_
    rintro ⟨a, ha⟩
    contradiction

theorem mapError_eq_ok {ε' : Type u} {g : ε → ε'} {x : Except ε α} {a : α} :
    x.mapError g = .ok a ↔ x = .ok a := by
  cases x with
  | ok b => simp [Except.mapError]
  | error e => simp [Except.mapError]

/-! ### Loops -/

/-- A `mapM` that returns has done every element, in order. -/
theorem mapM_eq_ok {f : α → Except ε β} {xs : List α} {ys : List β} :
    xs.mapM f = .ok ys ↔ List.Forall₂ (fun x y => f x = .ok y) xs ys := by
  induction xs generalizing ys with
  | nil =>
    rw [List.mapM_nil, List.forall₂_nil_left_iff]
    constructor
    · intro h
      exact (Except.ok.inj h).symm
    · rintro rfl
      rfl
  | cons x xs ih =>
    rw [List.mapM_cons, bind_eq_ok, List.forall₂_cons_left_iff]
    constructor
    · rintro ⟨y, hy, h⟩
      obtain ⟨zs, hzs, h⟩ := bind_eq_ok.mp h
      exact ⟨y, zs, hy, ih.mp hzs, (Except.ok.inj h).symm⟩
    · rintro ⟨y, zs, hy, hzs, rfl⟩
      refine ⟨y, hy, bind_eq_ok.mpr ⟨zs, ih.mpr hzs, rfl⟩⟩

/-- It returns iff every element can be done. -/
theorem exists_mapM_eq_ok {f : α → Except ε β} {xs : List α} :
    (∃ ys, xs.mapM f = .ok ys) ↔ ∀ x ∈ xs, ∃ y, f x = .ok y := by
  constructor
  · rintro ⟨ys, hys⟩ x hx
    have hall := mapM_eq_ok.mp hys
    clear hys
    induction hall with
    | nil => exact absurd hx List.not_mem_nil
    | @cons x' y' xs' ys' hxy _ ih =>
      rcases List.mem_cons.mp hx with rfl | hx
      · exact ⟨y', hxy⟩
      · exact ih hx
  · intro h
    induction xs with
    | nil => exact ⟨[], rfl⟩
    | cons x xs ih =>
      obtain ⟨hx, hxs⟩ := List.forall_mem_cons.mp h
      obtain ⟨y, hy⟩ := hx
      obtain ⟨ys, hys⟩ := ih hxs
      exact ⟨y :: ys, mapM_eq_ok.mpr (.cons hy (mapM_eq_ok.mp hys))⟩

variable {f : σ → α → Except ε σ} {P : σ → Prop}

theorem foldlM_preserves (hf : ∀ s x t, f s x = .ok t → P s → P t) {xs : List α} {s t : σ}
    (h : xs.foldlM f s = .ok t) (hs : P s) : P t := by
  induction xs generalizing s with
  | nil =>
    obtain rfl := Except.ok.inj h
    exact hs
  | cons x xs ih =>
    rw [List.foldlM_cons, bind_eq_ok] at h
    obtain ⟨u, hu, h⟩ := h
    exact ih h (hf s x u hu hs)

/-- A loop depends only on what is done for its elements. -/
theorem foldlM_congr {g : σ → α → Except ε σ} {xs : List α} (h : ∀ s, ∀ x ∈ xs, f s x = g s x)
    (s : σ) : xs.foldlM f s = xs.foldlM g s := by
  induction xs generalizing s with
  | nil => rfl
  | cons x xs ih =>
    obtain ⟨hx, hxs⟩ : (∀ s, f s x = g s x) ∧ ∀ s, ∀ y ∈ xs, f s y = g s y :=
      ⟨fun s => h s x List.mem_cons_self, fun s y hy => h s y (List.mem_cons_of_mem x hy)⟩
    rw [List.foldlM_cons, List.foldlM_cons, hx s]
    exact congrArg (g s x >>= ·) (funext fun t => ih hxs t)

/-- What the step for `x` brings about and no step undoes holds at the end. -/
theorem foldlM_of_mem (hf : ∀ s x t, f s x = .ok t → P s → P t) {xs : List α} {x : α}
    (hx : x ∈ xs) (hstep : ∀ s t, f s x = .ok t → P t) {s t : σ} (h : xs.foldlM f s = .ok t) :
    P t := by
  obtain ⟨before, after, rfl⟩ := List.append_of_mem hx
  rw [List.foldlM_append, bind_eq_ok] at h
  obtain ⟨u, -, h⟩ := h
  rw [List.foldlM_cons, bind_eq_ok] at h
  obtain ⟨v, hv, h⟩ := h
  exact foldlM_preserves hf h (hstep u v hv)

/-- A loop that returned has done each of its elements. -/
theorem exists_step_of_foldlM {xs : List α} {s t : σ} (h : xs.foldlM f s = .ok t) {x : α}
    (hx : x ∈ xs) : ∃ u v, f u x = .ok v :=
  foldlM_of_mem (P := fun _ => ∃ u v, f u x = .ok v) (fun _ _ _ _ h => h) hx
    (fun u v h => ⟨u, v, h⟩) h

/-- A loop that raises does so at one of the elements, after those before it. -/
theorem foldlM_eq_error {xs : List α} {s : σ} {e : ε} :
    xs.foldlM f s = .error e ↔
      ∃ before x after t, xs = before ++ x :: after ∧ before.foldlM f s = .ok t ∧
        f t x = .error e := by
  constructor
  · intro h
    induction xs generalizing s with
    | nil => contradiction
    | cons x xs ih =>
      rw [List.foldlM_cons, bind_eq_error] at h
      rcases h with hx | ⟨u, hu, h⟩
      · exact ⟨[], x, xs, s, rfl, rfl, hx⟩
      · obtain ⟨before, y, after, t, rfl, hbefore, hy⟩ := ih h
        refine ⟨x :: before, y, after, t, rfl, ?_, hy⟩
        rw [List.foldlM_cons, bind_eq_ok]
        exact ⟨u, hu, hbefore⟩
  · rintro ⟨before, x, after, t, rfl, hbefore, hx⟩
    rw [List.foldlM_append, bind_eq_error]
    refine .inr ⟨t, hbefore, ?_⟩
    rw [List.foldlM_cons, bind_eq_error]
    exact .inl hx

/-- The states a loop comes to, each with the element that is next, up to the first that raises. -/
def reached (f : σ → α → Except ε σ) : List α → σ → List (σ × α)
  | [], _ => []
  | x :: xs, s =>
    (s, x) ::
      match f s x with
      | .ok t => reached f xs t
      | .error _ => []

theorem foldlM_eq_error_iff_reached {xs : List α} {s : σ} {e : ε} :
    xs.foldlM f s = .error e ↔ ∃ r ∈ reached f xs s, f r.1 r.2 = .error e := by
  induction xs generalizing s with
  | nil =>
    constructor
    · intro h
      contradiction
    · rintro ⟨r, hr, -⟩
      contradiction
  | cons x xs ih =>
    rw [List.foldlM_cons, bind_eq_error, reached]
    cases hx : f s x with
    | error e' => simp [hx]
    | ok t => simp [hx, ih]

theorem reached_preserves {f : σ → α → Except ε σ} {P : σ → Prop}
    (hf : ∀ s x t, f s x = .ok t → P s → P t) {xs : List α} {s : σ} (hs : P s) :
    ∀ r ∈ reached f xs s, P r.1 ∧ r.2 ∈ xs := by
  induction xs generalizing s with
  | nil => exact List.forall_mem_nil _
  | cons x xs ih =>
    rw [reached, List.forall_mem_cons]
    refine ⟨⟨hs, List.mem_cons_self⟩, ?_⟩
    cases hx : f s x with
    | error e => exact List.forall_mem_nil _
    | ok t =>
      intro r hr
      obtain ⟨hP, hmem⟩ := ih (hf s x t hx hs) r hr
      exact ⟨hP, List.mem_cons_of_mem _ hmem⟩

/-! ### Loops with a `break` -/

/-- `f` is done for one element after the other until `stop` holds after one. -/
def foldUntil (f : σ → α → Except ε σ) (stop : σ → Bool) : List α → σ → Except ε σ
  | [], s => .ok s
  | x :: xs, s => do
    let t ← f s x
    if stop t then return t else foldUntil f stop xs t

variable {stop : σ → Bool} {I : List α → σ → Prop}

/-- The elements done so far, `done`, grow by one at a time: an invariant of them and the state
holds of those done when the loop ends, which are all or enough to stop. -/
theorem foldUntil_eq_ok
    (hI : ∀ done x s t, I done s → stop s = false → f s x = .ok t → I (done ++ [x]) t)
    {xs done : List α} {s t : σ} (hs : I done s) (hstop : stop s = false)
    (h : foldUntil f stop xs s = .ok t) :
    ∃ more rest, xs = more ++ rest ∧ I (done ++ more) t ∧ (rest = [] ∨ stop t = true) := by
  induction xs generalizing done s with
  | nil =>
    obtain rfl := Except.ok.inj h
    exact ⟨[], [], rfl, by rwa [List.append_nil], .inl rfl⟩
  | cons x xs ih =>
    obtain ⟨u, hu, h⟩ := bind_eq_ok.mp h
    have hIu : I (done ++ [x]) u := hI done x s u hs hstop hu
    split at h
    · rename_i hfull
      obtain rfl := Except.ok.inj h
      exact ⟨[x], xs, rfl, hIu, .inr hfull⟩
    · rename_i hroom
      obtain ⟨more, rest, rfl, hIt, hrest⟩ := ih hIu (by simpa using hroom) h
      refine ⟨x :: more, rest, rfl, ?_, hrest⟩
      rwa [List.append_cons]

/-- A loop that raises does so at an element it comes to. -/
theorem foldUntil_eq_error
    (hI : ∀ done x s t, I done s → stop s = false → f s x = .ok t → I (done ++ [x]) t)
    {xs done : List α} {s : σ} {e : ε} (hs : I done s) (hstop : stop s = false)
    (h : foldUntil f stop xs s = .error e) :
    ∃ more x rest t, xs = more ++ x :: rest ∧ I (done ++ more) t ∧ stop t = false ∧
      f t x = .error e := by
  induction xs generalizing done s with
  | nil => cases h
  | cons x xs ih =>
    rcases bind_eq_error.mp h with hx | ⟨u, hu, h⟩
    · exact ⟨[], x, xs, s, rfl, by rwa [List.append_nil], hstop, hx⟩
    · split at h
      · cases h
      · rename_i hroom
        have hIu : I (done ++ [x]) u := hI done x s u hs hstop hu
        obtain ⟨more, y, rest, t, rfl, hIt, ht, hy⟩ := ih hIu (by simpa using hroom) h
        refine ⟨x :: more, y, rest, t, rfl, ?_, ht, hy⟩
        rwa [List.append_cons]

end Except
