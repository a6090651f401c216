import Mathlib.Data.List.Basic

/-!
# Replacing the matches of a pattern

`sub pat s` is Python's `re.sub`: the leftmost match is replaced, and the search goes on behind it, so
what was put in is not searched again.  A pattern is given by its matches at the head of a list.

A pattern that cannot match across an element (`Breaks`) is replaced on the two sides of it
separately (`sub_append_break`).
-/

namespace ReSub

variable {α : Type*}

/-- What a pattern makes of a list that starts with a match: the replacement, and how many elements
the match has after its first. -/
abbrev Pattern (α : Type*) := List α → Option (List α × ℕ)

/-- The replacement, with `skip` elements of a match still to pass over. -/
def subFrom (pat : Pattern α) : ℕ → List α → List α
  | _, [] => []
  | skip + 1, _ :: s => subFrom pat skip s
  | 0, c :: s =>
    match pat (c :: s) with
    | none => c :: subFrom pat 0 s
    | some (new, more) => new ++ subFrom pat more s

/-- `re.sub(pat, repl, s)`. -/
def sub (pat : Pattern α) (s : List α) : List α := subFrom pat 0 s

variable {pat : Pattern α}

@[simp]
theorem sub_nil : sub pat [] = [] := rfl

theorem sub_cons_of_none {c : α} {s : List α} (h : pat (c :: s) = none) :
    sub pat (c :: s) = c :: sub pat s := by
  rw [sub, subFrom, h, sub]

theorem subFrom_length (found s : List α) :
    subFrom pat found.length (found ++ s) = sub pat s := by
  induction found with
  | nil => rw [List.length_nil, List.nil_append, sub]
  | cons c found ih => rw [List.length_cons, List.cons_append, subFrom, ih]

/-- A match, and what is behind it. -/
theorem sub_match {c : α} {more s new : List α}
    (h : pat (c :: (more ++ s)) = some (new, more.length)) :
    sub pat (c :: (more ++ s)) = new ++ sub pat s := by
  rw [sub, subFrom, h]
  show new ++ subFrom pat more.length (more ++ s) = new ++ sub pat s
  rw [subFrom_length]

/-- Every element of the result was there or was put in. -/
theorem mem_subFrom {skip : ℕ} {s : List α} {a : α} (h : a ∈ subFrom pat skip s) :
    a ∈ s ∨ ∃ t new more, pat t = some (new, more) ∧ a ∈ new := by
  fun_induction subFrom pat skip s with
  | case1 => exact .inl h
  | case2 skip c s ih =>
    rcases ih h with h | h
    · exact .inl (List.mem_cons_of_mem _ h)
    · exact .inr h
  | case3 c s hnone ih =>
    rcases List.mem_cons.mp h with h | h
    · exact .inl (List.mem_cons.mpr (.inl h))
    · rcases ih h with h | h
      · exact .inl (List.mem_cons_of_mem _ h)
      · exact .inr h
  | case4 c s new more hsome ih =>
    rcases List.mem_append.mp h with h | h
    · exact .inr ⟨_, _, _, hsome, h⟩
    · rcases ih h with h | h
      · exact .inl (List.mem_cons_of_mem _ h)
      · exact .inr h

/-- What the result holds was there before, or stands in a replacement. -/
theorem mem_sub {s : List α} {a : α} (h : a ∈ sub pat s) :
    a ∈ s ∨ ∃ t new more, pat t = some (new, more) ∧ a ∈ new :=
  mem_subFrom h

/-! ### Elements that no match goes across -/

/-- A match is no longer than the list. -/
def Fits (pat : Pattern α) : Prop :=
  ∀ c s new more, pat (c :: s) = some (new, more) → more ≤ s.length

/-- No match starts with the element or goes across it. -/
structure Breaks (pat : Pattern α) (b : α) : Prop where
  none : ∀ s, pat (b :: s) = none
  stops : ∀ c s t, pat (c :: (s ++ b :: t)) = pat (c :: s)

/-- A match that is being skipped ends before a break, and what follows the break is replaced on its
own. -/
theorem subFrom_append_break {b : α} (hfits : Fits pat) (hb : Breaks pat b) {skip : ℕ}
    {s : List α} (hskip : skip ≤ s.length) (t : List α) :
    subFrom pat skip (s ++ b :: t) = subFrom pat skip s ++ b :: sub pat t := by
  induction s generalizing skip with
  | nil =>
    obtain rfl : skip = 0 := Nat.le_zero.mp hskip
    exact sub_cons_of_none (hb.none t)
  | cons c s ih =>
    rw [List.cons_append]
    cases skip with
    | succ skip =>
      rw [subFrom, subFrom]
      exact ih (Nat.le_of_succ_le_succ hskip)
    | zero =>
      rw [subFrom, subFrom, hb.stops]
      cases hpat : pat (c :: s) with
      | none =>
        show c :: subFrom pat 0 (s ++ b :: t) = c :: subFrom pat 0 s ++ b :: sub pat t
        rw [ih (Nat.zero_le _), List.cons_append]
      | some found =>
        show found.1 ++ subFrom pat found.2 (s ++ b :: t) =
          found.1 ++ subFrom pat found.2 s ++ b :: sub pat t
        rw [ih (hfits c s _ _ hpat), List.append_assoc]

/-- A text is replaced piece by piece between the breaks. -/
theorem sub_append_break {b : α} (hfits : Fits pat) (hb : Breaks pat b) (s t : List α) :
    sub pat (s ++ b :: t) = sub pat s ++ b :: sub pat t :=
  subFrom_append_break hfits hb (Nat.zero_le _) t

theorem sub_breaks_append {e : List α} (he : ∀ b ∈ e, Breaks pat b) (s : List α) :
    sub pat (e ++ s) = e ++ sub pat s := by
  induction e with
  | nil => rfl
  | cons b e ih =>
    rw [List.forall_mem_cons] at he
    rw [List.cons_append, sub_cons_of_none (he.1.none _), ih he.2, List.cons_append]

theorem sub_append_breaks {e : List α} (hfits : Fits pat) (he : ∀ b ∈ e, Breaks pat b)
    (s : List α) : sub pat (s ++ e) = sub pat s ++ e := by
  cases e with
  | nil => rw [List.append_nil, List.append_nil]
  | cons b e =>
    rw [List.forall_mem_cons] at he
    have hrest : sub pat e = e := by
      have h := sub_breaks_append he.2 []
      rwa [List.append_nil, sub_nil, List.append_nil] at h
    rw [sub_append_break hfits he.1, hrest]

end ReSub
