import Mathlib.Data.List.Basic
import Mathlib.Data.List.Perm.Basic

/-!
# Replacing one element of a list

What `l.set i b` does to a filtered list, when the element that is replaced does not pass the
filter (`filter_set_perm` if the new one does, `filter_set_eq` if it does not either), and which
elements there are then.
-/

namespace Replace

variable {α : Type*} {l : List α} {i : ℕ} {a b : α} {p : α → Bool}

/-- The element to be replaced, what is before it and what is after it. -/
theorem exists_append_set (h : l[i]? = some a) :
    ∃ before after, l = before ++ a :: after ∧ ∀ b, l.set i b = before ++ b :: after := by
  induction l generalizing i with
  | nil => simp at h
  | cons c l ih =>
    cases i with
    | zero =>
      obtain rfl : c = a := by simpa using h
      exact ⟨[], l, rfl, fun _ => rfl⟩
    | succ i =>
      obtain ⟨before, after, hl, hset⟩ := ih (by simpa using h)
      refine ⟨c :: before, after, by rw [hl, List.cons_append], fun b => ?_⟩
      rw [List.set_cons_succ, hset, List.cons_append]

theorem filter_set_perm (h : l[i]? = some a) (ha : p a = false) (hb : p b = true) :
    ((l.set i b).filter p).Perm (l.filter p ++ [b]) := by
  obtain ⟨before, after, rfl, hset⟩ := exists_append_set h
  have ha' : ¬ p a = true := by simp [ha]
  rw [hset, List.filter_append, List.filter_append, List.filter_cons_of_pos hb,
    List.filter_cons_of_neg ha', List.append_assoc]
  have hcomm : ([b] ++ after.filter p).Perm (after.filter p ++ [b]) := List.perm_append_comm
  exact hcomm.append_left _

theorem filter_set_eq (h : l[i]? = some a) (ha : p a = false) (hb : p b = false) :
    (l.set i b).filter p = l.filter p := by
  obtain ⟨before, after, rfl, hset⟩ := exists_append_set h
  have ha' : ¬ p a = true := by simp [ha]
  have hb' : ¬ p b = true := by simp [hb]
  rw [hset, List.filter_append, List.filter_append, List.filter_cons_of_neg ha',
    List.filter_cons_of_neg hb']

/-- A replacement that keeps a column of the element keeps the column of the list. -/
theorem map_set_eq {β : Type*} {f : α → β} (h : l[i]? = some a) (hb : f b = f a) :
    (l.set i b).map f = l.map f := by
  obtain ⟨before, after, rfl, hset⟩ := exists_append_set h
  rw [hset, List.map_append, List.map_append, List.map_cons, List.map_cons, hb]

/-- The new element is in the list, and so are the others. -/
theorem mem_set_self (h : l[i]? = some a) : b ∈ l.set i b := by
  obtain ⟨before, after, -, hset⟩ := exists_append_set h
  rw [hset]
  exact List.mem_append_right _ List.mem_cons_self

theorem mem_set_of_ne (h : l[i]? = some a) {x : α} (hx : x ∈ l) (hne : x ≠ a) : x ∈ l.set i b := by
  obtain ⟨before, after, rfl, hset⟩ := exists_append_set h
  rw [hset]
  rcases List.mem_append.mp hx with hx | hx
  · exact List.mem_append_left _ hx
  · rcases List.mem_cons.mp hx with hx | hx
    · exact absurd hx hne
    · exact List.mem_append_right _ (List.mem_cons_of_mem _ hx)

theorem forall_mem_set {P : α → Prop} (h : ∀ x ∈ l, P x) (hb : P b) : ∀ x ∈ l.set i b, P x := by
  intro x hx
  rcases List.mem_or_eq_of_mem_set hx with hx | rfl
  · exact h x hx
  · exact hb

end Replace
