import Mathlib.Data.List.DropRight
import Mathlib.Data.List.TakeWhile

/-!
# Trimming and splitting lists

`trim p l` drops the elements at both ends that are in `p`.  What stands between two separators of
`l.splitOn a` does not see what stands at the ends of the list: elements that are put before a list
belong to its first piece (`splitOn_append_left`), and those that are put after it to its last
(`splitOn_append_right`).
-/

namespace Split

/-! ### Trimming -/

section Trim

variable {α : Type*} {p q : α → Bool} {l : List α}

/-- The list without the elements at its ends that are in `p`. -/
def trim (p : α → Bool) (l : List α) : List α := (l.dropWhile p).rdropWhile p

@[simp]
theorem trim_nil : trim p ([] : List α) = [] := rfl

theorem exists_trim (p : α → Bool) (l : List α) :
    ∃ before after, l = before ++ trim p l ++ after ∧ (∀ c ∈ before, p c) ∧ ∀ c ∈ after, p c := by
  refine ⟨l.takeWhile p, (l.dropWhile p).rtakeWhile p, ?_, ?_, ?_⟩
  · rw [trim, List.append_assoc, List.rdropWhile_append_rtakeWhile,
      List.takeWhile_append_dropWhile]
  · exact fun c hc => List.mem_takeWhile_imp hc
  · exact fun c hc => List.mem_rtakeWhile_imp hc

theorem rdropWhile_append_of_all {after : List α} (h : ∀ c ∈ after, p c) (l : List α) :
    (l ++ after).rdropWhile p = l.rdropWhile p := by
  have hrev : ∀ c ∈ after.reverse, p c := by simpa using h
  rw [List.rdropWhile, List.reverse_append, List.dropWhile_append_of_pos hrev, List.rdropWhile]

/-- Elements that are dropped anyway. -/
theorem trim_append {b a : List α} (hb : ∀ c ∈ b, p c) (ha : ∀ c ∈ a, p c) (l : List α) :
    trim p (b ++ l ++ a) = trim p l := by
  rw [trim, List.append_assoc, List.dropWhile_append_of_pos hb, List.dropWhile_append]
  split
  · -- nothing of the list is left
    rename_i hnil
    rw [List.isEmpty_iff] at hnil
    rw [trim, hnil, List.dropWhile_eq_nil_iff.mpr ha]
  · rw [rdropWhile_append_of_all ha, trim]

theorem trim_append_right {after : List α} (ha : ∀ c ∈ after, p c) (l : List α) :
    trim p (l ++ after) = trim p l := by
  have h := trim_append (b := []) (by simp) ha l
  rwa [List.nil_append] at h

theorem trim_eq_nil_iff : trim p l = [] ↔ ∀ c ∈ l, p c := by
  constructor
  · intro h
    obtain ⟨before, after, hl, hb, ha⟩ := exists_trim p l
    rw [h, List.append_nil] at hl
    intro c hc
    rw [hl] at hc
    rcases List.mem_append.mp hc with hc | hc
    · exact hb c hc
    · exact ha c hc
  · intro h
    rw [trim, List.dropWhile_eq_nil_iff.mpr h, List.rdropWhile_nil]

theorem head_trim {c : α} {s : List α} (h : trim p l = c :: s) : p c = false := by
  obtain ⟨t, ht⟩ : trim p l <+: l.dropWhile p := List.rdropWhile_prefix _ _
  rw [h, List.cons_append] at ht
  have hhead := List.head?_dropWhile_not p l
  rw [← ht] at hhead
  simpa using hhead

/-- Neither end is dropped. -/
theorem trim_append_core {b s : List α} {c d : α} (hc : p c = false) (hd : p d = false) :
    trim p (b ++ c :: (s ++ [d])) = b.dropWhile p ++ c :: (s ++ [d]) := by
  have hstop : (c :: (s ++ [d])).dropWhile p = c :: (s ++ [d]) := by
    rw [List.dropWhile_cons, if_neg (by simp [hc])]
  have hdrop : (b ++ c :: (s ++ [d])).dropWhile p = b.dropWhile p ++ c :: (s ++ [d]) := by
    rw [List.dropWhile_append, hstop]
    split
    · rename_i hnil
      rw [List.isEmpty_iff.mp hnil, List.nil_append]
    · rfl
  rw [trim, hdrop, ← List.cons_append, ← List.append_assoc,
    List.rdropWhile_concat_neg _ _ _ (by simp [hd])]

theorem mem_of_mem_trim {c : α} (h : c ∈ trim p l) : c ∈ l := by
  obtain ⟨before, after, hl, -⟩ := exists_trim p l
  rw [hl]
  simp [h]

theorem dropWhile_congr (h : ∀ c ∈ l, p c = q c) : l.dropWhile p = l.dropWhile q := by
  induction l with
  | nil => rfl
  | cons c l ih =>
    have hl := ih fun d hd => h d (List.mem_cons_of_mem _ hd)
    rw [List.dropWhile_cons, List.dropWhile_cons, h c List.mem_cons_self, hl]

theorem trim_congr (h : ∀ c ∈ l, p c = q c) : trim p l = trim q l := by
  have hrest : ∀ c ∈ (l.dropWhile q).reverse, p c = q c := by
    intro c hc
    apply h
    exact (List.dropWhile_suffix q).subset (List.mem_reverse.mp hc)
  rw [trim, trim, dropWhile_congr h, List.rdropWhile, List.rdropWhile, dropWhile_congr hrest]

end Trim

/-! ### Splitting -/

section Pieces

variable {α : Type*} [BEq α] [LawfulBEq α] {a : α} {l e : List α}

/-- A list is one piece, or its first piece stands before a separator. -/
theorem splitOn_induction {motive : List α → Prop} (single : ∀ s, a ∉ s → motive s)
    (append : ∀ s t, a ∉ s → motive t → motive (s ++ a :: t)) (l : List α) : motive l := by
  have hbounded : ∀ n, ∀ l : List α, l.length ≤ n → motive l := by
    intro n
    induction n with
    | zero =>
      intro l hl
      apply single
      simp [List.length_eq_zero_iff.mp (Nat.le_zero.mp hl)]
    | succ n ih =>
      intro l hl
      by_cases hmem : a ∈ l
      · obtain ⟨s, t, rfl, hs⟩ := List.eq_append_cons_of_mem hmem
        have hlength : (s ++ a :: t).length = s.length + t.length + 1 := by simp; omega
        exact append s t hs (ih t (by omega))
      · exact single l hmem
  exact hbounded l.length l (Nat.le_refl _)

/-- An element is a separator or stands in a piece. -/
theorem eq_or_mem_splitOn {c : α} : c ∈ l → c = a ∨ ∃ s ∈ l.splitOn a, c ∈ s := by
  induction l using splitOn_induction (a := a) with
  | single s hs =>
    intro hc
    rw [List.splitOn_eq_singleton hs]
    exact .inr ⟨s, List.mem_singleton_self s, hc⟩
  | append s t hs ih =>
    intro hc
    rw [List.splitOn_append_cons_self_of_not_mem hs]
    rcases List.mem_append.mp hc with hc | hc
    · exact .inr ⟨s, List.mem_cons_self, hc⟩
    · rcases List.mem_cons.mp hc with hc | hc
      · exact .inl hc
      · exact (ih hc).imp_right fun ⟨u, hu, hcu⟩ => ⟨u, List.mem_cons_of_mem _ hu, hcu⟩

/-- A piece holds no separator, and what it holds is in the list. -/
theorem mem_splitOn {s : List α} : s ∈ l.splitOn a → a ∉ s ∧ ∀ c ∈ s, c ∈ l := by
  induction l using splitOn_induction (a := a) with
  | single l hl =>
    intro hs
    rw [List.splitOn_eq_singleton hl, List.mem_singleton] at hs
    rw [hs]
    exact ⟨hl, fun _ => id⟩
  | append l t hl ih =>
    intro hs
    rw [List.splitOn_append_cons_self_of_not_mem hl, List.mem_cons] at hs
    rcases hs with rfl | hs
    · exact ⟨hl, fun c hc => List.mem_append_left _ hc⟩
    · have hrest := ih hs
      exact ⟨hrest.1, fun c hc => List.mem_append_right _ (List.mem_cons_of_mem _ (hrest.2 c hc))⟩

theorem splitOn_append_left (he : a ∉ e) (l : List α) :
    ∃ first rest, l.splitOn a = first :: rest ∧ (e ++ l).splitOn a = (e ++ first) :: rest := by
  cases l using splitOn_induction (a := a) with
  | single _ hl =>
    have hel : a ∉ e ++ l := by simp [he, hl]
    exact ⟨l, [], List.splitOn_eq_singleton hl, List.splitOn_eq_singleton hel⟩
  | append s t hs _ =>
    have hes : a ∉ e ++ s := by simp [he, hs]
    refine ⟨s, t.splitOn a, List.splitOn_append_cons_self_of_not_mem hs t, ?_⟩
    rw [← List.append_assoc, List.splitOn_append_cons_self_of_not_mem hes]

theorem splitOn_append_right (he : a ∉ e) (l : List α) :
    ∃ first last, l.splitOn a = first ++ [last] ∧ (l ++ e).splitOn a = first ++ [last ++ e] := by
  induction l using splitOn_induction (a := a) with
  | single l hl =>
    have hle : a ∉ l ++ e := by simp [he, hl]
    exact ⟨[], l, List.splitOn_eq_singleton hl, List.splitOn_eq_singleton hle⟩
  | append s t hs ih =>
    obtain ⟨first, last, hsplit, hnew⟩ := ih
    refine ⟨s :: first, last, ?_, ?_⟩
    · rw [List.splitOn_append_cons_self_of_not_mem hs, hsplit, List.cons_append]
    · rw [List.append_assoc, List.cons_append, List.splitOn_append_cons_self_of_not_mem hs, hnew,
        List.cons_append]

/-- What every piece keeps when elements are put before it, every piece keeps when they are put
before the list. -/
theorem forall_splitOn_append_left {P : List α → Prop} (he : a ∉ e) (h : ∀ s, P s → P (e ++ s))
    (hl : ∀ s ∈ l.splitOn a, P s) : ∀ s ∈ (e ++ l).splitOn a, P s := by
  obtain ⟨first, rest, hsplit, hnew⟩ := splitOn_append_left he l
  rw [hsplit, List.forall_mem_cons] at hl
  rw [hnew, List.forall_mem_cons]
  exact ⟨h _ hl.1, hl.2⟩

theorem forall_splitOn_append_right {P : List α → Prop} (he : a ∉ e) (h : ∀ s, P s → P (s ++ e))
    (hl : ∀ s ∈ l.splitOn a, P s) : ∀ s ∈ (l ++ e).splitOn a, P s := by
  obtain ⟨first, last, hsplit, hnew⟩ := splitOn_append_right he l
  rw [hsplit, List.forall_mem_append, List.forall_mem_singleton] at hl
  rw [hnew, List.forall_mem_append, List.forall_mem_singleton]
  exact ⟨hl.1, h _ hl.2⟩

/-- And what every piece keeps when they are taken away. -/
theorem forall_splitOn_of_append_left {P : List α → Prop} (he : a ∉ e)
    (h : ∀ s, P (e ++ s) → P s) (hl : ∀ s ∈ (e ++ l).splitOn a, P s) : ∀ s ∈ l.splitOn a, P s := by
  obtain ⟨first, rest, hsplit, hnew⟩ := splitOn_append_left he l
  rw [hnew, List.forall_mem_cons] at hl
  rw [hsplit, List.forall_mem_cons]
  exact ⟨h _ hl.1, hl.2⟩

theorem forall_splitOn_of_append_right {P : List α → Prop} (he : a ∉ e)
    (h : ∀ s, P (s ++ e) → P s) (hl : ∀ s ∈ (l ++ e).splitOn a, P s) : ∀ s ∈ l.splitOn a, P s := by
  obtain ⟨first, last, hsplit, hnew⟩ := splitOn_append_right he l
  rw [hnew, List.forall_mem_append, List.forall_mem_singleton] at hl
  rw [hsplit, List.forall_mem_append, List.forall_mem_singleton]
  exact ⟨hl.1, h _ hl.2⟩

/-- A reading of the pieces that ignores some elements at their ends ignores them at the ends of the
list. -/
theorem filterMap_splitOn_append {β : Type*} {f : List α → Option β} {before after : List α}
    (hb : a ∉ before) (ha : a ∉ after) (h : ∀ s, f (before ++ s) = f s)
    (h' : ∀ s, f (s ++ after) = f s) (l : List α) :
    ((before ++ l ++ after).splitOn a).filterMap f = (l.splitOn a).filterMap f := by
  obtain ⟨first, last, hsplit, hnew⟩ := splitOn_append_right ha (before ++ l)
  obtain ⟨head, rest, hl, hbl⟩ := splitOn_append_left hb l
  have hright : ((before ++ l ++ after).splitOn a).filterMap f
      = ((before ++ l).splitOn a).filterMap f := by
    rw [hnew, hsplit, List.filterMap_append, List.filterMap_append, List.filterMap_cons,
      List.filterMap_cons, h']
  rw [hright, hbl, hl, List.filterMap_cons, List.filterMap_cons, h]

end Pieces

end Split
