import Mathlib.Data.List.MinMax
import Mathlib.Data.List.Nodup

/-!
# Grouping by a key

A loop that appends each element to `groups[key(element)]` of a `defaultdict(list)` leaves the
groups in the order in which their keys first came up.  `groupBy_perm`: the groups hold what the
list held; `members_groupBy`: a group holds all the elements with its key, in their order.
-/

/-- Elements that share a key, at least one of them. -/
structure KeyGroup {α κ : Type*} (key : α → κ) where
  first : α
  rest : List α
  /-- The others have the key of the first one. -/
  key_eq : ∀ a ∈ rest, key a = key first

namespace KeyGroup

variable {α κ β : Type*} {key : α → κ}

def members (g : KeyGroup key) : List α := g.first :: g.rest

/-- The key that the elements share. -/
def keyOf (g : KeyGroup key) : κ := key g.first

theorem key_of_mem {g : KeyGroup key} {a : α} (h : a ∈ g.members) : key a = g.keyOf := by
  rcases List.mem_cons.mp h with rfl | hrest
  · rfl
  · exact g.key_eq a hrest

/-! ### Grouping -/

section GroupBy

variable [DecidableEq κ]

/-- Append an element to the group with its key; the first one with a key starts a group. -/
def add : List (KeyGroup key) → α → List (KeyGroup key)
  | [], a => [⟨a, [], by simp⟩]
  | g :: gs, a =>
    if h : key a = key g.first then
      ⟨g.first, g.rest ++ [a],
        List.forall_mem_append.mpr ⟨g.key_eq, List.forall_mem_singleton.mpr h⟩⟩ :: gs
    else g :: add gs a

/-- The elements by key. -/
def groupBy (key : α → κ) (l : List α) : List (KeyGroup key) := l.foldl add []

theorem add_perm (gs : List (KeyGroup key)) (a : α) :
    ((add gs a).flatMap members).Perm (gs.flatMap members ++ [a]) := by
  induction gs with
  | nil => exact .refl _
  | cons g gs ih =>
    unfold add
    split_ifs
    · -- the new element comes before the later groups instead of after them
      have hcomm : ([a] ++ gs.flatMap members).Perm (gs.flatMap members ++ [a]) :=
        List.perm_append_comm
      rw [List.flatMap_cons, List.flatMap_cons, List.append_assoc]
      show ((g.members ++ [a]) ++ gs.flatMap members).Perm _
      rw [List.append_assoc]
      exact hcomm.append_left g.members
    · rw [List.flatMap_cons, List.flatMap_cons, List.append_assoc]
      exact ih.append_left g.members

/-- Every element is in one group, as often as it is in the list. -/
theorem groupBy_perm (l : List α) : ((groupBy key l).flatMap members).Perm l := by
  have h : ∀ (l : List α) (gs : List (KeyGroup key)),
      ((l.foldl add gs).flatMap members).Perm (gs.flatMap members ++ l) := by
    intro l
    induction l with
    | nil =>
      intro gs
      rw [List.append_nil]
      exact .refl _
    | cons a l ih =>
      intro gs
      have hadd := (add_perm gs a).append_right l
      rw [List.append_assoc, List.singleton_append] at hadd
      exact (ih (add gs a)).trans hadd
  exact h l []

theorem exists_mem_groupBy {l : List α} {a : α} :
    (∃ g ∈ groupBy key l, a ∈ g.members) ↔ a ∈ l := by
  have hperm : ((groupBy key l).flatMap members).Perm l := groupBy_perm l
  rw [← hperm.mem_iff, List.mem_flatMap]

theorem keys_add (gs : List (KeyGroup key)) (a : α) :
    (add gs a).map keyOf =
      if key a ∈ gs.map keyOf then gs.map keyOf else gs.map keyOf ++ [key a] := by
  induction gs with
  | nil => rfl
  | cons g gs ih =>
    unfold add
    by_cases h : key a = key g.first
    · have hmem : key a ∈ (g :: gs).map keyOf := by
        rw [h]
        exact List.mem_cons_self
      rw [dif_pos h, if_pos hmem]
      rfl
    · have hmem : key a ∈ (g :: gs).map keyOf ↔ key a ∈ gs.map keyOf := by
        rw [List.map_cons, List.mem_cons]
        exact or_iff_right h
      rw [dif_neg h, List.map_cons, ih]
      simp only [hmem]
      split_ifs
      · rfl
      · rfl

/-- No two groups share a key. -/
theorem keys_groupBy_nodup (l : List α) : ((groupBy key l).map keyOf).Nodup := by
  suffices h : ∀ (l : List α) (gs : List (KeyGroup key)), (gs.map keyOf).Nodup →
      ((l.foldl add gs).map keyOf).Nodup from h l [] List.nodup_nil
  intro l
  induction l with
  | nil => exact fun gs hgs => hgs
  | cons a l ih =>
    intro gs hgs
    apply ih
    rw [keys_add]
    split_ifs with hmem
    · exact hgs
    · exact List.nodup_append.mpr ⟨hgs, List.nodup_singleton _, by simpa using hmem⟩

/-- Among groups with distinct keys, the elements with the key of a group are its members. -/
theorem filter_flatMap_members {gs : List (KeyGroup key)} (hnodup : (gs.map keyOf).Nodup)
    {g : KeyGroup key} (hg : g ∈ gs) :
    (gs.flatMap members).filter (fun a => key a = g.keyOf) = g.members := by
  have hself : ∀ g : KeyGroup key, g.members.filter (fun a => key a = g.keyOf) = g.members :=
    fun g => List.filter_eq_self.mpr fun a ha => decide_eq_true (key_of_mem ha)
  have hother : ∀ g h : KeyGroup key, h.keyOf ≠ g.keyOf →
      h.members.filter (fun a => key a = g.keyOf) = [] := by
    intro g h hne
    apply List.filter_eq_nil_iff.mpr
    intro a ha
    rw [key_of_mem ha, decide_eq_true_iff]
    exact hne
  induction gs with
  | nil => contradiction
  | cons h gs ih =>
    rw [List.map_cons, List.nodup_cons] at hnodup
    rw [List.flatMap_cons, List.filter_append]
    rcases List.mem_cons.mp hg with rfl | hg
    · have hnil : (gs.flatMap members).filter (fun a => key a = g.keyOf) = [] := by
        apply List.filter_eq_nil_iff.mpr
        intro a ha
        obtain ⟨h, hh, ha⟩ := List.mem_flatMap.mp ha
        rw [key_of_mem ha, decide_eq_true_iff]
        intro heq
        exact hnodup.1 (heq ▸ List.mem_map_of_mem hh)
      rw [hself, hnil, List.append_nil]
    · have hne : h.keyOf ≠ g.keyOf := fun heq => hnodup.1 (heq ▸ List.mem_map_of_mem hg)
      rw [hother g h hne, List.nil_append]
      exact ih hnodup.2 hg

/-- A new element comes after the others with its key. -/
theorem filter_flatMap_add {gs : List (KeyGroup key)} (hnodup : (gs.map keyOf).Nodup) (a : α)
    (k : κ) :
    ((add gs a).flatMap members).filter (fun b => key b = k) =
      (gs.flatMap members).filter (fun b => key b = k) ++ [a].filter fun b => key b = k := by
  induction gs with
  | nil => rfl
  | cons g gs ih =>
    rw [List.map_cons, List.nodup_cons] at hnodup
    unfold add
    split_ifs with h
    · have hlater : key a = k → (gs.flatMap members).filter (fun b => key b = k) = [] := by
        intro hk
        apply List.filter_eq_nil_iff.mpr
        intro b hb
        obtain ⟨g', hg', hb⟩ := List.mem_flatMap.mp hb
        rw [key_of_mem hb, decide_eq_true_iff]
        intro heq
        have hkey : g'.keyOf = g.keyOf := heq.trans (hk.symm.trans h)
        exact hnodup.1 (hkey ▸ List.mem_map_of_mem hg')
      rw [List.flatMap_cons, List.flatMap_cons, List.filter_append, List.filter_append]
      show (g.members ++ [a]).filter _ ++ _ = _
      rw [List.filter_append, List.append_assoc, List.append_assoc]
      congr 1
      by_cases hk : key a = k
      · rw [hlater hk, List.append_nil, List.nil_append]
      · have hnil : [a].filter (fun b => key b = k) = [] := by simp [hk]
        rw [hnil, List.append_nil, List.nil_append]
    · rw [List.flatMap_cons, List.flatMap_cons, List.filter_append, List.filter_append,
        ih hnodup.2, List.append_assoc]

/-- A group holds the elements with its key, in their order. -/
theorem members_groupBy {l : List α} {g : KeyGroup key} (hg : g ∈ groupBy key l) :
    g.members = l.filter fun a => key a = g.keyOf := by
  have hkept : ∀ k, ((groupBy key l).flatMap members).filter (fun a => key a = k) =
      l.filter fun a => key a = k := by
    intro k
    clear hg
    induction l using List.reverseRecOn with
    | nil => rfl
    | append_singleton l a ih =>
      have hsnoc : groupBy key (l ++ [a]) = add (groupBy key l) a := by
        unfold groupBy
        rw [List.foldl_append]
        rfl
      rw [hsnoc, filter_flatMap_add (keys_groupBy_nodup l), ih, List.filter_append]
  rw [← hkept, filter_flatMap_members (keys_groupBy_nodup l) hg]

end GroupBy

/-! ### The greatest element -/

section MaxBy

variable [LinearOrder β] (f : α → β)

/-- `max(members, key=f)`: the first of the members with the greatest value. -/
def maxBy (g : KeyGroup key) : α :=
  (g.members.argmax f).get (Option.isSome_iff_ne_none.mpr fun h =>
    List.cons_ne_nil _ _ (List.argmax_eq_none.mp h))

variable {f} {g : KeyGroup key}

theorem mem_argmax_maxBy : g.maxBy f ∈ g.members.argmax f := Option.get_mem _

theorem maxBy_mem : g.maxBy f ∈ g.members := List.argmax_mem mem_argmax_maxBy

theorem le_maxBy {a : α} (h : a ∈ g.members) : f a ≤ f (g.maxBy f) :=
  List.le_of_mem_argmax h mem_argmax_maxBy

end MaxBy

end KeyGroup
