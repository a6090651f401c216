import Mathlib.Data.List.Induction
import Mathlib.Data.List.Nodup

/-!
# First occurrences

`firsts key l` keeps of the elements with one key the first.  It is built from the left, so a longer
list only adds at the end (`firsts_prefix`), and keys that tell the elements apart keep what equality
keeps (`firsts_eq_of_inj`).
-/

namespace Firsts

variable {α κ : Type*} [DecidableEq κ] (key : α → κ)

/-- An element with a new key is appended. -/
def add (found : List α) (a : α) : List α :=
  if key a ∈ found.map key then found else found ++ [a]

/-- The elements whose key has not come up before. -/
def firsts (l : List α) : List α := l.foldl (add key) []

@[simp]
theorem firsts_nil : firsts key [] = [] := rfl

@[simp]
theorem firsts_concat (l : List α) (a : α) :
    firsts key (l ++ [a]) = add key (firsts key l) a := by
  rw [firsts, List.foldl_append]
  rfl

theorem prefix_add (found : List α) (a : α) : found <+: add key found a := by
  unfold add
  split
  · exact List.prefix_rfl
  · exact List.prefix_append _ _

/-- What comes later does not change what has been kept. -/
theorem firsts_prefix (l m : List α) : firsts key l <+: firsts key (l ++ m) := by
  induction m using List.reverseRecOn with
  | nil => simp
  | append_singleton m a ih =>
    rw [← List.append_assoc, firsts_concat]
    exact ih.trans (prefix_add key _ a)

theorem mem_of_mem_firsts {l : List α} {a : α} (h : a ∈ firsts key l) : a ∈ l := by
  induction l using List.reverseRecOn with
  | nil => exact h
  | append_singleton l b ih =>
    rw [firsts_concat, add] at h
    split at h
    · exact List.mem_append_left _ (ih h)
    · rcases List.mem_append.mp h with h | h
      · exact List.mem_append_left _ (ih h)
      · exact List.mem_append_right _ h

/-- One element of a key is kept. -/
theorem nodup_firsts (l : List α) : ((firsts key l).map key).Nodup := by
  induction l using List.reverseRecOn with
  | nil => exact List.nodup_nil
  | append_singleton l a ih =>
    rw [firsts_concat, add]
    split
    · exact ih
    · rename_i hnew
      rw [List.map_append]
      exact ih.append (List.nodup_singleton _) (by simpa using hnew)

theorem eq_of_mem_firsts {l : List α} {a b : α} (ha : a ∈ firsts key l) (hb : b ∈ firsts key l)
    (h : key a = key b) : a = b :=
  List.inj_on_of_nodup_map (nodup_firsts key l) ha hb h

variable [DecidableEq α]

/-- Where different elements have different keys, the key keeps what equality does. -/
theorem firsts_eq_of_inj {l : List α} (h : ∀ a ∈ l, ∀ b ∈ l, key a = key b → a = b) :
    firsts key l = firsts id l := by
  induction l using List.reverseRecOn with
  | nil => rfl
  | append_singleton l a ih =>
    have hl : firsts key l = firsts id l := ih fun b hb c hc =>
      h b (List.mem_append_left _ hb) c (List.mem_append_left _ hc)
    have hiff : key a ∈ (firsts id l).map key ↔ a ∈ (firsts id l).map id := by
      rw [List.mem_map, List.map_id]
      constructor
      · rintro ⟨b, hb, hkey⟩
        have hbl : b ∈ l := mem_of_mem_firsts id hb
        obtain rfl := h b (List.mem_append_left _ hbl) a (by simp) hkey
        exact hb
      · intro ha
        exact ⟨a, ha, rfl⟩
    rw [firsts_concat, firsts_concat, hl]
    unfold add
    simp only [hiff, id_eq]

end Firsts
