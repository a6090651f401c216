import Mathlib.Data.List.Basic

/-!
# Lists of pairs as dictionaries

`List.lookup` gives the first value under a key, and that is an entry (`mem_of_lookup`).  A lookup
passes through a `map` that leaves the keys in place (`lookup_map`); a dictionary can be built from
the list of its keys (`lookup_map_keys`).
-/

namespace AssocList

variable {κ β γ : Type*} [BEq κ] [LawfulBEq κ]

/-- What a lookup gives stands in the list under that key. -/
theorem mem_of_lookup {l : List (κ × β)} {k : κ} {v : β} (h : l.lookup k = some v) :
    (k, v) ∈ l := by
  obtain ⟨before, after, rfl, -⟩ := List.lookup_eq_some_iff.mp h
  exact List.mem_append_right _ List.mem_cons_self

/-- A key is found iff some entry has it. -/
theorem lookup_isSome_iff {l : List (κ × β)} {k : κ} :
    (l.lookup k).isSome ↔ k ∈ l.map Prod.fst := by
  rw [List.lookup_isSome_iff, List.mem_map]
  apply exists_congr
  intro p
  rw [beq_iff_eq, eq_comm]

/-- An update of the values, each by its key, is an update of what is found. -/
theorem lookup_map (f : κ → β → γ) (l : List (κ × β)) (k : κ) :
    (l.map fun p => (p.1, f p.1 p.2)).lookup k = (l.lookup k).map (f k) := by
  induction l with
  | nil => rfl
  | cons p l ih =>
    rw [List.map_cons, List.lookup_cons, List.lookup_cons, ih]
    cases hk : k == p.1 with
    | false => rfl
    | true =>
      show some (f p.1 p.2) = some (f k p.2)
      rw [eq_of_beq hk]

/-- A dictionary built from its keys has a value for each of them and no other. -/
theorem lookup_map_keys (f : κ → β) (l : List κ) (k : κ) :
    (l.map fun x => (x, f x)).lookup k = if k ∈ l then some (f k) else none := by
  -- the keys with no value yet
  have hunit : ((l.map fun x => (x, ())).lookup k).isSome ↔ k ∈ l := by
    rw [lookup_isSome_iff, List.map_map]
    show k ∈ l.map id ↔ k ∈ l
    rw [List.map_id]
  have hmap := lookup_map (fun x () => f x) (l.map fun x => (x, ())) k
  rw [List.map_map] at hmap
  refine Eq.trans hmap ?_
  split_ifs with hk
  · rw [Option.eq_some_of_isSome (hunit.mpr hk)]
    rfl
  · rw [Option.not_isSome_iff_eq_none.mp (hk ∘ hunit.mp)]
    rfl

end AssocList
