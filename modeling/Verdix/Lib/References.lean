import Mathlib.Algebra.Group.Nat.Defs
import Mathlib.Data.List.Basic
import Mathlib.Data.List.Induction
import Mathlib.Logic.Function.Iterate

/-!
# Names that refer to each other

A name stands for a list of items, and an item is a value or a reference to another name.
`Denotes` is what a name means: the values that are reached from it.

The references can be resolved by substitution.  One step replaces the references of one name by
what these stand for at that moment (`expandAt`); a pass does this for one name after the other, so
that the later ones see what has happened to the earlier ones (`pass`).  No step changes a meaning
(`denotes_expandAt`), and whatever the order of the names, every reference that is left after `p`
passes stands for a chain of at least `2 ^ p` references at the start (`refers_passes`).  So `p`
passes resolve every reference if the chains are shorter than that (`leaf_mem_passes_iff`).
-/

namespace References

variable {κ α : Type*}

/-- What stands in the list of a name. -/
inductive Item (κ α : Type*)
  | leaf (a : α)
  | ref (k : κ)
  deriving DecidableEq

/-- The list of each name that has one. -/
abbrev Env (κ α : Type*) := κ → Option (List (Item κ α))

/-- The values that are reached from a name. -/
inductive Denotes (env : Env κ α) : κ → α → Prop
  | leaf {k items a} (hk : env k = some items) (ha : .leaf a ∈ items) : Denotes env k a
  | ref {k items j a} (hk : env k = some items) (hj : .ref j ∈ items) (ha : Denotes env j a) :
      Denotes env k a

/-- What an item brings in. -/
def Item.Gives (env : Env κ α) (a : α) : Item κ α → Prop
  | leaf b => b = a
  | ref j => Denotes env j a

theorem Denotes.of_gives {env : Env κ α} {k : κ} {items : List (Item κ α)} {i : Item κ α} {a : α}
    (hk : env k = some items) (hi : i ∈ items) (h : i.Gives env a) : Denotes env k a := by
  cases i with
  | leaf b =>
    obtain rfl : b = a := h
    exact .leaf hk hi
  | ref j => exact .ref hk hi h

theorem denotes_iff {env : Env κ α} {k : κ} {a : α} :
    Denotes env k a ↔ ∃ items, env k = some items ∧ ∃ i ∈ items, i.Gives env a := by
  constructor
  · intro h
    cases h with
    | leaf hk ha => exact ⟨_, hk, _, ha, rfl⟩
    | ref hk hj ha => exact ⟨_, hk, _, hj, ha⟩
  · rintro ⟨items, hk, i, hi, h⟩
    exact .of_gives hk hi h

/-- Only a name that has a list denotes anything. -/
theorem Denotes.isSome {env : Env κ α} {k : κ} {a : α} (h : Denotes env k a) : (env k).isSome := by
  obtain ⟨items, hk, -⟩ := denotes_iff.mp h
  rw [hk, Option.isSome_some]

/-! ### Chains -/

/-- `k` refers to `j`, and `j` has a list. -/
def Refers (env : Env κ α) (k j : κ) : Prop :=
  ∃ items, env k = some items ∧ .ref j ∈ items ∧ (env j).isSome

/-- Only names that have a list refer to anything. -/
theorem Refers.isSome {env : Env κ α} {k j : κ} (h : Refers env k j) : (env k).isSome := by
  obtain ⟨items, hk, -⟩ := h
  rw [hk, Option.isSome_some]

/-- A chain of `n` references. -/
inductive Chain (env : Env κ α) : ℕ → κ → κ → Prop
  | nil (k) : Chain env 0 k k
  | cons {n k j l} (h : Refers env k j) (hs : Chain env n j l) : Chain env (n + 1) k l

theorem Chain.append {env : Env κ α} {m n : ℕ} {k j l : κ} (h : Chain env m k j)
    (hs : Chain env n j l) : Chain env (m + n) k l := by
  induction h with
  | nil k => rwa [Nat.zero_add]
  | cons h _ ih =>
    rw [Nat.succ_add]
    exact .cons h (ih hs)

theorem Chain.one {env : Env κ α} {k j : κ} (h : Refers env k j) : Chain env 1 k j :=
  .cons h (.nil j)

/-- Where every reference stands for a chain of at least `m`, a chain of `n` stands for one of at
least `n * m`. -/
theorem Chain.refine {env env' : Env κ α} {m : ℕ}
    (href : ∀ k j, Refers env' k j → ∃ n ≥ m, Chain env n k j) {n : ℕ} {k j : κ}
    (h : Chain env' n k j) : ∃ l ≥ n * m, Chain env l k j := by
  induction h with
  | nil k => exact ⟨0, by omega, .nil k⟩
  | @cons n k j l hkj _ ih =>
    obtain ⟨a, ha, hfirst⟩ := href k j hkj
    obtain ⟨b, hb, hrest⟩ := ih
    refine ⟨a + b, ?_, hfirst.append hrest⟩
    have hmul : (n + 1) * m = n * m + m := Nat.succ_mul n m
    omega

/-! ### Substitution -/

/-- What replaces an item: a name that has no list stays. -/
def subst (env : Env κ α) : Item κ α → List (Item κ α)
  | .leaf a => [.leaf a]
  | .ref k => (env k).getD [.ref k]

theorem mem_subst_of_ref {env : Env κ α} {k : κ} {items : List (Item κ α)} {i : Item κ α}
    (hk : env k = some items) (hi : i ∈ items) : i ∈ subst env (.ref k) := by
  show i ∈ (env k).getD [.ref k]
  rwa [hk]

theorem mem_subst_ref {env : Env κ α} {k : κ} {i : Item κ α} (h : i ∈ subst env (.ref k)) :
    (env k = none ∧ i = .ref k) ∨ ∃ items, env k = some items ∧ i ∈ items := by
  cases hk : env k with
  | none => exact .inl ⟨rfl, by simpa [subst, hk] using h⟩
  | some items => exact .inr ⟨items, rfl, by simpa [subst, hk] using h⟩

variable [DecidableEq κ]

/-- The references of one name are replaced. -/
def expandAt (env : Env κ α) (k : κ) : Env κ α :=
  fun j => if j = k then (env j).map (·.flatMap (subst env)) else env j

@[simp]
theorem isSome_expandAt (env : Env κ α) (k j : κ) :
    (expandAt env k j).isSome = (env j).isSome := by
  unfold expandAt
  split
  · exact Option.isSome_map
  · rfl

theorem expandAt_of_ne {env : Env κ α} {k j : κ} (h : j ≠ k) : expandAt env k j = env j := by
  rw [expandAt, if_neg h]

theorem expandAt_self (env : Env κ α) (k : κ) :
    expandAt env k k = (env k).map (·.flatMap (subst env)) := by
  rw [expandAt, if_pos rfl]

/-- The new list of the name, item by item. -/
theorem mem_expandAt_self {env : Env κ α} {k : κ} {items : List (Item κ α)} {i : Item κ α}
    (h : expandAt env k k = some items) :
    i ∈ items ↔ ∃ old, env k = some old ∧ ∃ o ∈ old, i ∈ subst env o := by
  rw [expandAt_self, Option.map_eq_some_iff] at h
  obtain ⟨old, hold, rfl⟩ := h
  simp [hold, List.mem_flatMap]

/-- A replaced list denotes nothing new. -/
theorem Denotes.of_expandAt {env : Env κ α} {k j : κ} {a : α} (h : Denotes (expandAt env k) j a) :
    Denotes env j a := by
  -- what a list of the new environment brings in, the old list brings in
  have hlist : ∀ {l items}, expandAt env k l = some items → ∀ i ∈ items, i.Gives env a →
      Denotes env l a := by
    intro l items hl i hi hgives
    by_cases hlk : l = k
    · subst hlk
      obtain ⟨old, hold, o, ho, hio⟩ := (mem_expandAt_self hl).mp hi
      apply Denotes.of_gives hold ho
      cases o with
      | leaf b =>
        obtain rfl := List.mem_singleton.mp hio
        exact hgives
      | ref m =>
        show Denotes env m a
        rcases mem_subst_ref hio with ⟨-, rfl⟩ | ⟨inner, hm, hi⟩
        · exact hgives
        · exact .of_gives hm hi hgives
    · rw [expandAt_of_ne hlk] at hl
      exact .of_gives hl hi hgives
  induction h with
  | leaf hk ha => exact hlist hk _ ha rfl
  | ref hk hj _ ih => exact hlist hk _ hj (ih hlist)

/-- A replaced list still denotes all that it did. -/
theorem Denotes.to_expandAt {env : Env κ α} {k j : κ} {a : α} (h : Denotes env j a) :
    Denotes (expandAt env k) j a := by
  induction h with
  | @leaf l items a hl ha =>
    by_cases hlk : l = k
    · subst hlk
      have hnew : expandAt env l l = some (items.flatMap (subst env)) := by
        rw [expandAt_self, hl, Option.map_some]
      exact .leaf hnew ((mem_expandAt_self hnew).mpr ⟨items, hl, _, ha, List.mem_singleton_self _⟩)
    · exact .leaf ((expandAt_of_ne hlk).trans hl) ha
  | @ref l items j a hl hj _ ih =>
    by_cases hlk : l = k
    · subst hlk
      have hnew : expandAt env l l = some (items.flatMap (subst env)) := by
        rw [expandAt_self, hl, Option.map_some]
      by_cases hjl : j = l
      · -- the name refers to itself
        rwa [hjl] at ih
      · obtain ⟨inner, hinner, i, hi, hgives⟩ := denotes_iff.mp ih
        rw [expandAt_of_ne hjl] at hinner
        apply Denotes.of_gives hnew _ hgives
        exact (mem_expandAt_self hnew).mpr ⟨items, hl, _, hj, mem_subst_of_ref hinner hi⟩
    · exact .ref ((expandAt_of_ne hlk).trans hl) hj ih

theorem denotes_expandAt {env : Env κ α} {k j : κ} {a : α} :
    Denotes (expandAt env k) j a ↔ Denotes env j a :=
  ⟨.of_expandAt, .to_expandAt⟩

/-! ### Passes -/

/-- One pass over the names, in place. -/
def pass (ks : List κ) (env : Env κ α) : Env κ α := ks.foldl expandAt env

@[simp]
theorem pass_concat (ks : List κ) (k : κ) (env : Env κ α) :
    pass (ks ++ [k]) env = expandAt (pass ks env) k := by
  rw [pass, List.foldl_append]
  rfl

@[simp]
theorem isSome_pass (ks : List κ) (env : Env κ α) (j : κ) :
    (pass ks env j).isSome = (env j).isSome := by
  induction ks using List.reverseRecOn with
  | nil => rfl
  | append_singleton ks k ih => rw [pass_concat, isSome_expandAt, ih]

theorem denotes_pass {ks : List κ} {env : Env κ α} {j : κ} {a : α} :
    Denotes (pass ks env) j a ↔ Denotes env j a := by
  induction ks using List.reverseRecOn with
  | nil => rfl
  | append_singleton ks k ih => rw [pass_concat, denotes_expandAt, ih]

/-- A reference of a replaced list stands for a reference to a name and a reference of that name. -/
theorem refers_expandAt_self {env : Env κ α} {k j : κ} (h : Refers (expandAt env k) k j) :
    ∃ m, Refers env k m ∧ Refers env m j := by
  obtain ⟨items, hk, hj, hsome⟩ := h
  rw [isSome_expandAt] at hsome
  obtain ⟨old, hold, o, ho, hjo⟩ := (mem_expandAt_self hk).mp hj
  cases o with
  | leaf b => exact absurd (List.mem_singleton.mp hjo) (by simp)
  | ref m =>
    rcases mem_subst_ref hjo with ⟨hnone, heq⟩ | ⟨inner, hm, hinner⟩
    · -- a name without a list stays, and no chain goes through it
      obtain rfl : j = m := by simpa using heq
      simp [hnone] at hsome
    · exact ⟨m, ⟨old, hold, ho, by rw [hm]; rfl⟩, inner, hm, hinner, hsome⟩

theorem refers_expandAt_of_ne {env : Env κ α} {k j l : κ} (hne : j ≠ k)
    (h : Refers (expandAt env k) j l) : Refers env j l := by
  obtain ⟨items, hj, hl, hsome⟩ := h
  rw [expandAt_of_ne hne] at hj
  rw [isSome_expandAt] at hsome
  exact ⟨items, hj, hl, hsome⟩

/-- After a pass a reference stands for a chain of at least two: the name that it was taken from
may have been replaced earlier in the pass, which only makes the chain longer. -/
theorem refers_pass {ks : List κ} {env : Env κ α} {k j : κ} (h : Refers (pass ks env) k j) :
    ∃ n ≥ 1, (k ∈ ks → 2 ≤ n) ∧ Chain env n k j := by
  induction ks using List.reverseRecOn generalizing k j with
  | nil => exact ⟨1, Nat.le_refl 1, by simp, .one h⟩
  | append_singleton ks l ih =>
    rw [pass_concat] at h
    by_cases hkl : k = l
    · subst hkl
      obtain ⟨m, hkm, hmj⟩ := refers_expandAt_self h
      obtain ⟨a, ha, -, hfirst⟩ := ih hkm
      obtain ⟨b, hb, -, hrest⟩ := ih hmj
      exact ⟨a + b, by omega, fun _ => by omega, hfirst.append hrest⟩
    · obtain ⟨n, hn, htwo, hchain⟩ := ih (refers_expandAt_of_ne hkl h)
      refine ⟨n, hn, fun hmem => htwo ?_, hchain⟩
      simpa [hkl] using hmem

/-- The passes of the whole resolution. -/
def passes (ks : List κ) (p : ℕ) (env : Env κ α) : Env κ α := (pass ks)^[p] env

theorem passes_succ (ks : List κ) (p : ℕ) (env : Env κ α) :
    passes ks (p + 1) env = pass ks (passes ks p env) :=
  Function.iterate_succ_apply' _ _ _

theorem denotes_passes {ks : List κ} {p : ℕ} {env : Env κ α} {j : κ} {a : α} :
    Denotes (passes ks p env) j a ↔ Denotes env j a := by
  induction p with
  | zero => rfl
  | succ p ih => rw [passes_succ, denotes_pass, ih]

theorem isSome_passes {ks : List κ} {p : ℕ} {env : Env κ α} {j : κ} :
    (passes ks p env j).isSome = (env j).isSome := by
  induction p with
  | zero => rfl
  | succ p ih => rw [passes_succ, isSome_pass, ih]

/-- Path doubling: what is left after `p` passes stands for `2 ^ p` references or more. -/
theorem refers_passes {ks : List κ} {env : Env κ α} (hks : ∀ k, (env k).isSome → k ∈ ks) {p : ℕ}
    {k j : κ} (h : Refers (passes ks p env) k j) : ∃ n ≥ 2 ^ p, Chain env n k j := by
  induction p generalizing k j with
  | zero => exact ⟨1, by simp, .one h⟩
  | succ p ih =>
    rw [passes_succ] at h
    obtain ⟨n, -, htwo, hchain⟩ := refers_pass h
    have hmem : k ∈ ks := by
      apply hks
      have hsome := h.isSome
      rwa [isSome_pass, isSome_passes] at hsome
    obtain ⟨m, hm, hlong⟩ := hchain.refine fun _ _ => ih
    refine ⟨m, ?_, hlong⟩
    have hpow : 2 ^ (p + 1) = 2 * 2 ^ p := Nat.pow_succ'
    have hle : 2 * 2 ^ p ≤ n * 2 ^ p := Nat.mul_le_mul_right _ (htwo hmem)
    omega

/-- Chains that are short enough are resolved: then the lists hold what the names denote. -/
theorem leaf_mem_passes_iff {ks : List κ} {env : Env κ α} {p : ℕ}
    (hks : ∀ k, (env k).isSome → k ∈ ks) (hshort : ∀ n k j, Chain env n k j → n < 2 ^ p)
    {k : κ} {a : α} :
    (∃ items, passes ks p env k = some items ∧ .leaf a ∈ items) ↔ Denotes env k a := by
  constructor
  · rintro ⟨items, hk, ha⟩
    exact denotes_passes.mp (.leaf hk ha)
  · intro h
    cases denotes_passes.mpr h with
    | leaf hk ha => exact ⟨_, hk, ha⟩
    | ref hk hj ha =>
      -- a reference is left, so there was a chain that is too long
      obtain ⟨n, hn, hchain⟩ := refers_passes hks ⟨_, hk, hj, ha.isSome⟩
      exact absurd (hshort _ _ _ hchain) (by omega)

end References
