import Mathlib.Data.List.Sort
import Mathlib.Data.List.Nodup

/-!
# Keyed tables

A `Table α key` is the list of rows of a database table together with the proof that no two rows
have the same primary key, so that a table with a duplicate key cannot be built.  The operations
are the ones an `INSERT`, an `UPDATE .. WHERE` and a `SELECT .. WHERE .. ORDER BY .. LIMIT` need.

A `SELECT` leaves the order of rows with equal sort keys to the engine.  `ScanOrder` is that
freedom: some rearrangement of the rows, chosen by the engine for each query.
-/

/-- The rows of a table, no two of them with the same primary key. -/
structure Table (α : Type*) {κ : Type*} (key : α → κ) where
  /-- The rows, oldest first. -/
  rows : List α
  /-- The primary key is unique. -/
  nodup : (rows.map key).Nodup

/-- The order in which the engine visits the rows of a table for one query. -/
structure ScanOrder (α : Type*) where
  /-- The rows in the order visited. -/
  visit : List α → List α
  /-- Every row is visited exactly once. -/
  visit_perm : ∀ l, (visit l).Perm l

/-- Visit the rows in the order in which they were inserted. -/
def ScanOrder.rowid (α : Type*) : ScanOrder α := ⟨id, fun _ => .refl _⟩

namespace Table

variable {α κ : Type*} {key : α → κ}

/-- The table without rows. -/
def empty : Table α key := ⟨[], List.nodup_nil⟩

@[simp]
theorem rows_empty : (empty : Table α key).rows = [] := rfl

/-- Two rows with the same key are the same row. -/
theorem eq_of_key_eq (t : Table α key) {a b : α} (ha : a ∈ t.rows) (hb : b ∈ t.rows)
    (h : key a = key b) : a = b :=
  List.inj_on_of_nodup_map t.nodup ha hb h

/-! ### Insert -/

section Insert

variable [DecidableEq κ]

/-- Append a row; `none` when its key is taken. -/
def insert? (t : Table α key) (a : α) : Option (Table α key) :=
  if h : key a ∈ t.rows.map key then none
  else some ⟨t.rows ++ [a], by
    rw [List.map_append, List.map_singleton, List.nodup_append]
    refine ⟨t.nodup, List.nodup_singleton _, fun k hk k' hk' heq => h ?_⟩
    rw [← List.mem_singleton.mp hk', ← heq]
    exact hk⟩

theorem insert?_eq_some {t t' : Table α key} {a : α} (h : t.insert? a = some t') :
    key a ∉ t.rows.map key ∧ t'.rows = t.rows ++ [a] := by
  unfold insert? at h
  split_ifs at h with hk
  obtain rfl := Option.some.inj h
  exact ⟨hk, rfl⟩

/-- Append rows; `none` when the key of one is taken, by a row of the table or by one before it. -/
def insertAll? (t : Table α key) (as : List α) : Option (Table α key) := as.foldlM insert? t

theorem insertAll?_eq_some {t t' : Table α key} {as : List α} (h : t.insertAll? as = some t') :
    t'.rows = t.rows ++ as := by
  induction as generalizing t with
  | nil =>
    obtain rfl := Option.some.inj h
    exact (List.append_nil _).symm
  | cons a as ih =>
    obtain ⟨u, hu, h⟩ := Option.bind_eq_some_iff.mp h
    rw [ih h, (insert?_eq_some hu).2, List.append_assoc, List.singleton_append]

theorem exists_insertAll? {t : Table α key} {as : List α}
    (h : (t.rows.map key ++ as.map key).Nodup) : ∃ t', t.insertAll? as = some t' := by
  induction as generalizing t with
  | nil => exact ⟨t, rfl⟩
  | cons a as ih =>
    rw [List.map_cons, List.append_cons] at h
    have hfree : key a ∉ t.rows.map key := by
      intro hmem
      have hnodup := (List.nodup_append.mp h).1
      have := (List.nodup_append.mp hnodup).2.2 (key a) hmem (key a) (List.mem_singleton.mpr rfl)
      exact this rfl
    obtain ⟨u, hu⟩ : ∃ u, t.insert? a = some u := by
      rw [insert?, dif_neg hfree]
      exact ⟨_, rfl⟩
    obtain ⟨t', ht'⟩ := ih (t := u) (by
      rwa [(insert?_eq_some hu).2, List.map_append, List.map_singleton])
    exact ⟨t', by rw [insertAll?, List.foldlM_cons, hu]; exact ht'⟩

/-- The row with the given key. -/
def find? (t : Table α key) (k : κ) : Option α := t.rows.find? fun a => key a = k

theorem find?_eq_none_iff {t : Table α key} {k : κ} :
    t.find? k = none ↔ ∀ a ∈ t.rows, key a ≠ k := by
  simp [find?, List.find?_eq_none]

/-- The key identifies the row found. -/
theorem find?_eq_some_iff {t : Table α key} {k : κ} {a : α} :
    t.find? k = some a ↔ a ∈ t.rows ∧ key a = k := by
  have sound : ∀ {b}, t.find? k = some b → b ∈ t.rows ∧ key b = k := fun {b} hb =>
    ⟨List.mem_of_find?_eq_some hb, by simpa using List.find?_some hb⟩
  refine ⟨sound, fun ⟨ha, hk⟩ => ?_⟩
  match h : t.find? k with
  | none => exact absurd hk (find?_eq_none_iff.mp h a ha)
  | some b =>
    obtain ⟨hb, hkb⟩ := sound h
    rw [t.eq_of_key_eq hb ha (hkb.trans hk.symm)]

@[simp]
theorem find?_empty (k : κ) : (empty : Table α key).find? k = none := rfl

theorem insert?_eq_none {t : Table α key} {a : α} (h : t.insert? a = none) :
    ∃ b, t.find? (key a) = some b := by
  unfold insert? at h
  split_ifs at h with hk
  obtain ⟨b, hb, hkey⟩ := List.mem_map.mp hk
  exact ⟨b, find?_eq_some_iff.mpr ⟨hb, hkey⟩⟩

/-- The new row is found under its key, and the others as before. -/
theorem find?_of_insert? {t t' : Table α key} {a : α} (h : t.insert? a = some t') (k : κ) :
    t'.find? k = if k = key a then some a else t.find? k := by
  obtain ⟨hfree, hrows⟩ := insert?_eq_some h
  ext b
  rw [find?_eq_some_iff, hrows, List.mem_append, List.mem_singleton]
  split_ifs with hk
  · rw [Option.some.injEq]
    constructor
    · rintro ⟨hb | rfl, hkey⟩
      · exact absurd (List.mem_map.mpr ⟨b, hb, hkey.trans hk⟩) hfree
      · rfl
    · rintro rfl
      exact ⟨.inr rfl, hk.symm⟩
  · rw [find?_eq_some_iff]
    constructor
    · rintro ⟨hb | rfl, hkey⟩
      · exact ⟨hb, hkey⟩
      · exact absurd hkey.symm hk
    · rintro ⟨hb, hkey⟩
      exact ⟨.inl hb, hkey⟩

end Insert

/-! ### Delete -/

/-- Keep the rows that do not satisfy `p`. -/
def delete (t : Table α key) (p : α → Bool) : Table α key :=
  ⟨t.rows.filter fun a => !p a, t.nodup.sublist (List.filter_sublist.map key)⟩

@[simp]
theorem rows_delete (t : Table α key) (p : α → Bool) :
    (t.delete p).rows = t.rows.filter fun a => !p a := rfl

theorem find?_delete [DecidableEq κ] (t : Table α key) (p : α → Bool) (k : κ) :
    (t.delete p).find? k = (t.find? k).filter fun a => !p a := by
  ext a
  rw [find?_eq_some_iff, rows_delete, List.mem_filter, Option.filter_eq_some_iff, find?_eq_some_iff]
  exact and_right_comm

/-! ### Update -/

section Update

/-- Rewrite the rows that satisfy `p` with `f`, which leaves their keys alone. -/
def update (t : Table α key) (p : α → Bool) (f : α → α) (hf : ∀ a, key (f a) = key a) :
    Table α key where
  rows := t.rows.map fun a => if p a then f a else a
  nodup := by
    have h : key ∘ (fun a => if p a then f a else a) = key := by
      funext a
      simp only [Function.comp_apply]
      split_ifs
      · exact hf a
      · rfl
    rw [List.map_map, h]
    exact t.nodup

variable {t : Table α key} {p : α → Bool} {f : α → α} {hf : ∀ a, key (f a) = key a}

theorem mem_update {b : α} :
    b ∈ (t.update p f hf).rows ↔ ∃ a ∈ t.rows, (if p a then f a else a) = b := by
  simp [update]

theorem find?_update [DecidableEq κ] (k : κ) :
    (t.update p f hf).find? k = (t.find? k).map fun a => if p a then f a else a := by
  ext b
  rw [find?_eq_some_iff, mem_update, Option.map_eq_some_iff]
  have hkey : ∀ a, key (if p a then f a else a) = key a := by
    intro a
    split_ifs
    · exact hf a
    · rfl
  constructor
  · rintro ⟨⟨a, ha, rfl⟩, hk⟩
    exact ⟨a, find?_eq_some_iff.mpr ⟨ha, (hkey a).symm.trans hk⟩, rfl⟩
  · rintro ⟨a, ha, rfl⟩
    obtain ⟨ha, hk⟩ := find?_eq_some_iff.mp ha
    exact ⟨⟨a, ha, rfl⟩, (hkey a).trans hk⟩

/-- An update that does not change whether a row satisfies `q` keeps the number of rows that do. -/
theorem countP_update {q : α → Bool} (h : ∀ a ∈ t.rows, p a → q (f a) = q a) :
    (t.update p f hf).rows.countP q = t.rows.countP q := by
  rw [update, List.countP_map]
  refine List.countP_congr fun a ha => ?_
  simp only [Function.comp_apply]
  split_ifs with hp
  · rw [h a ha hp]
  · rfl

/-- An update that keeps `q` where it held does not make fewer rows satisfy `q`. -/
theorem countP_le_update {q : α → Bool} (h : ∀ a ∈ t.rows, p a → q a → q (f a)) :
    t.rows.countP q ≤ (t.update p f hf).rows.countP q := by
  rw [update, List.countP_map]
  refine List.countP_mono_left fun a ha hq => ?_
  simp only [Function.comp_apply]
  split_ifs with hp
  · exact h a ha hp hq
  · exact hq

/-- It makes more of them satisfy `q` when some row did not before and does now. -/
theorem countP_lt_update {q : α → Bool} (h : ∀ a ∈ t.rows, p a → q a → q (f a)) {b : α}
    (hb : b ∈ t.rows) (hp : p b) (hq : q b = false) (hq' : q (f b)) :
    t.rows.countP q < (t.update p f hf).rows.countP q := by
  have hle : ∀ l : List α, (∀ a ∈ l, p a → q a → q (f a)) →
      l.countP q ≤ l.countP (q ∘ fun a => if p a then f a else a) := by
    intro l hl
    refine List.countP_mono_left fun a ha hqa => ?_
    simp only [Function.comp_apply]
    split_ifs with hpa
    · exact hl a ha hpa hqa
    · exact hqa
  rw [update, List.countP_map]
  obtain ⟨l₁, l₂, heq⟩ := List.append_of_mem hb
  rw [heq] at h ⊢
  have h1 := hle l₁ fun a ha => h a (by simp [ha])
  have h2 := hle l₂ fun a ha => h a (by simp [ha])
  have h3 : (q ∘ fun a => if p a then f a else a) b = true := by simp [hp, hq']
  simp only [List.countP_append, List.countP_cons, hq, h3]
  simp only [Bool.false_eq_true, if_false, if_true]
  omega

end Update

/-! ### Select -/

section Select

variable (t : Table α key) (order : ScanOrder α) (p : α → Bool) (r : α → α → Prop)
  [DecidableRel r]

/-- `SELECT * WHERE p ORDER BY r LIMIT limit OFFSET offset`. -/
def select (limit offset : ℕ) : List α :=
  ((((order.visit t.rows).filter p).insertionSort r).drop offset).take limit

variable {t order p r} {limit offset : ℕ}

theorem mem_of_mem_select {a : α} (h : a ∈ t.select order p r limit offset) :
    a ∈ t.rows ∧ p a := by
  have h1 := List.mem_of_mem_drop (List.mem_of_mem_take h)
  rw [List.mem_insertionSort, List.mem_filter, (order.visit_perm _).mem_iff] at h1
  exact h1

/-- As many rows are selected as satisfy the condition, up to the limit. -/
theorem length_select : (t.select order p r limit 0).length = min limit (t.rows.countP p) := by
  have hperm : (((order.visit t.rows).filter p).insertionSort r).Perm (t.rows.filter p) :=
    (List.perm_insertionSort r _).trans ((order.visit_perm t.rows).filter p)
  rw [select, List.drop_zero, List.length_take, hperm.length_eq, List.countP_eq_length_filter]

/-- The first element of a sorted list is a least one. -/
theorem rel_of_insertionSort_head? [Std.Total r] [IsTrans α r] {l : List α} {a b : α}
    (h : (l.insertionSort r).head? = some a) (hb : b ∈ l) : r a b := by
  have hsorted : (l.insertionSort r).Pairwise r := List.pairwise_insertionSort r l
  have hbs : b ∈ l.insertionSort r := (List.mem_insertionSort r).mpr hb
  obtain ⟨rest, heq⟩ := List.head?_eq_some_iff.mp h
  rw [heq] at hsorted hbs
  rcases List.mem_cons.mp hbs with rfl | hmem
  · exact (Std.Total.total (r := r) b b).elim id id
  · exact (List.pairwise_cons.mp hsorted).1 b hmem

/-- The first row selected is a least one. -/
theorem rel_of_select_head? [Std.Total r] [IsTrans α r] {a b : α}
    (h : (t.select order p r limit 0).head? = some a) (hb : b ∈ t.rows) (hp : p b) : r a b := by
  have hbl : b ∈ (order.visit t.rows).filter p := by
    rw [List.mem_filter, (order.visit_perm _).mem_iff]
    exact ⟨hb, hp⟩
  rw [select, List.drop_zero, List.head?_take] at h
  split_ifs at h
  exact rel_of_insertionSort_head? h hbl

/-- Something is selected as soon as one row qualifies. -/
theorem exists_select_head? {b : α} (hlimit : 0 < limit) (hb : b ∈ t.rows) (hp : p b) :
    ∃ a, (t.select order p r limit 0).head? = some a := by
  have hbl : b ∈ ((order.visit t.rows).filter p).insertionSort r := by
    rw [List.mem_insertionSort, List.mem_filter, (order.visit_perm _).mem_iff]
    exact ⟨hb, hp⟩
  rw [select, List.drop_zero, List.head?_take, if_neg hlimit.ne']
  exact Option.isSome_iff_exists.mp (List.isSome_head?.mpr (List.ne_nil_of_mem hbl))

/-- When the elements with `q` come first, the first `n` elements go beyond them iff there are fewer
than `n` of them. -/
theorem exists_mem_take_not_iff {l : List α} {q : α → Bool} {n : ℕ}
    (h : l.Pairwise fun a b => q b → q a) :
    (∃ a ∈ l.take n, q a = false) ↔ l.countP q < n ∧ ∃ a ∈ l, q a = false := by
  induction l generalizing n with
  | nil => simp
  | cons a l ih =>
    obtain ⟨hhead, htail⟩ := List.pairwise_cons.mp h
    cases n with
    | zero => simp
    | succ n =>
      rw [List.take_succ_cons]
      by_cases hq : q a = true
      · rw [List.countP_cons_of_pos hq]
        have hcons : ∀ l' : List α, (∃ b ∈ a :: l', q b = false) ↔ ∃ b ∈ l', q b = false := by
          intro l'
          simp [hq]
        rw [hcons, hcons, ih htail, Nat.add_lt_add_iff_right]
      · -- nothing after `a` has `q`
        have hnone : (a :: l).countP q = 0 := by
          refine List.countP_eq_zero.mpr fun b hb hqb => ?_
          rcases List.mem_cons.mp hb with rfl | hb
          · exact hq hqb
          · exact hq (hhead b hb hqb)
        have ha : q a = false := by simpa using hq
        rw [hnone]
        constructor
        · intro _
          exact ⟨n.succ_pos, a, List.mem_cons_self, ha⟩
        · intro _
          exact ⟨a, List.mem_cons_self, ha⟩

/-- A limit leaves room beyond the rows with `q`, which come first, iff they are fewer than it. -/
theorem exists_mem_select_not_iff [Std.Total r] [IsTrans α r] {q : α → Bool}
    (hq : ∀ a b, r a b → q b → q a) :
    (∃ a ∈ t.select order p r limit 0, q a = false) ↔
      (t.rows.filter p).countP q < limit ∧ ∃ a ∈ t.rows.filter p, q a = false := by
  set l := ((order.visit t.rows).filter p).insertionSort r with hl
  have hsorted : l.Pairwise fun a b => q b → q a :=
    (List.pairwise_insertionSort r _).imp fun {a b} hab => hq a b hab
  have hperm : l.Perm (t.rows.filter p) :=
    (List.perm_insertionSort r _).trans ((order.visit_perm t.rows).filter p)
  rw [select, List.drop_zero, ← hl, exists_mem_take_not_iff hsorted, hperm.countP_eq]
  simp only [hperm.mem_iff]

end Select

end Table
