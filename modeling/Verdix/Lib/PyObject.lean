import Verdix.Lib.Except
import Verdix.Lib.Python
import Mathlib.Algebra.Order.Ring.Rat

/-!
# Python objects

What a parsed document is in Python: values that do not change, and lists, tuples, dictionaries and
sets that live in a heap and may be shared or contain themselves.  A `for` statement asks the object
for one item after the other, so a dictionary that changes its size under a loop is noticed
(`forLive`).
-/

namespace PyObject

/-- A value that does not change. -/
inductive Scalar
  | none
  | bool (b : Bool)
  | int (n : ℤ)
  /-- A float with its `repr`; no value if it is not finite. -/
  | float (value : Option ℚ) (repr : String)
  | str (s : String)
  | bytes (bs : List UInt8)
  /-- A date or a time, by its `isoformat`. -/
  | time (isoformat : String)
  deriving DecidableEq

/-- The numbers, among them `True` and `False`. -/
def Scalar.number? : Scalar → Option ℚ
  | .bool b => some (if b then 1 else 0)
  | .int n => some n
  | .float value _ => value
  | _ => Option.none

/-- `a == b`. -/
def Scalar.eq (a b : Scalar) : Bool :=
  match a.number?, b.number? with
  | some x, some y => x = y
  | Option.none, Option.none => a = b ∧ a ≠ .float Option.none "nan"
  | _, _ => false

inductive Value
  | scalar (s : Scalar)
  | ref (address : ℕ)
  deriving DecidableEq

inductive Obj
  | list (items : List Value)
  | tuple (items : List Value)
  /-- In the order in which the keys were added. -/
  | dict (members : List (Scalar × Value))
  | set (items : List Scalar)
  deriving DecidableEq

abbrev Heap := List Obj

/-! ### Dictionaries -/

/-- The members of a dictionary. -/
def members (heap : Heap) (address : ℕ) : List (Scalar × Value) :=
  match heap[address]? with
  | some (.dict members) => members
  | _ => []

/-- `isinstance(v, dict)`, with the address. -/
def dict? (heap : Heap) : Value → Option ℕ
  | .scalar _ => none
  | .ref address =>
    match heap[address]? with
    | some (.dict _) => some address
    | _ => none

/-- `d.get(key)`. -/
def lookup (members : List (Scalar × Value)) (key : Scalar) : Option Value :=
  (members.find? fun m => m.1.eq key).map Prod.snd

/-- `d[key] = v`: a key that is there stays. -/
def insert (members : List (Scalar × Value)) (key : Scalar) (v : Value) : List (Scalar × Value) :=
  if members.any fun m => m.1.eq key then members.map fun m => if m.1.eq key then (m.1, v) else m
  else members ++ [(key, v)]

def setItem (heap : Heap) (address : ℕ) (key : Scalar) (v : Value) : Heap :=
  heap.set address (.dict (insert (members heap address) key v))

/-- `d.pop(key, None)`, without the value. -/
def popItem (heap : Heap) (address : ℕ) (key : Scalar) : Heap :=
  heap.set address (.dict ((members heap address).eraseP fun m => m.1.eq key))

/-! ### Truth, iteration -/

def Scalar.truthy : Scalar → Bool
  | .none => false
  | .bool b => b
  | .int n => n ≠ 0
  | .float value _ => value ≠ some 0
  | .str s => s ≠ ""
  | .bytes bs => bs ≠ []
  | .time _ => true

/-- `bool(v)`. -/
def truthy (heap : Heap) : Value → Bool
  | .scalar s => s.truthy
  | .ref address =>
    match heap[address]? with
    | some (.list items) | some (.tuple items) => items ≠ []
    | some (.dict members) => members ≠ []
    | some (.set items) => items ≠ []
    | none => false

/-- The items that a loop over the value goes through. -/
def iter (heap : Heap) : Value → Except PyError (List Value)
  | .scalar (.str s) => .ok (s.toList.map fun c => .scalar (.str (String.singleton c)))
  | .scalar (.bytes bs) => .ok (bs.map fun b => .scalar (.int b.toNat))
  | .scalar _ => .error .typeError
  | .ref address =>
    match heap[address]? with
    | some (.list items) | some (.tuple items) => .ok items
    | some (.dict members) => .ok (members.map fun m => .scalar m.1)
    | some (.set items) => .ok (items.map .scalar)
    | none => .error .typeError

variable {σ α ε : Type}

/-- Round `i` of a loop over `items` that has begun with `size` of them.  The size is compared before
the next item is asked for. -/
def liveRound (items : σ → List α) (changed : ε) (body : σ → α → Except ε σ) (size : ℕ) (s : σ)
    (i : ℕ) : Except ε σ :=
  match (items s)[i]? with
  | none => .ok s
  | some x =>
    match body s x with
    | .error e => .error e
    | .ok t => if (items t).length = size then .ok t else .error changed

/-- A `for` statement over `items`, which its body may change. -/
def forLive (items : σ → List α) (changed : ε) (body : σ → α → Except ε σ) (s : σ) : Except ε σ :=
  (List.range (items s).length).foldlM (liveRound items changed body (items s).length) s

/-! ### Documents -/

/-- The objects of a document, which refer to each other by their places, and its root. -/
structure Graph where
  objs : List Obj
  root : Value
  deriving DecidableEq

def Value.shift (k : ℕ) : Value → Value
  | .scalar s => .scalar s
  | .ref address => .ref (address + k)

def Obj.shift (k : ℕ) : Obj → Obj
  | .list items => .list (items.map (Value.shift k))
  | .tuple items => .tuple (items.map (Value.shift k))
  | .dict members => .dict (members.map fun m => (m.1, m.2.shift k))
  | .set items => .set items

/-- The heap with the objects of a new document. -/
def link (heap : Heap) (graph : Graph) : Heap := heap ++ graph.objs.map (Obj.shift heap.length)

/-! ### Looking at a value -/

/-- A value to some depth, without the places of its objects. -/
inductive View
  | scalar (s : Scalar)
  | list (items : List View)
  | tuple (items : List View)
  | dict (members : List (Scalar × View))
  | set (items : List Scalar)
  | cut

def view (heap : Heap) : ℕ → Value → View
  | 0, _ => .cut
  | _ + 1, .scalar s => .scalar s
  | depth + 1, .ref address =>
    match heap[address]? with
    | some (.list items) => .list (items.map (view heap depth))
    | some (.tuple items) => .tuple (items.map (view heap depth))
    | some (.dict members) => .dict (members.map fun m => (m.1, view heap depth m.2))
    | some (.set items) => .set items
    | none => .cut

/-! ### What stays -/

/-- An object as it may be later: only dictionaries change, and they lose no key. -/
inductive Obj.Kept : Obj → Obj → Prop
  | list (items : List Value) : Kept (.list items) (.list items)
  | tuple (items : List Value) : Kept (.tuple items) (.tuple items)
  | set (items : List Scalar) : Kept (.set items) (.set items)
  | dict {members members' : List (Scalar × Value)}
      (h : members.map Prod.fst <+: members'.map Prod.fst) : Kept (.dict members) (.dict members')

theorem Obj.Kept.refl (o : Obj) : Obj.Kept o o := by
  cases o with
  | list items => exact .list items
  | tuple items => exact .tuple items
  | dict members => exact .dict (List.prefix_refl _)
  | set items => exact .set items

theorem Obj.Kept.trans {o o' o'' : Obj} (h : Obj.Kept o o') (h' : Obj.Kept o' o'') :
    Obj.Kept o o'' := by
  cases h with
  | list items => exact h'
  | tuple items => exact h'
  | set items => exact h'
  | dict h =>
    cases h' with
    | dict h' => exact .dict (h.trans h')

/-- Every object of the heap is kept. -/
def Kept (heap heap' : Heap) : Prop :=
  ∀ (address : ℕ) (o : Obj), heap[address]? = some o →
    ∃ o', heap'[address]? = some o' ∧ Obj.Kept o o'

variable {heap heap' heap'' : Heap} {address : ℕ} {v : Value}

theorem Kept.refl (heap : Heap) : Kept heap heap := fun _ o h => ⟨o, h, .refl o⟩

/-- What is kept twice is kept. -/
theorem Kept.trans (h : Kept heap heap') (h' : Kept heap' heap'') : Kept heap heap'' := by
  intro address o ho
  obtain ⟨o', ho', hkept⟩ := h address o ho
  obtain ⟨o'', ho'', hkept'⟩ := h' address o' ho'
  exact ⟨o'', ho'', hkept.trans hkept'⟩

/-- New objects come behind the others. -/
theorem kept_append (heap new : Heap) : Kept heap (heap ++ new) := by
  intro address o ho
  have hlt : address < heap.length := (List.getElem?_eq_some_iff.mp ho).1
  exact ⟨o, by rwa [List.getElem?_append_left hlt], .refl o⟩

/-- There is a dictionary at the address. -/
def IsDict (heap : Heap) (address : ℕ) : Prop := ∃ members, heap[address]? = some (.dict members)

/-- A dictionary stays one. -/
theorem IsDict.kept (h : IsDict heap address) (hk : Kept heap heap') : IsDict heap' address := by
  obtain ⟨members, hmembers⟩ := h
  obtain ⟨o, ho, hkept⟩ := hk address _ hmembers
  cases hkept with
  | dict _ => exact ⟨_, ho⟩

/-- What is taken for a dictionary is a reference to one. -/
theorem isDict_of_dict? (h : dict? heap v = some address) : v = .ref address ∧ IsDict heap address := by
  unfold dict? at h
  split at h
  · contradiction
  · rename_i a
    split at h
    · rename_i members hmembers
      obtain rfl := Option.some.inj h
      exact ⟨rfl, members, hmembers⟩
    · contradiction

/-- Setting an item keeps the keys in their order; a new key comes last. -/
theorem keys_insert (members : List (Scalar × Value)) (key : Scalar) (v : Value) :
    members.map Prod.fst <+: (insert members key v).map Prod.fst := by
  unfold insert
  split
  · rw [List.map_map]
    have hsame : (Prod.fst ∘ fun m : Scalar × Value => if m.1.eq key then (m.1, v) else m) =
        Prod.fst := by
      funext m
      show (if m.1.eq key then (m.1, v) else m).1 = m.1
      split
      · rfl
      · rfl
    rw [hsame]
  · rw [List.map_append]
    exact List.prefix_append _ _

/-- Setting an item of a dictionary. -/
theorem kept_setItem (h : IsDict heap address) (key : Scalar) (v : Value) :
    Kept heap (setItem heap address key v) := by
  intro a o ho
  obtain ⟨ms, hms⟩ := h
  unfold setItem
  -- only the object at the address is another one
  by_cases ha : address = a
  · subst ha
    obtain rfl := Option.some.inj (hms.symm.trans ho)
    have hmembers : members heap address = ms := by
      rw [members, hms]
    rw [hmembers]
    exact ⟨_, List.getElem?_set_self (List.getElem?_eq_some_iff.mp hms).1, .dict (keys_insert ms key v)⟩
  · exact ⟨o, by rwa [List.getElem?_set_ne ha], .refl o⟩

/-- A loop goes through the same items later, and perhaps more. -/
theorem iter_kept {items : List Value} (h : Kept heap heap') (hi : iter heap v = .ok items) :
    ∃ items', iter heap' v = .ok items' ∧ items <+: items' := by
  cases v with
  | scalar s =>
    have hsame : iter heap' (.scalar s) = iter heap (.scalar s) := by
      cases s with
      | _ => rfl
    exact ⟨items, hsame.trans hi, List.prefix_refl _⟩
  | ref a =>
    simp only [iter] at hi ⊢
    cases ho : heap[a]? with
    | none =>
      rw [ho] at hi
      contradiction
    | some o =>
      obtain ⟨o', ho', hkept⟩ := h a o ho
      rw [ho] at hi
      rw [ho']
      -- only a dictionary may have more keys than before
      cases hkept with
      | list l => exact ⟨items, hi, List.prefix_refl _⟩
      | tuple l => exact ⟨items, hi, List.prefix_refl _⟩
      | set l => exact ⟨items, hi, List.prefix_refl _⟩
      | @dict ms ms' hkeys =>
        obtain rfl := Except.ok.inj hi
        refine ⟨_, rfl, ?_⟩
        have hmap := hkeys.map Value.scalar
        rwa [List.map_map, List.map_map] at hmap

/-- Taking an item out of a dictionary that is newer than the heap. -/
theorem kept_popItem (h : Kept heap heap') (hnew : heap.length ≤ address) (key : Scalar) :
    Kept heap (popItem heap' address key) := by
  intro a o ho
  obtain ⟨o', ho', hkept⟩ := h a o ho
  have hlt : a < heap.length := (List.getElem?_eq_some_iff.mp ho).1
  -- the address of the new dictionary is none of the old heap
  have hne : address ≠ a := by omega
  exact ⟨o', by rwa [popItem, List.getElem?_set_ne hne], hkept⟩

/-- A dictionary without an item is still a dictionary. -/
theorem isDict_popItem (h : IsDict heap address) (key : Scalar) :
    IsDict (popItem heap address key) address := by
  obtain ⟨ms, hms⟩ := h
  exact ⟨_, List.getElem?_set_self (List.getElem?_eq_some_iff.mp hms).1⟩

/-! ### Loops over what stays -/

section Loop

variable {items : σ → List α} {changed : ε} {body : σ → α → Except ε σ} {P : σ → Prop} {s t : σ}

/-- A round for an item, after which the size is compared. -/
def checkedRound (items : σ → List α) (changed : ε) (body : σ → α → Except ε σ) (size : ℕ) (s : σ)
    (x : α) : Except ε σ := do
  let t ← body s x
  if (items t).length = size then return t else .error changed

/-- A round is passed iff its body is, with as many items as before. -/
theorem checkedRound_eq_ok {size : ℕ} {x : α} :
    checkedRound items changed body size s x = .ok t ↔
      body s x = .ok t ∧ (items t).length = size := by
  unfold checkedRound
  rw [Except.bind_eq_ok]
  constructor
  · rintro ⟨u, hu, h⟩
    split at h
    · rename_i hsize
      obtain rfl := Except.ok.inj h
      exact ⟨hu, hsize⟩
    · contradiction
  · rintro ⟨ht, hsize⟩
    exact ⟨t, ht, if_pos hsize⟩

theorem checkedRound_congr {body' : σ → α → Except ε σ} {x : α} (h : body s x = body' s x)
    (size : ℕ) :
    checkedRound items changed body size s x = checkedRound items changed body' size s x := by
  unfold checkedRound
  rw [h]

/-- Where there is an item, a round of the loop is the round for it. -/
theorem liveRound_of_getElem? {size i : ℕ} {x : α} (hx : (items s)[i]? = some x) :
    liveRound items changed body size s i = checkedRound items changed body size s x := by
  unfold liveRound checkedRound
  rw [hx]
  cases hbody : body s x with
  | error e => simp [hbody, bind, Except.bind]
  | ok t => simp [hbody, bind, Except.bind, pure, Except.pure]

/-- What every body keeps, the loop keeps. -/
theorem forLive_preserves (hbody : ∀ s x t, body s x = .ok t → P s → P t)
    (h : forLive items changed body s = .ok t) (hs : P s) : P t := by
  refine Except.foldlM_preserves (fun u i v huv hu => ?_) h hs
  -- an index past the end ends the loop
  cases hx : (items u)[i]? with
  | none =>
    rw [liveRound, hx] at huv
    obtain rfl := Except.ok.inj huv
    exact hu
  | some x =>
    rw [liveRound_of_getElem? hx, checkedRound_eq_ok] at huv
    exact hbody u x v huv.1 hu

/-- If the items stay as long as there are as many of them, the loop goes through those of its
beginning. -/
theorem forLive_eq_foldlM (hbody : ∀ s x t, body s x = .ok t → P s → P t) (hs : P s)
    (hitems : ∀ t, P t → (items t).length = (items s).length → items t = items s) :
    forLive items changed body s =
      (items s).foldlM (checkedRound items changed body (items s).length) s := by
  -- the loop from some place on, in a state with the same items
  have hrest : ∀ (rest done : List α) (t : σ), items s = done ++ rest → P t → items t = items s →
      (List.range' done.length rest.length).foldlM
          (liveRound items changed body (items s).length) t =
        rest.foldlM (checkedRound items changed body (items s).length) t := by
    intro rest
    induction rest with
    | nil => exact fun done t _ _ _ => rfl
    | cons x rest ih =>
      intro done t hsplit ht hsame
      have hx : (items t)[done.length]? = some x := by
        rw [hsame, hsplit]
        simp
      rw [List.length_cons, List.range'_succ, List.foldlM_cons, List.foldlM_cons,
        liveRound_of_getElem? hx]
      cases hround : checkedRound items changed body (items s).length t x with
      | error e => rfl
      | ok u =>
        obtain ⟨hu, hsize⟩ := checkedRound_eq_ok.mp hround
        have hP : P u := hbody t x u hu ht
        have hnext := ih (done ++ [x]) u (by simp [hsplit]) hP (hitems u hP hsize)
        rw [List.length_append] at hnext
        exact hnext
  rw [forLive, List.range_eq_range']
  exact hrest (items s) [] s rfl hs rfl

end Loop

/-! ### Items -/

/-- What a loop over the object goes through. -/
def Obj.items : Obj → List Value
  | .list items => items
  | .tuple items => items
  | .dict members => members.map fun m => .scalar m.1
  | .set items => items.map .scalar

/-- A loop over an object goes through its items. -/
theorem iter_ref {o : Obj} (h : heap[address]? = some o) :
    iter heap (.ref address) = .ok o.items := by
  rw [iter, h]
  cases o with
  | _ => rfl

/-- An object counts as false iff it is empty. -/
theorem truthy_ref {o : Obj} (h : heap[address]? = some o) :
    truthy heap (.ref address) = true ↔ o.items ≠ [] := by
  rw [truthy, h]
  cases o with
  | _ => simp [Obj.items]

theorem members_of_isDict {ms : List (Scalar × Value)} (h : heap[address]? = some (.dict ms)) :
    members heap address = ms := by
  rw [members, h]

/-! ### Replacing a value -/

/-- Only a string equals a string. -/
theorem Scalar.eq_str_iff {s : Scalar} {t : String} : s.eq (.str t) = true ↔ s = .str t := by
  cases s with
  | float value repr =>
    cases value with
    | _ => simp [Scalar.eq, Scalar.number?]
  | _ => simp [Scalar.eq, Scalar.number?]

/-- The members with another value under a key. -/
def modifyItem (key : Scalar) (f : Value → Value) : List (Scalar × Value) → List (Scalar × Value)
  | [] => []
  | m :: ms => if m.1.eq key then (m.1, f m.2) :: ms else m :: modifyItem key f ms

section ModifyItem

variable (key : Scalar) (f : Value → Value) (ms : List (Scalar × Value))

/-- The first member under the key is found. -/
theorem lookup_cons (m : Scalar × Value) :
    lookup (m :: ms) key = if m.1.eq key then some m.2 else lookup ms key := by
  by_cases hm : m.1.eq key = true
  · rw [if_pos hm, lookup, List.find?_cons, hm]
    rfl
  · rw [if_neg hm, lookup, List.find?_cons, Bool.eq_false_iff.mpr hm]
    rfl

/-- The value under the key is the new one. -/
theorem lookup_modifyItem : lookup (modifyItem key f ms) key = (lookup ms key).map f := by
  induction ms with
  | nil => rfl
  | cons m ms ih =>
    rw [modifyItem, lookup_cons]
    split
    · rename_i hm
      rw [lookup_cons, if_pos hm]
      rfl
    · rename_i hm
      rw [lookup_cons, if_neg hm, ih]

/-- Without the key, the members are the same. -/
theorem eraseP_modifyItem :
    (modifyItem key f ms).eraseP (fun m => m.1.eq key) = ms.eraseP fun m => m.1.eq key := by
  induction ms with
  | nil => rfl
  | cons m ms ih =>
    rw [modifyItem, List.eraseP_cons]
    split
    · -- both sides drop the first member under the key
      rename_i hm
      rw [List.eraseP_cons, hm]
      rfl
    · rename_i hm
      rw [List.eraseP_cons, Bool.eq_false_iff.mpr hm, ih]
      rfl

/-- A function that leaves the value leaves the members. -/
theorem modifyItem_of_eq {v : Value} (hv : lookup ms key = some v) (hf : f v = v) :
    modifyItem key f ms = ms := by
  induction ms with
  | nil => rfl
  | cons m ms ih =>
    rw [lookup_cons] at hv
    rw [modifyItem]
    split
    · rename_i hm
      rw [if_pos hm] at hv
      obtain rfl : m.2 = v := Option.some.inj hv
      rw [hf]
    · rename_i hm
      rw [if_neg hm] at hv
      rw [ih hv]

end ModifyItem

/-! ### A document in a heap -/

section Relocate

/-- The heap with the objects of another one, whose addresses are shifted. -/
def relocate (base heap : Heap) : Heap := base ++ heap.map (Obj.shift base.length)

/-- A document is linked behind the objects that are there. -/
theorem link_eq_relocate (base : Heap) (graph : Graph) : link base graph = relocate base graph.objs :=
  rfl

variable (base heap : Heap) (address : ℕ) (v : Value) (key : Scalar)

theorem length_relocate : (relocate base heap).length = heap.length + base.length := by
  rw [relocate, List.length_append, List.length_map, Nat.add_comm]

/-- Each object is found at its shifted address, with its references shifted. -/
theorem getElem?_relocate : (relocate base heap)[address + base.length]? =
    heap[address]?.map (Obj.shift base.length) := by
  rw [relocate, List.getElem?_append_right (Nat.le_add_left _ _), Nat.add_sub_cancel,
    List.getElem?_map]

/-- What is a dictionary stays one, at its shifted address. -/
theorem dict?_relocate : dict? (relocate base heap) (v.shift base.length) =
    (dict? heap v).map (· + base.length) := by
  cases v with
  | scalar s => rfl
  | ref a =>
    show dict? (relocate base heap) (.ref (a + base.length)) = _
    simp only [dict?, getElem?_relocate]
    cases heap[a]? with
    | none => rfl
    | some o =>
      cases o with
      | _ => rfl

/-- Its members have the same keys and shifted values. -/
theorem members_relocate : members (relocate base heap) (address + base.length) =
    (members heap address).map fun m => (m.1, m.2.shift base.length) := by
  simp only [members, getElem?_relocate]
  cases heap[address]? with
  | none => rfl
  | some o =>
    cases o with
    | _ => rfl

theorem lookup_map (f : Value → Value) (members : List (Scalar × Value)) :
    lookup (members.map fun m => (m.1, f m.2)) key = (lookup members key).map f := by
  simp only [lookup, List.find?_map, Option.map_map]
  rfl

/-- What counts as false does so wherever it is. -/
theorem truthy_relocate : truthy (relocate base heap) (v.shift base.length) = truthy heap v := by
  cases v with
  | scalar s => rfl
  | ref a =>
    show truthy (relocate base heap) (.ref (a + base.length)) = _
    simp only [truthy, getElem?_relocate]
    cases heap[a]? with
    | none => rfl
    | some o =>
      cases o with
      | set items => rfl
      | _ => simp [Obj.shift]

/-- A loop goes through the shifted items. -/
theorem iter_relocate : iter (relocate base heap) (v.shift base.length) =
    (iter heap v).map (List.map (Value.shift base.length)) := by
  cases v with
  | scalar s =>
    -- the characters of a text and the bytes of a string hold no reference
    cases s with
    | str t => simp [iter, Value.shift, Except.map, Function.comp_def]
    | bytes bs => simp [iter, Value.shift, Except.map, Function.comp_def]
    | _ => rfl
  | ref a =>
    show iter (relocate base heap) (.ref (a + base.length)) = _
    simp only [iter, getElem?_relocate]
    cases heap[a]? with
    | none => rfl
    | some o =>
      cases o with
      | _ => simp [Obj.shift, Except.map, Function.comp_def, Value.shift]

/-- An item can be taken out before or after the objects are moved. -/
theorem popItem_relocate : popItem (relocate base heap) (address + base.length) key =
    relocate base (popItem heap address key) := by
  have herase : ∀ ms : List (Scalar × Value),
      (ms.map fun m => (m.1, m.2.shift base.length)).eraseP (fun m => m.1.eq key) =
        (ms.eraseP fun m => m.1.eq key).map fun m => (m.1, m.2.shift base.length) := fun ms =>
    List.eraseP_map
  unfold popItem
  rw [members_relocate, herase]
  unfold relocate
  rw [List.set_append_right _ _ (Nat.le_add_left _ _), Nat.add_sub_cancel, List.map_set]
  rfl

end Relocate

end PyObject
