import Verdix.Lib.Json

/-!
# Python's operators on parsed values

`==`, `for`, `in` and the tests on types that code applies to the values of a JSON document without
knowing their shape.
-/

namespace Json

/-- `str(v)`, for samples: only the braces of a list or a dict. -/
def plainStr : Json → String
  | null => "None"
  | bool b => if b then "True" else "False"
  | int n => toString n
  | float literal => literal
  | str s => s
  | arr _ => "[]"
  | obj _ => "\x7b\x7d"

/-- `members.get(key)`. -/
def member (members : List (String × Json)) (key : String) : Json :=
  (lookup members key).getD .null

/-- On a dict, `v.get(key, default)` is the value or the default. -/
theorem getD_obj (members : List (String × Json)) (key : String) (default : Json) :
    (obj members).getD key default = .ok ((lookup members key).getD default) := rfl

theorem get_obj (members : List (String × Json)) (key : String) :
    (obj members).get key = .ok (member members key) := rfl

theorem get_obj_bind {α : Type} (members : List (String × Json)) (key : String)
    (f : Json → Except PyError α) : ((obj members).get key >>= f) = f (member members key) := rfl

/-- What is found under a key is one of the members. -/
theorem mem_of_lookup {members : List (String × Json)} {key : String} {v : Json}
    (h : lookup members key = some v) : (key, v) ∈ members := by
  obtain ⟨m, hm, rfl⟩ := Option.map_eq_some_iff.mp h
  have hkey : m.1 = key := by simpa using List.find?_some hm
  rw [← hkey]
  exact List.mem_of_find?_eq_some hm

@[simp]
theorem member_nil (key : String) : member [] key = null := rfl

@[simp]
theorem str_orElse (s : String) : (str s).orElse (str "") = str s := by
  by_cases hs : s = "" <;> simp [orElse, truthy, hs]

@[simp]
theorem arr_orElse (items : List Json) : (arr items).orElse (arr []) = arr items := by
  cases items <;> rfl

@[simp]
theorem obj_orElse (members : List (String × Json)) :
    (obj members).orElse (obj []) = obj members := by
  cases members <;> rfl

theorem obj_cons_orElse (m : String × Json) (ms : List (String × Json)) (v : Json) :
    (obj (m :: ms)).orElse v = obj (m :: ms) := rfl

/-- `v is None`. -/
def isNull : Json → Bool
  | .null => true
  | _ => false

/-- `v == s` for a text. -/
def isStr (v : Json) (s : String) : Bool :=
  match v with
  | .str t => t = s
  | _ => false

@[simp]
theorem isStr_str {s t : String} : (str s).isStr t = decide (s = t) := rfl

/-- `v == "…"` holds of that string only. -/
theorem isStr_iff {v : Json} {s : String} : v.isStr s ↔ v = .str s := by
  cases v <;> simp [isStr]

/-- `d[key]`: `KeyError` when the key is missing, `TypeError` when `d` has no text keys. -/
def item (d : Json) (key : String) : Except PyError Json :=
  match d with
  | obj members =>
    match lookup members key with
    | some v => .ok v
    | none => .error .keyError
  | _ => .error .typeError

/-- `d.values()`. -/
def values : Json → Except PyError (List Json)
  | obj members => .ok (members.map Prod.snd)
  | _ => .error .attributeError

/-- What `for x in v` runs through. -/
def iter : Json → Except PyError (List Json)
  | .arr items => .ok items
  | .obj members => .ok (members.map fun m => .str m.1)
  | .str s => .ok (s.toList.map fun c => .str (String.singleton c))
  | _ => .error .typeError

/-- `c in v` for one character. -/
def containsChar (v : Json) (c : Char) : Except PyError Bool :=
  match v with
  | .str s => .ok (PyStr.contains s c)
  | _ => v.iter.map fun items => items.any (·.isStr (String.singleton c))

/-- `t in v`. -/
def containsText (v : Json) (t : String) : Except PyError Bool :=
  match v with
  | .str s => .ok (PyStr.containsText s t)
  | _ => v.iter.map fun items => items.any (·.isStr t)

/-- `len(v)`. -/
def len : Json → Except PyError ℕ
  | .arr items => .ok items.length
  | .obj members => .ok members.length
  | .str s => .ok s.length
  | _ => .error .typeError

/-- `v[n]` for an index; the keys of a dict are texts. -/
def index (v : Json) (n : ℕ) : Except PyError Json :=
  match v with
  | .arr items => (items[n]?).elim (.error .indexError) .ok
  | .str s => (s.toList[n]?).elim (.error .indexError) fun c => .ok (.str (String.singleton c))
  | .obj _ => .error .keyError
  | _ => .error .typeError

/-- `d[key] = v`: a key that is there keeps its place. -/
def setMember (members : List (String × Json)) (key : String) (v : Json) : List (String × Json) :=
  if (lookup members key).isSome then members.map fun m => if m.1 = key then (key, v) else m
  else members ++ [(key, v)]

/-- The integer that a value equals. -/
def intValue? : Json → Option ℤ
  | .bool b => some b.toInt
  | .int n => some n
  | _ => none

mutual

/-- `v == w`; a float is compared by its literal. -/
def eq : Json → Json → Bool
  | .null, w => match w with
    | .null => true
    | _ => false
  | .bool b, w => w.intValue? = some b.toInt
  | .int n, w => w.intValue? = some n
  | .float l, w => match w with
    | .float m => l = m
    | _ => false
  | .str s, w => w.isStr s
  | .arr vs, w => match w with
    | .arr ws => eqItems vs ws
    | _ => false
  | .obj ms, w => match w with
    | .obj ns => ms.length = ns.length && eqMembers ms ns
    | _ => false

def eqItems : List Json → List Json → Bool
  | [], [] => true
  | v :: vs, w :: ws => eq v w && eqItems vs ws
  | _, _ => false

/-- Every member has an equal under its key. -/
def eqMembers : List (String × Json) → List (String × Json) → Bool
  | [], _ => true
  | (key, v) :: ms, ns =>
    (match lookup ns key with
      | some w => eq v w
      | none => false) && eqMembers ms ns

end

end Json
