import Verdix.Lib.JsonValue

/-!
# Expressions and statements of a template

A template reads JSON values and `Undefined`, which prints as nothing, is false and has no
attributes.  The texts that `str` and the filters make of a value are a parameter, `Jinja`.
-/

/-- The texts that output statements and filters make of a value. -/
structure Jinja where
  /-- `str(v)`. -/
  text : Json → Except PyError String
  /-- `v | tojson`. -/
  tojson : Json → Except PyError String
  /-- `s | upper`. -/
  upper : String → String

namespace Jinja

/-- A value, or `Undefined`. -/
abbrev Value := Option Json

/-- `{% if v %}`. -/
def truthy (v : Value) : Bool := v.any Json.truthy

/-- `v == s`. -/
def isStr (v : Value) (s : String) : Bool := v.any (·.isStr s)

/-- `v.name`: the item of a dict, for a name that is no attribute of a Python value. -/
def attr (v : Value) (name : String) : Except PyError Value :=
  match v with
  | none => .error .undefinedError
  | some (.obj members) => .ok (Json.lookup members name)
  | some _ => .ok none

/-- `v.a.b` for a path of names. -/
def path (v : Json) (names : List String) : Except PyError Value := names.foldlM attr (some v)

/-- `v.get(key)`; values other than dicts have no such method. -/
def get (v : Json) (key : String) : Except PyError Json :=
  match v with
  | .obj members => .ok (Json.member members key)
  | _ => .error .undefinedError

/-- `v[0] or {}`; an item that is not there is `Undefined`. -/
def firstOrEmpty (v : Json) : Json :=
  match v.index 0 with
  | .ok w => w.orElse (.obj [])
  | .error _ => .obj []

/-- `v | map(attribute=name) | select | list`. -/
def mapSelect (v : Json) (name : String) : Except PyError (List Json) := do
  let items ← v.iter
  let values ← items.mapM fun item => attr (some item) name
  return values.filterMap fun value => value.filter Json.truthy

/-- `{% if condition %}body{% endif %}`. -/
def block (condition : Bool) (body : Except PyError String) : Except PyError String :=
  if condition then body else .ok ""

/-- `{% for x in xs %}body{% endfor %}`. -/
def loop {α : Type} (xs : List α) (body : α → Except PyError String) : Except PyError String :=
  (xs.mapM body).map String.join

variable (jinja : Jinja)

/-- `{{ v }}`. -/
def print : Value → Except PyError String
  | none => .ok ""
  | some v => jinja.text v

/-- `{{ v.a.b }}`. -/
def out (v : Json) (names : List String) : Except PyError String :=
  path v names >>= jinja.print

/-- `{{ vs | join(", ") }}`. -/
def join (vs : List Json) : Except PyError String :=
  (vs.mapM jinja.text).map (", ".intercalate ·)

end Jinja
