import Verdix.Lib.IpNetwork
import Verdix.Lib.Python
import Verdix.Lib.ReSub

/-!
# The address groups of `suricata.yaml`

`extract_address_groups`: the references between the groups are resolved by rewriting their texts in
place, ten times at most, and the resulting texts are read as lists of networks.
-/

namespace Verdix.SuricataParser

open Ipaddress

abbrev Text := List Char

/-- A dictionary from names to texts, in its order. -/
abbrev Groups := List (Text × Text)

/-- The block under `vars`.  A group that is missing or null is `none`, and every value stands as its
`str`. -/
structure Vars where
  addressGroups : Option Groups
  portGroups : Option Groups

structure SuricataData where
  vars : Option Vars

/-! ### Texts -/

/-- `s.strip()`. -/
def strip (s : Text) : Text := Split.trim PyStr.isSpace s

/-- A text without the brackets around it. -/
def dropBrackets (s : Text) : Text :=
  if s.head? = some '[' ∧ s.getLast? = some ']' then s.tail.dropLast else s

/-- `[e.strip() for e in s.split(",") if e.strip()]` -/
def entries (s : Text) : List Text := ((s.splitOn ',').map strip).filter (· ≠ [])

/-- `[A-Z0-9_]` -/
def isNameChar (c : Char) : Bool := ('A' ≤ c && c ≤ 'Z') || ('0' ≤ c && c ≤ '9') || c = '_'

/-! ### Resolving references -/

/-- `replacer`, for a match with `!` or without.  The name of an unknown group stays. -/
def replacer (vars : Groups) (negate : Bool) (varName : Text) : Text :=
  match vars.lookup varName with
  | none => (if negate then ['!'] else []) ++ '$' :: varName
  | some value =>
    let replacement := dropBrackets (strip value)
    if negate then
      [',', ' '].intercalate ((entries replacement).map ('!' :: ·))
    else
      replacement

/-- The matches of `(!?)\$([A-Z0-9_]+)`. -/
def varPattern (vars : Groups) : ReSub.Pattern Char
  | '!' :: '$' :: s =>
    let varName := s.takeWhile isNameChar
    if varName = [] then none else some (replacer vars true varName, varName.length + 1)
  | '$' :: s =>
    let varName := s.takeWhile isNameChar
    if varName = [] then none else some (replacer vars false varName, varName.length)
  | _ => none

/-- `_expand_vars_in_string`. -/
def expandVarsInString (value : Text) (vars : Groups) : Text := ReSub.sub (varPattern vars) value

/-- `resolved[name] = new_value`, for a name that is there. -/
def assign (resolved : Groups) (name newValue : Text) : Groups :=
  resolved.map fun group => if group.1 = name then (name, newValue) else group

/-- The turn of one group in a pass, with the dictionary as it is then and the flag `changed`. -/
def expandGroup (state : Groups × Bool) (name : Text) : Groups × Bool :=
  match state.1.lookup name with
  | none => state
  | some value =>
    let newValue := expandVarsInString value state.1
    if newValue = value then state else (assign state.1 name newValue, true)

/-- One pass over the dictionary, in its order. -/
def expandPass (resolved : Groups) : Groups × Bool :=
  (resolved.map Prod.fst).foldl expandGroup (resolved, false)

def maxVarExpansionPasses : ℕ := 10

/-- The passes, until one changes nothing. -/
def resolveLoop : ℕ → Groups → Groups
  | 0, resolved => resolved
  | passes + 1, resolved =>
    let (resolved, changed) := expandPass resolved
    if changed then resolveLoop passes resolved else resolved

/-- `_resolve_variable_references`. -/
def resolveVariableReferences (raw : Groups) : Groups := resolveLoop maxVarExpansionPasses raw

/-! ### Reading the networks -/

/-- `_parse_address_value`.  No character outside ASCII has its lower case in `any`. -/
def parseAddressValue (value : Text) : List Network :=
  let value := strip value
  if value.map Char.toLower = ['a', 'n', 'y'] then
    []
  else
    (entries (dropBrackets value)).filterMap fun entry =>
      if entry.head? = some '!' ∨ entry.head? = some '$' then none else ipNetwork entry

/-- `vars_block.get("address-groups", {}) or {}` -/
def SuricataData.rawAddr (data : SuricataData) : Groups :=
  (data.vars.bind (·.addressGroups)).getD []

/-- `vars_block.get("port-groups", {}) or {}` -/
def SuricataData.rawPort (data : SuricataData) : Groups :=
  (data.vars.bind (·.portGroups)).getD []

/-- `extract_address_groups`. -/
def extractAddressGroups (data : SuricataData) : List (Text × List Network) × Groups :=
  ((resolveVariableReferences data.rawAddr).map fun group =>
    (group.1, parseAddressValue group.2), data.rawPort)

end Verdix.SuricataParser
