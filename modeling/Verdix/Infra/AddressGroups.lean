import Verdix.Infra.SuricataParser
import Verdix.Lib.References

/-!
# Suricata's address groups

The values of address groups as what they are written for: literals, `$NAME`s, negations and
bracketed lists, which may be nested.  `AddressGroups.Denotes` is the meaning of a group, the
networks of the literals that are reached from it without a negation, through lists and references.
-/

namespace Verdix.SuricataParser

open Ipaddress References

/-! ### The syntax -/

/-- Any text between the blanks, commas, brackets, `!`s and `$`s of the syntax. -/
structure Literal where
  text : Text
  nonempty : text ≠ []
  stripped : strip text = text
  plain : ∀ c ∈ [',', '[', ']', '!', '$'], c ∉ text

/-- `[A-Z0-9_]+` -/
structure Name where
  text : Text
  nonempty : text ≠ []
  chars : ∀ c ∈ text, isNameChar c

/-- White space, or nothing. -/
structure Blanks where
  text : Text
  blank : ∀ c ∈ text, PyStr.isSpace c

mutual

/-- An address as Suricata writes it.  The word `any` is a literal, and no network. -/
inductive Address
  | literal (text : Literal)
  | group (name : Name)
  | neg (address : Address)
  | list (entries : Entries)

/-- One address or more, each between blanks, with commas between them. -/
inductive Entries
  | one (before : Blanks) (address : Address) (after : Blanks)
  | cons (before : Blanks) (address : Address) (after : Blanks) (rest : Entries)

end

mutual

def Address.render : Address → Text
  | .literal text => text.text
  | .group name => '$' :: name.text
  | .neg address => '!' :: address.render
  | .list entries => '[' :: (entries.render ++ [']'])

def Entries.render : Entries → Text
  | .one before address after => before.text ++ address.render ++ after.text
  | .cons before address after rest =>
    before.text ++ address.render ++ after.text ++ ',' :: rest.render

end

/-! ### The meaning -/

mutual

/-- The literals and names of an address, each with whether it stands under a `!`. -/
def Address.items (negated : Bool) : Address → List (Bool × Item Text Text)
  | .literal text => [(negated, .leaf text.text)]
  | .group name => [(negated, .ref name.text)]
  | .neg address => address.items true
  | .list entries => entries.items negated

def Entries.items (negated : Bool) : Entries → List (Bool × Item Text Text)
  | .one _ address _ => address.items negated
  | .cons _ address _ rest => address.items negated ++ rest.items negated

end

/-- The literals and names under no `!`. -/
def Entries.positives (value : Entries) : List (Item Text Text) :=
  ((value.items false).filter fun item => !item.1).map Prod.snd

/-- A dictionary of groups. -/
abbrev AddressGroups := List (Text × Entries)

namespace AddressGroups

/-- The texts of the dictionary. -/
def texts (groups : AddressGroups) : Groups :=
  groups.map fun group => (group.1, group.2.render)

/-- What each group takes over. -/
def positives (groups : AddressGroups) : Env Text Text :=
  fun name => (groups.lookup name).map (·.positives)

/-- What each group mentions. -/
def mentions (groups : AddressGroups) : Env Text Text :=
  fun name => (groups.lookup name).map fun value => (value.items false).map Prod.snd

/-- The network is in the group: a literal is reached that is under no `!`, nor is a name on the
way to it.  A text that is no network, and a name that is no group, add nothing. -/
def Denotes (groups : AddressGroups) (name : Text) (net : Network) : Prop :=
  ∃ text, References.Denotes groups.positives name text ∧ ipNetwork text = some net

/-- The network occurs in the group, under a `!` or not. -/
def Occurs (groups : AddressGroups) (name : Text) (net : Network) : Prop :=
  ∃ text, References.Denotes groups.mentions name text ∧ ipNetwork text = some net

/-- The network occurs in the group, and only under a `!`. -/
def OnlyNegated (groups : AddressGroups) (name : Text) (net : Network) : Prop :=
  groups.Occurs name net ∧ ¬ groups.Denotes name net

end AddressGroups

/-! ### Flat values -/

def Address.isPlain : Address → Bool
  | .literal _ | .group _ => true
  | _ => false

/-- A literal or a name, with or without one `!`. -/
def Address.isEntry : Address → Bool
  | .neg address => address.isPlain
  | address => address.isPlain

def Entries.areFlat : Entries → Bool
  | .one _ address _ => address.isEntry
  | .cons _ address _ rest => address.isEntry && rest.areFlat

/-- The entries of a value, without the brackets around them all. -/
def Entries.inBrackets : Entries → Entries
  | .one _ (.list entries) _ => entries
  | value => value

/-- Entries that are not nested, in one pair of brackets or in none. -/
def Entries.isFlat (value : Entries) : Bool := value.inBrackets.areFlat

end Verdix.SuricataParser
