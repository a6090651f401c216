import Verdix.Infra.AddressGroups
import Verdix.Infra.Equiv.SuricataParser

/-!
# What `extract_address_groups` gives for an address group

`networks_iff_denotes`: where the values are flat and the chains of references shorter than 1024, a
group gets the networks that it denotes, in every order of the dictionary.

Nested lists are split at their commas like flat ones, so the signs of their entries can be lost.
`negated_absent_of_separable` says where they are not; `middle_entry_leaks` is a list where they are.
-/

namespace Verdix.SuricataParser

open Ipaddress References

/-! ### Where the signs are kept -/

/-- A literal or a name, or a list of one literal, with more `!`s or without. -/
def Address.isSingle : Address → Bool
  | .literal _ | .group _ => true
  | .neg address => address.isSingle
  | .list (.one _ (.literal _) _) => true
  | .list _ => false

mutual

/-- Every `!` stands before a single literal or name. -/
def Address.isSinglyNegated : Address → Bool
  | .literal _ | .group _ => true
  | .neg address => address.isSingle
  | .list entries => entries.isSinglyNegated

def Entries.isSinglyNegated : Entries → Bool
  | .one _ address _ => address.isSinglyNegated
  | .cons _ address _ rest => address.isSinglyNegated && rest.isSinglyNegated

end

mutual

/-- The text begins with a name, brackets apart. -/
def Address.opens : Address → Bool
  | .group _ => true
  | .list entries => entries.opens
  | _ => false

def Entries.opens : Entries → Bool
  | .one _ address _ => address.opens
  | .cons _ address _ _ => address.opens

end

mutual

/-- No list in it begins with a name. -/
def Address.isClosed : Address → Bool
  | .list entries => !entries.opens && entries.isClosed
  | _ => true

def Entries.isClosed : Entries → Bool
  | .one _ address _ => address.isClosed
  | .cons _ address _ rest => address.isClosed && rest.isClosed

end

namespace AddressGroups

/-- A group that some group puts under a `!`, itself or through names of its own that it takes over. -/
inductive Exposed (groups : AddressGroups) : Text → Prop
  | negated {name value other} (hvalue : groups.lookup name = some value)
      (hother : (true, .ref other) ∈ value.items false) : Exposed groups other
  | through {name value other} (h : Exposed groups name)
      (hvalue : groups.lookup name = some value)
      (hother : (false, .ref other) ∈ value.items false) : Exposed groups other

/-- Every `!` stands before a single literal or name, and in a group that is put under a `!` no list
begins with a name, apart from the list that is the group. -/
def Separable (groups : AddressGroups) : Prop :=
  ∀ name value, groups.lookup name = some value →
    value.inBrackets.isSinglyNegated ∧ (groups.Exposed name → value.inBrackets.isClosed)

end AddressGroups

/-! ### The atoms of a text that is written for a value -/

theorem Name.isName (name : Name) : IsName name.text := ⟨name.nonempty, name.chars⟩

theorem Blanks.spaces (blanks : Blanks) : Spaces blanks.text := blanks.blank

theorem Blanks.edges (blanks : Blanks) : Edges blanks.text := blanks.spaces.edges

theorem Literal.not_mem (text : Literal) {c : Char} (hc : c ∈ [',', '[', ']', '!', '$']) :
    c ∉ text.text :=
  text.plain c hc

theorem Literal.core (text : Literal) : core text.text = text.text := by
  have hedge : ∀ c ∈ text.text, isEdge c = PyStr.isSpace c := by
    intro c hc
    have h1 : c ≠ '[' := fun h => text.not_mem (by simp) (h ▸ hc)
    have h2 : c ≠ ']' := fun h => text.not_mem (by simp) (h ▸ hc)
    simp [isEdge, h1, h2]
  exact (Split.trim_congr hedge).trans text.stripped

/-- A literal is one atom. -/
theorem Literal.atoms (text : Literal) : atoms text.text = [.leaf text.text] := by
  rw [atoms_of_not_mem (text.not_mem (by simp)), atomOf, if_neg (text.not_mem (by simp)), text.core]
  split
  · exact absurd ‹_› text.nonempty
  · rename_i name htext
    exact absurd (htext ▸ List.mem_cons_self) (text.not_mem (c := '$') (by simp))
  · rfl

/-- What is under no `!`. -/
def unsigned (items : List (Bool × Item Text Text)) : List (Item Text Text) :=
  (items.filter fun item => !item.1).map Prod.snd

mutual

/-- All that is under a `!` is negated. -/
theorem Address.items_true (address : Address) : ∀ item ∈ address.items true, item.1 = true := by
  cases address with
  | literal text => simp [Address.items]
  | group name => simp [Address.items]
  | neg address => exact Address.items_true address
  | list entries => exact Entries.items_true entries

theorem Entries.items_true (entries : Entries) : ∀ item ∈ entries.items true, item.1 = true := by
  cases entries with
  | one before address after => exact Address.items_true address
  | cons before address after rest =>
    intro item hitem
    rcases List.mem_append.mp hitem with hitem | hitem
    · exact Address.items_true address item hitem
    · exact Entries.items_true rest item hitem

end

theorem unsigned_neg (address : Address) : unsigned (address.items true) = [] := by
  rw [unsigned, List.map_eq_nil_iff, List.filter_eq_nil_iff]
  intro item hitem
  simp [address.items_true item hitem]

theorem Address.not_mem_of_isSingle (address : Address) (h : address.isSingle) :
    ',' ∉ address.render := by
  match address with
  | .literal text => exact text.not_mem (by simp)
  | .group name =>
    simp [Address.render, name.isName.not_mem (c := ',') rfl]
  | .neg address =>
    have hrest := Address.not_mem_of_isSingle address h
    simp [Address.render, hrest]
  | .list (.one before (.literal text) after) =>
    simp [Address.render, Entries.render, text.not_mem (c := ','), before.edges.not_mem (c := ',') rfl,
      after.edges.not_mem (c := ',') rfl]

mutual

/-- The atoms of a rendered entry are its items under no `!`. -/
theorem Address.atoms_render (address : Address) (h : address.isSinglyNegated) :
    atoms address.render = unsigned (address.items false) := by
  cases address with
  | literal text => exact text.atoms
  | group name => exact name.isName.atoms
  | neg address =>
    have hcomma : ',' ∉ '!' :: address.render := by
      simp [Address.not_mem_of_isSingle address h]
    show atoms ('!' :: address.render) = unsigned (address.items true)
    rw [unsigned_neg, atoms_of_not_mem hcomma, atomOf_of_bang List.mem_cons_self]
    rfl
  | list entries =>
    have hatoms := Entries.atoms_render entries h
    show atoms ('[' :: (entries.render ++ [']'])) = unsigned (entries.items false)
    rw [← hatoms]
    exact atoms_edges (b := ['[']) (a := [']']) (by simp [Edges, isEdge]) (by simp [Edges, isEdge])
      entries.render

/-- So are those of a rendered list. -/
theorem Entries.atoms_render (entries : Entries) (h : entries.isSinglyNegated) :
    atoms entries.render = unsigned (entries.items false) := by
  cases entries with
  | one before address after =>
    have hatoms := Address.atoms_render address h
    show atoms (before.text ++ address.render ++ after.text) = unsigned (address.items false)
    rw [atoms_edges before.edges after.edges, hatoms]
  | cons before address after rest =>
    obtain ⟨haddress, hrest⟩ := Bool.and_eq_true_iff.mp h
    have hatoms := Address.atoms_render address haddress
    have hatoms' := Entries.atoms_render rest hrest
    show atoms (before.text ++ address.render ++ after.text ++ ',' :: rest.render) =
      unsigned (address.items false ++ rest.items false)
    rw [atoms_append_comma, atoms_edges before.edges after.edges, hatoms, hatoms', unsigned,
      unsigned, unsigned, List.filter_append, List.map_append]

end

/-! ### The text that is written for a value is in order -/

section Tidy

variable {S : Text → Prop} {k : Text}

/-- A single literal or name that a `!` stands before. -/
theorem Address.struck_of_isSingle (address : Address) (h : address.isSingle)
    (hS : ∀ name, (true, .ref name) ∈ address.items true → S name) :
    Struck S ('!' :: address.render) := by
  match address with
  | .literal text =>
    refine ⟨rfl, .inl ?_⟩
    simp [Address.render, text.not_mem (c := '$')]
  | .group name =>
    have hstruck := struck_of_ref (q := []) (by simp) name.isName edges_nil
      (hS name.text List.mem_cons_self)
    rwa [List.append_nil] at hstruck
  | .neg address =>
    have hrest := Address.struck_of_isSingle address h hS
    exact hrest.append_left (q := ['!']) (by simp)
  | .list (.one before (.literal text) after) =>
    refine ⟨rfl, .inl ?_⟩
    simp [Address.render, Entries.render, text.not_mem (c := '$'),
      before.edges.not_mem (c := '$') rfl, after.edges.not_mem (c := '$') rfl]

/-- The names of the items are groups for which `S` is as the places of the names demand. -/
def Covers (S : Text → Prop) (k : Text) (items : List (Bool × Item Text Text)) : Prop :=
  ∀ negated name, (negated, .ref name) ∈ items → (negated ∨ S k) → S name

theorem covers_append {items items' : List (Bool × Item Text Text)} :
    Covers S k (items ++ items') ↔ Covers S k items ∧ Covers S k items' := by
  constructor
  · intro h
    exact ⟨fun negated name hname => h negated name (List.mem_append_left _ hname),
      fun negated name hname => h negated name (List.mem_append_right _ hname)⟩
  · rintro ⟨hl, hr⟩ negated name hname
    rcases List.mem_append.mp hname with hname | hname
    · exact hl negated name hname
    · exact hr negated name hname

theorem Spaces.append {s t : Text} (hs : Spaces s) (ht : Spaces t) : Spaces (s ++ t) := by
  intro c hc
  rcases List.mem_append.mp hc with hc | hc
  · exact hs c hc
  · exact ht c hc

mutual

/-- The induction is on the value, with the brackets that stand before it: where a `!` may come to
stand, these are none, or the value begins with no name. -/
theorem Address.tidy_render (address : Address) (h : address.isSinglyNegated)
    (hclosed : S k → address.isClosed) (hcovers : Covers S k (address.items false)) {e : Text}
    (he : Edges e) (hopen : S k → Spaces e ∨ address.opens = false) :
    TidyText S k (e ++ address.render) := by
  cases address with
  | literal text =>
    have hcomma : ',' ∉ e ++ text.text := by
      simp [he.not_mem (c := ',') rfl, text.not_mem (c := ',')]
    show TidyText S k (e ++ text.text)
    rw [tidyText_of_not_mem hcomma]
    refine .inr ⟨?_, .inl ?_⟩
    · simp [he.not_mem (c := '!') rfl, text.not_mem (c := '!')]
    · simp [he.not_mem (c := '$') rfl, text.not_mem (c := '$')]
  | group name =>
    have hname : TidyText S k ('$' :: name.text) :=
      name.isName.tidy fun hk => hcovers false name.text List.mem_cons_self (.inr hk)
    have htidy := hname.edges (a := []) he edges_nil fun hk =>
      (hopen hk).resolve_right (by simp [Address.opens])
    rwa [List.append_nil] at htidy
  | neg address =>
    have hstruck : Struck S ('!' :: address.render) :=
      Address.struck_of_isSingle address h fun name hname => hcovers true name hname (.inl rfl)
    have hcomma : ',' ∉ e ++ '!' :: address.render := by
      simp [he.not_mem (c := ',') rfl, Address.not_mem_of_isSingle address h]
    show TidyText S k (e ++ '!' :: address.render)
    rw [tidyText_of_not_mem hcomma]
    exact .inl (hstruck.append_left fun c hc => .inr (he c hc))
  | list entries =>
    -- the bracket joins those that stand before
    have hinner : TidyText S k ((e ++ ['[']) ++ entries.render) := by
      apply Entries.tidy_render entries h _ hcovers (he.append (by simp [Edges, isEdge]))
      · intro hk
        have hlist := hclosed hk
        simp only [Address.isClosed, Bool.and_eq_true, Bool.not_eq_true'] at hlist
        exact .inr hlist.1
      · intro hk
        have hlist := hclosed hk
        simp only [Address.isClosed, Bool.and_eq_true] at hlist
        exact hlist.2
    have hbracket := hinner.edges (b := []) (a := [']']) edges_nil (by simp [Edges, isEdge])
      fun _ => by simp [Spaces]
    simpa [Address.render] using hbracket

/-- A rendered list is tidy, if an expansion keeps the signs of its entries. -/
theorem Entries.tidy_render (entries : Entries) (h : entries.isSinglyNegated)
    (hclosed : S k → entries.isClosed) (hcovers : Covers S k (entries.items false)) {e : Text}
    (he : Edges e) (hopen : S k → Spaces e ∨ entries.opens = false) :
    TidyText S k (e ++ entries.render) := by
  cases entries with
  | one before address after =>
    have haddress : TidyText S k ((e ++ before.text) ++ address.render) :=
      Address.tidy_render address h hclosed hcovers (he.append before.edges)
        fun hk => (hopen hk).imp_left fun hspaces => hspaces.append before.spaces
    have htidy := haddress.edges (b := []) edges_nil after.edges fun _ => by simp [Spaces]
    simpa [Entries.render] using htidy
  | cons before address after rest =>
    obtain ⟨hneg, hnegRest⟩ := Bool.and_eq_true_iff.mp h
    obtain ⟨hcov, hcovRest⟩ := covers_append.mp hcovers
    have hboth : S k → address.isClosed ∧ rest.isClosed :=
      fun hk => Bool.and_eq_true_iff.mp (hclosed hk)
    have haddress : TidyText S k ((e ++ before.text) ++ address.render) :=
      Address.tidy_render address hneg (fun hk => (hboth hk).1) hcov (he.append before.edges)
        fun hk => (hopen hk).imp_left fun hspaces => hspaces.append before.spaces
    have hfirst := haddress.edges (b := []) edges_nil after.edges fun _ => by simp [Spaces]
    have hrest : TidyText S k ([] ++ rest.render) :=
      Entries.tidy_render rest hnegRest (fun hk => (hboth hk).2) hcovRest edges_nil
        fun _ => .inl (by simp [Spaces])
    have htidy := tidyText_append_comma.mpr ⟨hfirst, hrest⟩
    simpa [Entries.render] using htidy

end

end Tidy

/-! ### The dictionary of the texts -/

/-- Brackets around a value change no item. -/
@[simp]
theorem items_inBrackets (value : Entries) (negated : Bool) :
    value.inBrackets.items negated = value.items negated := by
  unfold Entries.inBrackets
  split
  · rfl
  · rfl

/-- The text in the brackets of a value, apart from white space and brackets. -/
theorem exists_inBrackets (value : Entries) :
    ∃ b a, value.inBrackets.render = b ++ inner value.render ++ a ∧ Edges b ∧ Edges a := by
  unfold Entries.inBrackets
  split
  · rename_i before entries after
    have hkeep : strip ('[' :: (entries.render ++ [']'])) = '[' :: (entries.render ++ [']']) :=
      Split.trim_append_core (b := []) (by decide) (by decide)
    have hstrip : strip (Entries.one before (.list entries) after).render =
        '[' :: (entries.render ++ [']']) :=
      (Split.trim_append before.spaces after.spaces _).trans hkeep
    rw [inner, hstrip, dropBrackets_brackets]
    exact ⟨[], [], by simp, edges_nil, edges_nil⟩
  · exact exists_inner _

theorem atoms_inner_render {value : Entries} (h : value.inBrackets.isSinglyNegated) :
    atoms (inner value.render) = value.positives := by
  obtain ⟨b, a, hrender, hb, ha⟩ := exists_inBrackets value
  have hatoms := value.inBrackets.atoms_render h
  rw [hrender, atoms_edges hb ha, items_inBrackets] at hatoms
  exact hatoms

variable {groups : AddressGroups}

theorem lookup_texts (name : Text) :
    groups.texts.lookup name = (groups.lookup name).map Entries.render :=
  AssocList.lookup_map (fun _ => Entries.render) groups name

/-- The dictionary of texts stands for the positive items of the groups. -/
theorem env_texts (h : ∀ name value, groups.lookup name = some value →
    value.inBrackets.isSinglyNegated) : env groups.texts = groups.positives := by
  ext1 name
  rw [env, lookup_texts, AddressGroups.positives]
  cases hvalue : groups.lookup name with
  | none => rfl
  | some value =>
    rw [Option.map_some, Option.map_some, Option.map_some, atoms_inner_render (h name value hvalue)]

/-- It is tidy, if every value of it is. -/
theorem tidy_texts {S : Text → Prop}
    (hneg : ∀ name value, groups.lookup name = some value → value.inBrackets.isSinglyNegated)
    (hclosed : ∀ name value, groups.lookup name = some value → S name → value.inBrackets.isClosed)
    (hcovers : ∀ name value, groups.lookup name = some value → Covers S name (value.items false)) :
    Tidy S groups.texts := by
  intro name text htext
  rw [lookup_texts, Option.map_eq_some_iff] at htext
  obtain ⟨value, hvalue, rfl⟩ := htext
  obtain ⟨b, a, hrender, hb, ha⟩ := exists_inBrackets value
  have hcov : Covers S name (value.inBrackets.items false) := by
    rw [items_inBrackets]
    exact hcovers name value hvalue
  have htidy : TidyText S name ([] ++ value.inBrackets.render) :=
    value.inBrackets.tidy_render (hneg name value hvalue) (hclosed name value hvalue) hcov edges_nil
      fun _ => .inl (by simp [Spaces])
  rw [List.nil_append, hrender] at htidy
  exact htidy.of_edges hb ha

/-- The networks of a group are read from its resolved text. -/
theorem lookup_extractAddressGroups {data : SuricataData} {name : Text} {nets : List Network} :
    (extractAddressGroups data).1.lookup name = some nets ↔
      ∃ value, (resolveVariableReferences data.rawAddr).lookup name = some value ∧
        parseAddressValue value = nets := by
  have hlookup : (extractAddressGroups data).1.lookup name =
      ((resolveVariableReferences data.rawAddr).lookup name).map parseAddressValue :=
    AssocList.lookup_map (fun _ => parseAddressValue) _ name
  rw [hlookup, Option.map_eq_some_iff]

/-! ### Flat values -/

/-- An entry of a flat value: its `!` stands before a single literal or name, it is no list, and it
holds no bracket. -/
theorem Address.of_isEntry {address : Address} (h : address.isEntry) :
    address.isSinglyNegated ∧ address.isClosed ∧ ∀ c ∈ ['[', ']'], c ∉ address.render := by
  have hplain : ∀ {a : Address}, a.isPlain → a.isSinglyNegated ∧ a.isClosed ∧ a.isSingle ∧
      ∀ c ∈ ['[', ']'], c ∉ a.render := by
    intro a ha
    match a with
    | .literal text =>
      refine ⟨rfl, rfl, rfl, fun c hc => text.not_mem ?_⟩
      simp only [List.mem_cons, List.not_mem_nil, or_false] at hc ⊢
      rcases hc with rfl | rfl <;> simp
    | .group name =>
      refine ⟨rfl, rfl, rfl, ?_⟩
      simp [Address.render, name.isName.not_mem (c := '[') rfl, name.isName.not_mem (c := ']') rfl]
  match address with
  | .literal text => exact ⟨rfl, rfl, (hplain (a := .literal text) rfl).2.2.2⟩
  | .group name => exact ⟨rfl, rfl, (hplain (a := .group name) rfl).2.2.2⟩
  | .neg address =>
    obtain ⟨-, -, hsingle, hbrackets⟩ := hplain (a := address) h
    refine ⟨hsingle, rfl, ?_⟩
    intro c hc
    have hne : c ≠ '!' := by
      rintro rfl
      simp at hc
    simp [Address.render, hne, hbrackets c hc]

theorem Spaces.not_bracket {s : Text} (h : Spaces s) {c : Char} (hc : c ∈ ['[', ']']) : c ∉ s := by
  intro hmem
  have hspace := h c hmem
  simp only [List.mem_cons, List.not_mem_nil, or_false] at hc
  rcases hc with rfl | rfl <;> cases hspace

theorem foreign_of_bracket {c : Char} (hc : c ∈ ['[', ']']) : Foreign c := by
  simp only [List.mem_cons, List.not_mem_nil, or_false] at hc
  rcases hc with rfl | rfl <;> decide

theorem not_isAddressChar_of_bracket {c : Char} (hc : c ∈ ['[', ']']) : ¬ IsAddressChar c := by
  simp only [List.mem_cons, List.not_mem_nil, or_false] at hc
  rcases hc with rfl | rfl <;> decide

/-- A flat value has no nested list and no bracket inside. -/
theorem Entries.of_areFlat (entries : Entries) (h : entries.areFlat) :
    entries.isSinglyNegated ∧ entries.isClosed ∧ ∀ c ∈ ['[', ']'], c ∉ entries.render := by
  match entries with
  | .one before address after =>
    obtain ⟨hneg, hclosed, hbrackets⟩ := Address.of_isEntry h
    refine ⟨hneg, hclosed, fun c hc => ?_⟩
    simp [Entries.render, before.spaces.not_bracket hc, after.spaces.not_bracket hc,
      hbrackets c hc]
  | .cons before address after rest =>
    obtain ⟨haddress, hrest⟩ := Bool.and_eq_true_iff.mp h
    obtain ⟨hneg, hclosed, hbrackets⟩ := Address.of_isEntry haddress
    obtain ⟨hnegRest, hclosedRest, hbracketsRest⟩ := Entries.of_areFlat rest hrest
    refine ⟨Bool.and_eq_true_iff.mpr ⟨hneg, hnegRest⟩,
      Bool.and_eq_true_iff.mpr ⟨hclosed, hclosedRest⟩, fun c hc => ?_⟩
    have hne : c ≠ ',' := by
      rintro rfl
      simp at hc
    simp [Entries.render, before.spaces.not_bracket hc, after.spaces.not_bracket hc,
      hbrackets c hc, hbracketsRest c hc, hne]

/-- The networks of a text without brackets are those of its atoms. -/
theorem mem_parse_iff_atoms {S : Text → Prop} {k value : Text} (h : TidyText S k (inner value))
    (hbrackets : '[' ∉ inner value ∧ ']' ∉ inner value) {net : Network} :
    net ∈ parseAddressValue value ↔
      ∃ text, .leaf text ∈ atoms (inner value) ∧ ipNetwork text = some net := by
  rw [mem_parseAddressValue]
  apply exists_congr
  intro e
  rw [mem_entries, atoms, List.mem_filterMap]
  have hpiece : ∀ piece ∈ (inner value).splitOn ',', (atomOf piece = some (.leaf e) ↔
      strip piece = e ∧ e ≠ [] ∧ e.head? ≠ some '!' ∧ e.head? ≠ some '$') := by
    intro piece hmem
    have hsubset := (Split.mem_splitOn hmem).2
    exact atomOf_eq_leaf_iff (h piece hmem)
      ⟨fun hc => hbrackets.1 (hsubset _ hc), fun hc => hbrackets.2 (hsubset _ hc)⟩
  constructor
  · rintro ⟨⟨hne, piece, hmem, hstrip⟩, hbang, hdollar, hnet⟩
    exact ⟨⟨piece, hmem, (hpiece piece hmem).mpr ⟨hstrip, hne, hbang, hdollar⟩⟩, hnet⟩
  · rintro ⟨⟨piece, hmem, hatom⟩, hnet⟩
    obtain ⟨hstrip, hne, hbang, hdollar⟩ := (hpiece piece hmem).mp hatom
    exact ⟨⟨hne, piece, hmem, hstrip⟩, hbang, hdollar, hnet⟩

/-- For flat values and chains shorter than 1024, a group gets the networks that it denotes.  A chain
goes through names that are under no `!`: the others may refer to each other as they like. -/
theorem networks_iff_denotes {data : SuricataData} {groups : AddressGroups}
    (hdata : data.rawAddr = groups.texts) (hflat : ∀ group ∈ groups, group.2.isFlat)
    (hshort : ∀ n name other, Chain groups.positives n name other → n < 1024) :
    (extractAddressGroups data).1.map Prod.fst = groups.map Prod.fst ∧
      ∀ name nets, (extractAddressGroups data).1.lookup name = some nets →
        ∀ net, net ∈ nets ↔ groups.Denotes name net := by
  have hvalues : ∀ name value, groups.lookup name = some value →
      value.inBrackets.isSinglyNegated ∧ value.inBrackets.isClosed ∧
        ∀ c ∈ ['[', ']'], c ∉ value.inBrackets.render := fun name value hvalue =>
    value.inBrackets.of_areFlat (hflat _ (AssocList.mem_of_lookup hvalue))
  have henv : env groups.texts = groups.positives :=
    env_texts fun name value hvalue => (hvalues name value hvalue).1
  -- every group may be put under a `!`
  have htidy : Tidy (fun _ => True) groups.texts :=
    tidy_texts (fun name value hvalue => (hvalues name value hvalue).1)
      (fun name value hvalue _ => (hvalues name value hvalue).2.1)
      fun _ _ _ _ _ _ _ => trivial
  have hfree : ∀ c ∈ ['[', ']'], Free c groups.texts := by
    intro c hc name text htext
    rw [lookup_texts, Option.map_eq_some_iff] at htext
    obtain ⟨value, hvalue, rfl⟩ := htext
    obtain ⟨b, a, hrender, -, -⟩ := exists_inBrackets value
    have hno := (hvalues name value hvalue).2.2 c hc
    rw [hrender] at hno
    simp only [List.mem_append, not_or] at hno
    exact hno.1.2
  have hnames : groups.texts.map Prod.fst = groups.map Prod.fst := by
    rw [AddressGroups.texts, List.map_map]
    rfl
  constructor
  · rw [extractAddressGroups, List.map_map, hdata, ← hnames, ← names_resolve]
    rfl
  · intro name nets hnets net
    obtain ⟨value, hvalue, rfl⟩ := lookup_extractAddressGroups.mp hnets
    rw [hdata] at hvalue
    have hbracket : ∀ c ∈ ['[', ']'], c ∉ inner value := fun c hc =>
      free_resolve (foreign_of_bracket hc) (hfree c hc) name value hvalue
    rw [mem_parse_iff_atoms (tidy_resolve htidy name value hvalue)
      ⟨hbracket _ (by simp), hbracket _ (by simp)⟩, AddressGroups.Denotes]
    apply exists_congr
    intro text
    apply and_congr_left
    intro _
    -- the resolved text holds the literals that are reached
    have hks : ∀ k, (groups.positives k).isSome → k ∈ groups.map Prod.fst := by
      intro k hk
      rw [← AssocList.lookup_isSome_iff]
      simpa [AddressGroups.positives] using hk
    rw [← leaf_mem_passes_iff (p := 10) hks hshort, ← henv, ← hnames]
    have hresolved := env_resolve htidy
    rw [maxVarExpansionPasses] at hresolved
    rw [← hresolved, env_eq_some hvalue]
    simp

def noBlanks : Blanks := ⟨[], by simp⟩

def homeNetName : Name := ⟨"HOME_NET".toList, by decide, List.all_eq_true.mp rfl⟩

def tenNet : Literal := ⟨"10.0.0.0/8".toList, by decide, by decide, by simp⟩

def officeNet : Literal := ⟨"192.168.0.0/16".toList, by decide, by decide, by simp⟩

/-- `$HOME_NET`, `!$HOME_NET` and the list that both refer to. -/
def sampleGroups : AddressGroups :=
  [("HTTP_SERVERS".toList, .one noBlanks (.group homeNetName) noBlanks),
    ("EXTERNAL_NET".toList, .one noBlanks (.neg (.group homeNetName)) noBlanks),
    ("HOME_NET".toList, .one noBlanks (.list (.cons noBlanks (.literal tenNet) noBlanks
      (.one noBlanks (.literal officeNet) noBlanks))) noBlanks)]

/-- The groups refer to `HOME_NET` only, and that refers to none. -/
theorem refers_sampleGroups {name other : Text} (h : Refers sampleGroups.positives name other) :
    name ≠ homeNetName.text ∧ other = homeNetName.text := by
  obtain ⟨items, hitems, hother, -⟩ := h
  obtain ⟨value, hvalue, rfl⟩ := Option.map_eq_some_iff.mp hitems
  have hall : ∀ group ∈ sampleGroups, ∀ item ∈ group.2.positives, ∀ k, item = .ref k →
      group.1 ≠ homeNetName.text ∧ k = homeNetName.text := by
    intro group hgroup
    simp only [sampleGroups, List.mem_cons, List.not_mem_nil, or_false] at hgroup
    rcases hgroup with rfl | rfl | rfl
    · intro item hitem k hk
      obtain rfl : item = .ref homeNetName.text := List.mem_singleton.mp hitem
      exact ⟨by decide, (Item.ref.inj hk).symm⟩
    · intro item hitem
      cases hitem
    · intro item hitem k hk
      rw [hk] at hitem
      revert hitem
      simp [Entries.positives, Entries.items, Address.items]
  exact hall _ (AssocList.mem_of_lookup hvalue) _ hother _ rfl

/-- `HOME_NET` in an address group that refers to it. -/
def sampleNets : List Network := [.v4 (subnet4 10 0 0 0 8), .v4 (subnet4 192 168 0 0 16)]

/-- Two groups, one of which refers to the other. -/
theorem networks_sample :
    (extractAddressGroups ⟨some ⟨some sampleGroups.texts, none⟩⟩).1.lookup "HTTP_SERVERS".toList =
        some sampleNets ∧
      ∀ net, net ∈ sampleNets ↔ sampleGroups.Denotes "HTTP_SERVERS".toList net := by
  have hshort : ∀ n name other, Chain sampleGroups.positives n name other → n < 1024 := by
    intro n name other h
    cases h with
    | nil => omega
    | cons h h' =>
      cases h' with
      | nil => omega
      | cons h' _ => exact absurd (refers_sampleGroups h).2 (refers_sampleGroups h').1
  have hnets : (extractAddressGroups ⟨some ⟨some sampleGroups.texts, none⟩⟩).1.lookup
      "HTTP_SERVERS".toList = some sampleNets := by rfl
  exact ⟨hnets, (networks_iff_denotes rfl (by decide) hshort).2 _ _ hnets⟩

/-! ### Nested values -/

/-- The literals of a value have no zone: Suricata's addresses have none. -/
def Entries.Unzoned (value : Entries) : Prop :=
  ∀ negated text, (negated, .leaf text) ∈ value.items false → '%' ∉ text

theorem unzoned_append {items items' : List (Bool × Item Text Text)} {P : Text → Prop}
    (h : ∀ negated text, (negated, .leaf text) ∈ items ++ items' → P text) :
    (∀ negated text, (negated, .leaf text) ∈ items → P text) ∧
      ∀ negated text, (negated, .leaf text) ∈ items' → P text :=
  ⟨fun negated text htext => h negated text (List.mem_append_left _ htext),
    fun negated text htext => h negated text (List.mem_append_right _ htext)⟩

theorem Spaces.not_zone {s : Text} (h : Spaces s) : '%' ∉ s := by
  intro hmem
  have hspace := h _ hmem
  cases hspace

mutual

theorem Address.not_zone (address : Address) {negated : Bool}
    (h : ∀ negated' text, (negated', .leaf text) ∈ address.items negated → '%' ∉ text) :
    '%' ∉ address.render := by
  cases address with
  | literal text => exact h negated text.text List.mem_cons_self
  | group name => simp [Address.render, name.isName.not_mem (c := '%') rfl]
  | neg address =>
    have hrest := Address.not_zone address h
    simp [Address.render, hrest]
  | list entries =>
    have hrest := Entries.not_zone entries h
    simp [Address.render, hrest]

theorem Entries.not_zone (entries : Entries) {negated : Bool}
    (h : ∀ negated' text, (negated', .leaf text) ∈ entries.items negated → '%' ∉ text) :
    '%' ∉ entries.render := by
  cases entries with
  | one before address after =>
    have haddress := Address.not_zone address h
    simp [Entries.render, before.spaces.not_zone, after.spaces.not_zone, haddress]
  | cons before address after rest =>
    obtain ⟨hl, hr⟩ := unzoned_append h
    have haddress := Address.not_zone address hl
    have hrest := Entries.not_zone rest hr
    simp [Entries.render, before.spaces.not_zone, after.spaces.not_zone, haddress, hrest]

end

/-- A network that is read from a text without a zone is one of its atoms: the text that is read
holds no bracket. -/
theorem exists_atom_of_mem_parse {S : Text → Prop} {k value : Text}
    (h : TidyText S k (inner value)) (hzone : '%' ∉ inner value) {net : Network}
    (hnet : net ∈ parseAddressValue value) :
    ∃ text, .leaf text ∈ atoms (inner value) ∧ ipNetwork text = some net := by
  obtain ⟨e, he, hbang, hdollar, hread⟩ := mem_parseAddressValue.mp hnet
  have hchars : ∀ c ∈ e, IsAddressChar c :=
    isAddressChar_of_ipNetwork (fun hc => hzone (mem_of_mem_entries he _ hc))
      (by rw [hread, Option.isSome_some])
  obtain ⟨hne, piece, hpiece, rfl⟩ := mem_entries.mp he
  obtain ⟨b, a, hsplit, hb, ha⟩ := exists_strip piece
  have hbracket : ∀ c ∈ ['[', ']'], c ∉ piece := by
    intro c hc
    have hno : c ∉ strip piece := fun hmem => not_isAddressChar_of_bracket hc (hchars c hmem)
    rw [hsplit]
    simp [hb.not_bracket hc, ha.not_bracket hc, hno]
  refine ⟨strip piece, List.mem_filterMap.mpr ⟨piece, hpiece, ?_⟩, hread⟩
  exact (atomOf_eq_leaf_iff (h piece hpiece) ⟨hbracket _ (by simp), hbracket _ (by simp)⟩).mpr
    ⟨rfl, hne, hbang, hdollar⟩

/-- Where the `!`s stand before single literals and names, and no list in a group that is put under
a `!` begins with a name, no network that is only negated is taken over. -/
theorem negated_absent_of_separable {data : SuricataData} {groups : AddressGroups}
    (hdata : data.rawAddr = groups.texts) (hwellFormed : ∀ group ∈ groups, group.2.Unzoned)
    (hsep : groups.Separable) {name : Text} {nets : List Network}
    (hnets : (extractAddressGroups data).1.lookup name = some nets) :
    ∀ net ∈ nets, ¬ groups.OnlyNegated name net := by
  have henv : env groups.texts = groups.positives :=
    env_texts fun name value hvalue => (hsep name value hvalue).1
  have htidy : Tidy groups.Exposed groups.texts := by
    apply tidy_texts (fun name value hvalue => (hsep name value hvalue).1)
      fun name value hvalue hexposed => (hsep name value hvalue).2 hexposed
    intro name value hvalue negated other hother hneeds
    cases negated with
    | true => exact .negated hvalue hother
    | false => exact .through (hneeds.resolve_left (by simp)) hvalue hother
  have hfree : Free '%' groups.texts := by
    intro name text htext
    rw [lookup_texts, Option.map_eq_some_iff] at htext
    obtain ⟨value, hvalue, rfl⟩ := htext
    obtain ⟨b, a, hrender, -, -⟩ := exists_inner value.render
    have hno := value.not_zone (hwellFormed _ (AssocList.mem_of_lookup hvalue))
    rw [hrender] at hno
    simp only [List.mem_append, not_or] at hno
    exact hno.1.2
  obtain ⟨value, hvalue, rfl⟩ := lookup_extractAddressGroups.mp hnets
  rw [hdata] at hvalue
  rintro net hnet ⟨-, hdenotes⟩
  obtain ⟨text, htext, hread⟩ := exists_atom_of_mem_parse
    (tidy_resolve htidy name value hvalue) (free_resolve (by decide) hfree name value hvalue) hnet
  refine hdenotes ⟨text, ?_, hread⟩
  -- the atoms of the resolved text are reached from the group
  have hresolved : References.Denotes (env (resolveVariableReferences groups.texts)) name text :=
    .leaf (env_eq_some hvalue) htext
  rw [env_resolve htidy, denotes_passes, henv] at hresolved
  exact hresolved

theorem negated_absent_sample :
    (extractAddressGroups ⟨some ⟨some sampleGroups.texts, none⟩⟩).1.lookup "HTTP_SERVERS".toList =
        some sampleNets ∧
      ∀ net ∈ sampleNets, ¬ sampleGroups.OnlyNegated "HTTP_SERVERS".toList net := by
  have hwellFormed : ∀ group ∈ sampleGroups, group.2.Unzoned := by
    intro group hgroup negated text htext
    simp only [sampleGroups, List.mem_cons, List.not_mem_nil, or_false] at hgroup
    rcases hgroup with rfl | rfl | rfl
    · simp [Entries.items, Address.items] at htext
    · simp [Entries.items, Address.items] at htext
    · simp only [Entries.items, Address.items, List.cons_append, List.nil_append, List.mem_cons,
        Prod.mk.injEq, Item.leaf.injEq, List.not_mem_nil, or_false] at htext
      rcases htext with ⟨-, rfl⟩ | ⟨-, rfl⟩ <;> decide
  have hsep : sampleGroups.Separable := by
    have hall : ∀ group ∈ sampleGroups, group.2.inBrackets.isSinglyNegated ∧
        group.2.inBrackets.isClosed := by decide
    intro name value hvalue
    obtain ⟨hneg, hclosed⟩ := hall _ (AssocList.mem_of_lookup hvalue)
    exact ⟨hneg, fun _ => hclosed⟩
  have hnets : (extractAddressGroups ⟨some ⟨some sampleGroups.texts, none⟩⟩).1.lookup
      "HTTP_SERVERS".toList = some sampleNets := by rfl
  exact ⟨hnets, negated_absent_of_separable rfl hwellFormed hsep hnets⟩

def middleNet : Literal := ⟨"172.16.0.0/12".toList, by decide, by decide, by simp⟩

/-- `![10.0.0.0/8,172.16.0.0/12,192.168.0.0/16]` -/
def negatedList : AddressGroups :=
  [("OUTSIDE".toList, .one noBlanks (.neg (.list (.cons noBlanks (.literal tenNet) noBlanks
    (.cons noBlanks (.literal middleNet) noBlanks
      (.one noBlanks (.literal officeNet) noBlanks))))) noBlanks)]

/-- The `!` of a list stays with the first entry, so one in the middle is taken over. -/
theorem middle_entry_leaks :
    ∃ nets, (extractAddressGroups ⟨some ⟨some negatedList.texts, none⟩⟩).1.lookup
      "OUTSIDE".toList = some nets ∧
        ∃ net ∈ nets, negatedList.OnlyNegated "OUTSIDE".toList net := by
  refine ⟨[.v4 (subnet4 172 16 0 0 12)], by rfl, _, List.mem_singleton_self _, ?_, ?_⟩
  · refine ⟨middleNet.text, .leaf rfl ?_, rfl⟩
    exact List.mem_cons_of_mem _ List.mem_cons_self
  · rintro ⟨text, h, -⟩
    have hnone : negatedList.positives "OUTSIDE".toList = some [] := rfl
    obtain ⟨items, hitems, item, hitem, -⟩ := References.denotes_iff.mp h
    rw [hnone] at hitems
    obtain rfl := Option.some.inj hitems
    cases hitem

end Verdix.SuricataParser
