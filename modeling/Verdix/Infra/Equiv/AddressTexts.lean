import Verdix.Infra.SuricataParser
import Verdix.Lib.References

/-!
# Rewriting the text of an address group

The text of a group is read as a list of atoms, the literals and names in it that are under no `!`
(`atoms`).  If the names stand where an expansion leaves a `!` on all that it concerns (`TidyText`),
rewriting a text substitutes its atoms and leaves it in order (`expand_text`), and so it is for the
text of a group without its brackets (`expand_value`).
-/

namespace Verdix.SuricataParser

open Ipaddress References

/-! ### The ends of a text -/

/-- White space and brackets. -/
def isEdge (c : Char) : Bool := PyStr.isSpace c || c = '[' || c = ']'

/-- Only white space and brackets. -/
def Edges (s : Text) : Prop := ∀ c ∈ s, isEdge c

def Spaces (s : Text) : Prop := ∀ c ∈ s, PyStr.isSpace c

/-- The text without the white space and the brackets around it. -/
def core (s : Text) : Text := Split.trim isEdge s

/-- The text of a group without its own brackets. -/
def inner (value : Text) : Text := dropBrackets (strip value)

theorem edges_nil : Edges [] := by simp [Edges]

theorem Spaces.edges {s : Text} (h : Spaces s) : Edges s := by
  intro c hc
  simp [isEdge, h c hc]

theorem Edges.append {s t : Text} (hs : Edges s) (ht : Edges t) : Edges (s ++ t) := by
  intro c hc
  rcases List.mem_append.mp hc with hc | hc
  · exact hs c hc
  · exact ht c hc

theorem Edges.not_mem {s : Text} (h : Edges s) {c : Char} (hc : isEdge c = false) : c ∉ s := by
  intro hmem
  rw [h c hmem] at hc
  cases hc

theorem core_append {b a : Text} (hb : Edges b) (ha : Edges a) (s : Text) :
    core (b ++ s ++ a) = core s :=
  Split.trim_append hb ha s

theorem exists_core (s : Text) : ∃ b a, s = b ++ core s ++ a ∧ Edges b ∧ Edges a :=
  Split.exists_trim isEdge s

theorem exists_strip (s : Text) : ∃ b a, s = b ++ strip s ++ a ∧ Spaces b ∧ Spaces a :=
  Split.exists_trim PyStr.isSpace s

theorem dropBrackets_brackets (s : Text) : dropBrackets ('[' :: (s ++ [']'])) = s := by
  have hlast : ('[' :: (s ++ [']'])).getLast? = some ']' := by
    rw [← List.cons_append, List.getLast?_append]
    rfl
  rw [dropBrackets, if_pos ⟨rfl, hlast⟩, List.tail_cons, List.dropLast_concat]

/-- A text is in brackets, or nothing is dropped. -/
theorem dropBrackets_cases (s : Text) :
    (∃ mid, s = '[' :: (mid ++ [']'])) ∨ dropBrackets s = s := by
  by_cases h : s.head? = some '[' ∧ s.getLast? = some ']'
  · obtain ⟨hhead, hlast⟩ := h
    obtain ⟨t, rfl⟩ := List.head?_eq_some_iff.mp hhead
    have hne : t ≠ [] := by
      rintro rfl
      simp at hlast
    rw [List.getLast?_cons_of_ne_nil hne] at hlast
    exact .inl ⟨t.dropLast, by rw [List.dropLast_append_getLast? _ hlast]⟩
  · exact .inr (by rw [dropBrackets, if_neg h])

/-- What is dropped stands at the ends. -/
theorem exists_dropBrackets (s : Text) :
    ∃ b a, s = b ++ dropBrackets s ++ a ∧ Edges b ∧ Edges a := by
  rcases dropBrackets_cases s with ⟨mid, rfl⟩ | hsame
  · rw [dropBrackets_brackets]
    exact ⟨['['], [']'], rfl, by simp [Edges, isEdge], by simp [Edges, isEdge]⟩
  · exact ⟨[], [], by simp [hsame], edges_nil, edges_nil⟩

/-- A text is its inner text between edges. -/
theorem exists_inner (value : Text) :
    ∃ b a, value = b ++ inner value ++ a ∧ Edges b ∧ Edges a := by
  obtain ⟨b, a, hvalue, hb, ha⟩ := exists_strip value
  obtain ⟨b', a', hstrip, hb', ha'⟩ := exists_dropBrackets (strip value)
  refine ⟨b ++ b', a' ++ a, ?_, hb.edges.append hb', ha'.append ha.edges⟩
  rw [inner, List.append_assoc (b ++ b'), ← List.append_assoc _ a', List.append_assoc b,
    ← List.append_assoc b', ← List.append_assoc b', ← hstrip, ← List.append_assoc]
  exact hvalue

/-! ### The pattern -/

/-- The text of a name. -/
def IsName (name : Text) : Prop := name ≠ [] ∧ ∀ c ∈ name, isNameChar c

/-- What a match takes of a text that starts with a name, or with none. -/
def varMatch (vars : Groups) (negate : Bool) (s : Text) : Option (Text × ℕ) :=
  let varName := s.takeWhile isNameChar
  if varName = [] then none
  else some (replacer vars negate varName, varName.length + if negate then 1 else 0)

theorem varPattern_neg (vars : Groups) (s : Text) :
    varPattern vars ('!' :: '$' :: s) = varMatch vars true s := rfl

theorem varPattern_ref (vars : Groups) (s : Text) :
    varPattern vars ('$' :: s) = varMatch vars false s := rfl

/-- A reference begins with `$`, or with `!` before it. -/
theorem varPattern_eq_none {vars : Groups} {c : Char} {s : Text} (href : c ≠ '$')
    (hneg : c = '!' → s.head? ≠ some '$') : varPattern vars (c :: s) = none := by
  unfold varPattern
  split
  · rename_i heq
    obtain ⟨rfl, rfl⟩ := List.cons.inj heq
    exact absurd rfl (hneg rfl)
  · rename_i heq
    exact absurd (List.cons.inj heq).1 href
  · rfl

/-- No more is replaced than is there. -/
theorem varMatch_length {vars : Groups} {negate : Bool} {s new : Text} {more : ℕ}
    (h : varMatch vars negate s = some (new, more)) :
    more ≤ s.length + if negate then 1 else 0 := by
  unfold varMatch at h
  dsimp only at h
  split at h
  · cases h
  · obtain ⟨-, rfl⟩ := Prod.mk.inj (Option.some.inj h)
    have hle := (List.takeWhile_prefix isNameChar (l := s)).length_le
    omega

/-- A reference ends before the first character that no name has. -/
theorem varMatch_append {vars : Groups} {negate : Bool} {c : Char} (hc : isNameChar c = false)
    (s t : Text) : varMatch vars negate (s ++ c :: t) = varMatch vars negate s := by
  have htake : (s ++ c :: t).takeWhile isNameChar = s.takeWhile isNameChar := by
    rw [List.takeWhile_append]
    split
    · rename_i hall
      rw [List.takeWhile_cons, if_neg (by simp [hc]), List.append_nil]
      exact ((List.takeWhile_prefix _).eq_of_length hall).symm
    · rfl
  rw [varMatch, varMatch, htake]

/-- A character that is no part of a name or of its marks. -/
def IsBreak (c : Char) : Prop := isNameChar c = false ∧ c ≠ '!' ∧ c ≠ '$'

theorem IsBreak.breaks {c : Char} (h : IsBreak c) (vars : Groups) :
    ReSub.Breaks (varPattern vars) c where
  none s := varPattern_eq_none h.2.2 fun hneg => absurd hneg h.2.1
  stops d s t := by
    by_cases href : d = '$'
    · rw [href, varPattern_ref, varPattern_ref, varMatch_append h.1]
    · by_cases hneg : d = '!' ∧ s.head? = some '$'
      · obtain ⟨rfl, hhead⟩ := hneg
        obtain ⟨s, rfl⟩ := List.head?_eq_some_iff.mp hhead
        rw [List.cons_append, varPattern_neg, varPattern_neg, varMatch_append h.1]
      · -- no match starts here, with the break or without
        rw [varPattern_eq_none href fun hd => ?_, varPattern_eq_none href fun hd => ?_]
        · exact fun hhead => hneg ⟨hd, hhead⟩
        · cases s with
          | nil => simpa using h.2.2
          | cons e s => exact fun hhead => hneg ⟨hd, hhead⟩

/-- No match is longer than the text. -/
theorem fits_varPattern (vars : Groups) : ReSub.Fits (varPattern vars) := by
  intro c s new more h
  by_cases href : c = '$'
  · rw [href, varPattern_ref] at h
    exact varMatch_length h
  · by_cases hneg : c = '!' ∧ s.head? = some '$'
    · obtain ⟨rfl, hhead⟩ := hneg
      obtain ⟨s, rfl⟩ := List.head?_eq_some_iff.mp hhead
      rw [varPattern_neg] at h
      exact varMatch_length h
    · rw [varPattern_eq_none href fun hd hhead => hneg ⟨hd, hhead⟩] at h
      cases h

theorem isEdge_of_isNameChar {c : Char} (h : isNameChar c) : isEdge c = false := by
  have hrange : (65 ≤ c.toNat ∧ c.toNat ≤ 90) ∨ (48 ≤ c.toNat ∧ c.toNat ≤ 57) ∨ c = '_' := by
    simpa [isNameChar, Char.le_def, UInt32.le_iff_toNat_le, or_assoc] using h
  rcases hrange with hrange | hrange | rfl
  · have hbrackets : c ≠ '[' ∧ c ≠ ']' := by
      constructor <;> rintro rfl <;> revert hrange <;> decide
    simp [isEdge, PyStr.isSpace, hbrackets]
    omega
  · have hbrackets : c ≠ '[' ∧ c ≠ ']' := by
      constructor <;> rintro rfl <;> revert hrange <;> decide
    simp [isEdge, PyStr.isSpace, hbrackets]
    omega
  · decide

/-- White space and brackets are in no reference. -/
theorem isBreak_of_isEdge {c : Char} (h : isEdge c) : IsBreak c := by
  refine ⟨?_, ?_, ?_⟩
  · by_contra hname
    rw [isEdge_of_isNameChar (by simpa using hname)] at h
    cases h
  · rintro rfl
    cases h
  · rintro rfl
    cases h

/-- The pieces between the commas are expanded one by one. -/
theorem expand_append_comma (vars : Groups) (s t : Text) :
    expandVarsInString (s ++ ',' :: t) vars
      = expandVarsInString s vars ++ ',' :: expandVarsInString t vars :=
  ReSub.sub_append_break (fits_varPattern vars)
    (IsBreak.breaks ⟨by decide, by decide, by decide⟩ vars) s t

/-- White space and brackets around a text stay where they are. -/
theorem expand_edges {b a : Text} (hb : Edges b) (ha : Edges a) (vars : Groups) (s : Text) :
    expandVarsInString (b ++ s ++ a) vars = b ++ expandVarsInString s vars ++ a := by
  have hbreaks : ∀ {e : Text}, Edges e → ∀ c ∈ e, ReSub.Breaks (varPattern vars) c :=
    fun he c hc => (isBreak_of_isEdge (he c hc)).breaks vars
  rw [expandVarsInString, ReSub.sub_append_breaks (fits_varPattern vars) (hbreaks ha),
    ReSub.sub_breaks_append (hbreaks hb)]
  rfl

/-- Without a name there is nothing to replace. -/
theorem expand_of_not_mem {s : Text} (h : '$' ∉ s) (vars : Groups) :
    expandVarsInString s vars = s := by
  induction s with
  | nil => rfl
  | cons c s ih =>
    rw [List.mem_cons, not_or] at h
    have hnone : varPattern vars (c :: s) = none := by
      apply varPattern_eq_none (Ne.symm h.1)
      intro _ hhead
      exact h.2 (List.mem_of_head? hhead)
    rw [expandVarsInString, ReSub.sub_cons_of_none hnone]
    exact congrArg (c :: ·) (ih h.2)

/-- A name alone. -/
theorem expand_ref {name : Text} (h : IsName name) (vars : Groups) :
    expandVarsInString ('$' :: name) vars = replacer vars false name := by
  have htake : name.takeWhile isNameChar = name := List.takeWhile_eq_self_iff.mpr h.2
  have hmatch : varPattern vars ('$' :: (name ++ [])) =
      some (replacer vars false name, name.length) := by
    rw [List.append_nil, varPattern_ref, varMatch]
    simp [htake, h.1]
  have hsub := ReSub.sub_match hmatch
  rwa [ReSub.sub_nil, List.append_nil, List.append_nil] at hsub

/-- A name under a `!`, with more `!`s and brackets before it. -/
theorem expand_neg {q name : Text} (hq : ∀ c ∈ q, c = '!' ∨ isEdge c) (h : IsName name)
    (vars : Groups) :
    expandVarsInString (q ++ '!' :: '$' :: name) vars = q ++ replacer vars true name := by
  induction q with
  | nil =>
    have htake : name.takeWhile isNameChar = name := List.takeWhile_eq_self_iff.mpr h.2
    have hmatch : varPattern vars ('!' :: ('$' :: name ++ [])) =
        some (replacer vars true name, ('$' :: name).length) := by
      rw [List.append_nil, varPattern_neg, varMatch]
      simp [htake, h.1]
    have hsub := ReSub.sub_match hmatch
    rwa [ReSub.sub_nil, List.append_nil, List.append_nil] at hsub
  | cons c q ih =>
    rw [List.forall_mem_cons] at hq
    have hc : c ≠ '$' := by
      rintro rfl
      rcases hq.1 with h | h <;> cases h
    have hnone : varPattern vars (c :: (q ++ '!' :: '$' :: name)) = none := by
      apply varPattern_eq_none hc
      intro _
      cases q with
      | nil => simp
      | cons d q =>
        rintro ⟨⟩
        rcases hq.2 _ List.mem_cons_self with h | h <;> cases h
    rw [List.cons_append, expandVarsInString, ReSub.sub_cons_of_none hnone]
    exact congrArg (c :: ·) (ih hq.2)

/-! ### Atoms -/

/-- What stands between two commas, if it is under no `!`: a name, or else a literal.  The brackets
around it are those of the lists that it begins or ends. -/
def atomOf (piece : Text) : Option (Item Text Text) :=
  if '!' ∈ piece then
    none
  else
    match core piece with
    | [] => none
    | '$' :: name => some (.ref name)
    | text => some (.leaf text)

/-- The literals and names of a text that are under no `!`. -/
def atoms (s : Text) : List (Item Text Text) := (s.splitOn ',').filterMap atomOf

theorem atomOf_edges {b a : Text} (hb : Edges b) (ha : Edges a) (piece : Text) :
    atomOf (b ++ piece ++ a) = atomOf piece := by
  have hbang : '!' ∈ b ++ piece ++ a ↔ '!' ∈ piece := by
    simp [hb.not_mem (c := '!') rfl, ha.not_mem (c := '!') rfl]
  rw [atomOf, atomOf, core_append hb ha]
  simp only [hbang]

theorem atomOf_of_bang {piece : Text} (h : '!' ∈ piece) : atomOf piece = none := by
  rw [atomOf, if_pos h]

theorem atomOf_of_edges {piece : Text} (h : Edges piece) : atomOf piece = none := by
  have hcore : core piece = [] := Split.trim_eq_nil_iff.mpr h
  rw [atomOf, if_neg (h.not_mem rfl), hcore]

/-- The ends of a text add no atom. -/
theorem atoms_edges {b a : Text} (hb : Edges b) (ha : Edges a) (s : Text) :
    atoms (b ++ s ++ a) = atoms s := by
  apply Split.filterMap_splitOn_append (hb.not_mem rfl) (ha.not_mem rfl)
  · intro t
    have h := atomOf_edges hb edges_nil t
    rwa [List.append_nil] at h
  · exact fun t => atomOf_edges edges_nil ha t

/-- The atoms of a text are those of its pieces. -/
theorem atoms_append_comma (s t : Text) : atoms (s ++ ',' :: t) = atoms s ++ atoms t := by
  rw [atoms, List.splitOn_append_cons_self, List.filterMap_append]
  rfl

theorem atoms_of_not_mem {s : Text} (h : ',' ∉ s) : atoms s = (atomOf s).toList := by
  rw [atoms, List.splitOn_eq_singleton h, List.filterMap_cons, List.filterMap_nil]
  cases atomOf s <;> rfl

/-- What each group of a dictionary takes over. -/
def env (vars : Groups) : Env Text Text :=
  fun name => (vars.lookup name).map fun value => atoms (inner value)

/-! ### Tidy texts -/

section Tidy

variable (S : Text → Prop)

/-- A piece that a `!` is before: it holds literals only, or one name that another `!` stands
directly before. -/
def Struck (piece : Text) : Prop :=
  piece.find? (!isEdge ·) = some '!' ∧
    ('$' ∉ piece ∨ ∃ q name, core piece = q ++ '!' :: '$' :: name ∧
      (∀ c ∈ q, c = '!' ∨ isEdge c) ∧ IsName name ∧ S name)

/-- A piece without a `!`: literals only, or one name.  `S` holds of the groups that are put under a
`!` somewhere: there the name must be what the `!` will stand directly before. -/
def Open (k piece : Text) : Prop :=
  '!' ∉ piece ∧
    ('$' ∉ piece ∨ ∃ name, core piece = '$' :: name ∧ IsName name ∧
      (S k → piece.find? (!PyStr.isSpace ·) = some '$' ∧ S name))

def Neat (k piece : Text) : Prop := Struck S piece ∨ Open S k piece

/-- Every piece of the text of group `k` is in order. -/
def TidyText (k s : Text) : Prop := ∀ piece ∈ s.splitOn ',', Neat S k piece

/-- Every group of a dictionary is. -/
def Tidy (vars : Groups) : Prop :=
  ∀ name value, vars.lookup name = some value → TidyText S name (inner value)

end Tidy

variable {S : Text → Prop} {k : Text}

theorem find?_edges {p : Char → Bool} {e : Text} (he : ∀ c ∈ e, p c = false) (s : Text) :
    (e ++ s).find? p = s.find? p := by
  have hnone : e.find? p = none := List.find?_eq_none.mpr fun c hc => by simp [he c hc]
  rw [List.find?_append, hnone, Option.none_or]

theorem Struck.bang_mem {piece : Text} (h : Struck S piece) : '!' ∈ piece :=
  List.mem_of_find?_eq_some h.1

/-- Brackets and white space around a piece that is under a `!`. -/
theorem struck_edges_iff {b a piece : Text} (hb : Edges b) (ha : Edges a) :
    Struck S (b ++ piece ++ a) ↔ Struck S piece := by
  have hfind : (b ++ piece ++ a).find? (!isEdge ·) = some '!' ↔
      piece.find? (!isEdge ·) = some '!' := by
    have hnone : a.find? (!isEdge ·) = none :=
      List.find?_eq_none.mpr fun c hc => by simp [ha c hc]
    rw [List.append_assoc, find?_edges (fun c hc => by simp [hb c hc]), List.find?_append, hnone,
      Option.or_none]
  have href : '$' ∈ b ++ piece ++ a ↔ '$' ∈ piece := by
    simp [hb.not_mem (c := '$') rfl, ha.not_mem (c := '$') rfl]
  rw [Struck, Struck, hfind, href, core_append hb ha]

theorem find?_bangs {q : Text} (hq : ∀ c ∈ q, c = '!' ∨ isEdge c) {s : Text}
    (hs : s.find? (!isEdge ·) = some '!') : (q ++ s).find? (!isEdge ·) = some '!' := by
  rw [List.find?_append]
  cases hfind : q.find? (!isEdge ·) with
  | none => rw [Option.none_or, hs]
  | some c =>
    rcases hq c (List.mem_of_find?_eq_some hfind) with rfl | hc
    · rfl
    · have hout := List.find?_some hfind
      simp [hc] at hout

/-- A name ends with a character that is no edge. -/
theorem IsName.exists_last {name : Text} (h : IsName name) :
    ∃ init d, name = init ++ [d] ∧ isEdge d = false := by
  rcases List.eq_nil_or_concat name with hnil | ⟨init, d, hname⟩
  · exact absurd hnil h.1
  · rw [List.concat_eq_append] at hname
    refine ⟨init, d, hname, isEdge_of_isNameChar (h.2 d ?_)⟩
    rw [hname]
    simp

/-- A name with a `!` directly before it, and more `!`s and brackets before that. -/
theorem struck_of_ref {q name a : Text} (hq : ∀ c ∈ q, c = '!' ∨ isEdge c) (h : IsName name)
    (ha : Edges a) (hS : S name) : Struck S (q ++ '!' :: '$' :: name ++ a) := by
  constructor
  · rw [List.append_assoc]
    exact find?_bangs hq rfl
  · obtain ⟨init, d, hname, hd⟩ := h.exists_last
    have hcore : core (q ++ '!' :: '$' :: name ++ a) = q.dropWhile isEdge ++ '!' :: '$' :: name := by
      rw [core, Split.trim_append_right ha, hname]
      exact Split.trim_append_core (s := '$' :: init) rfl hd
    refine .inr ⟨_, name, hcore, fun c hc => hq c ?_, h, hS⟩
    exact (List.dropWhile_suffix _).subset hc

/-- More `!`s before a piece that is under one. -/
theorem Struck.append_left {q piece : Text} (hq : ∀ c ∈ q, c = '!' ∨ isEdge c)
    (h : Struck S piece) : Struck S (q ++ piece) := by
  obtain ⟨hfind, hno | ⟨q', name, hcore, hq', hname, hS⟩⟩ := h
  · refine ⟨find?_bangs hq hfind, .inl ?_⟩
    rw [List.mem_append, not_or]
    refine ⟨fun hmem => ?_, hno⟩
    rcases hq _ hmem with h | h <;> cases h
  · obtain ⟨b, a, hpiece, hb, ha⟩ := exists_core piece
    have hall : ∀ c ∈ q ++ b ++ q', c = '!' ∨ isEdge c := by
      intro c hc
      rw [List.mem_append, List.mem_append] at hc
      rcases hc with (hc | hc) | hc
      · exact hq c hc
      · exact .inr (hb c hc)
      · exact hq' c hc
    have hstruck := struck_of_ref hall hname ha hS
    rw [hpiece, hcore]
    simpa [List.append_assoc] using hstruck

/-- Brackets and white space around a piece without a `!`. -/
theorem Open.edges {b a piece : Text} (h : Open S k piece) (hb : Edges b) (ha : Edges a)
    (hspaces : S k → Spaces b) : Open S k (b ++ piece ++ a) := by
  obtain ⟨hbang, href⟩ := h
  refine ⟨by simp [hbang, hb.not_mem (c := '!') rfl, ha.not_mem (c := '!') rfl], ?_⟩
  rcases href with hno | ⟨name, hcore, hname, hfirst⟩
  · left
    simp [hno, hb.not_mem (c := '$') rfl, ha.not_mem (c := '$') rfl]
  · refine .inr ⟨name, by rw [core_append hb ha, hcore], hname, fun hk => ⟨?_, (hfirst hk).2⟩⟩
    have hskip : ∀ c ∈ b, (!PyStr.isSpace c) = false := fun c hc => by simp [hspaces hk c hc]
    rw [List.append_assoc, find?_edges hskip, List.find?_append, (hfirst hk).1, Option.some_or]

theorem Open.of_edges {b a piece : Text} (hb : Edges b) (ha : Edges a)
    (h : Open S k (b ++ piece ++ a)) : Open S k piece := by
  obtain ⟨hbang, href⟩ := h
  simp only [List.mem_append, not_or] at hbang
  refine ⟨hbang.1.2, ?_⟩
  rcases href with hno | ⟨name, hcore, hname, hfirst⟩
  · simp only [List.mem_append, not_or] at hno
    exact .inl hno.1.2
  · rw [core_append hb ha] at hcore
    refine .inr ⟨name, hcore, hname, fun hk => ⟨?_, (hfirst hk).2⟩⟩
    have hfind := (hfirst hk).1
    -- a `$` is no edge, so it is found in the piece
    have hne : ∀ {e : Text}, Edges e → e.find? (!PyStr.isSpace ·) ≠ some '$' :=
      fun he hmem => he.not_mem (c := '$') rfl (List.mem_of_find?_eq_some hmem)
    rw [List.append_assoc, List.find?_append, Option.or_eq_some_iff, List.find?_append,
      Option.or_eq_some_iff] at hfind
    rcases hfind with hfind | ⟨-, hfind | ⟨-, hfind⟩⟩
    · exact absurd hfind (hne hb)
    · exact hfind
    · exact absurd hfind (hne ha)

/-- A piece stays neat between its ends. -/
theorem Neat.edges {b a piece : Text} (h : Neat S k piece) (hb : Edges b) (ha : Edges a)
    (hspaces : S k → Spaces b) : Neat S k (b ++ piece ++ a) := by
  rcases h with h | h
  · exact .inl ((struck_edges_iff hb ha).mpr h)
  · exact .inr (h.edges hb ha hspaces)

theorem Neat.of_edges {b a piece : Text} (hb : Edges b) (ha : Edges a)
    (h : Neat S k (b ++ piece ++ a)) : Neat S k piece := by
  rcases h with h | h
  · exact .inl ((struck_edges_iff hb ha).mp h)
  · exact .inr (.of_edges hb ha h)

/-- Brackets and white space around a text: where a `!` may come to stand, no bracket before it. -/
theorem TidyText.edges {b a s : Text} (h : TidyText S k s) (hb : Edges b) (ha : Edges a)
    (hspaces : S k → Spaces b) : TidyText S k (b ++ s ++ a) := by
  have hleft : TidyText S k (b ++ s) := by
    apply Split.forall_splitOn_append_left (P := Neat S k) (hb.not_mem (c := ',') rfl) _ h
    intro t ht
    have hneat := ht.edges (a := []) hb edges_nil hspaces
    rwa [List.append_nil] at hneat
  apply Split.forall_splitOn_append_right (P := Neat S k) (ha.not_mem (c := ',') rfl) _ hleft
  exact fun t ht => ht.edges (b := []) edges_nil ha fun _ => by simp [Spaces]

theorem TidyText.of_edges {b a s : Text} (hb : Edges b) (ha : Edges a)
    (h : TidyText S k (b ++ s ++ a)) : TidyText S k s := by
  have hright : TidyText S k (b ++ s) :=
    Split.forall_splitOn_of_append_right (ha.not_mem (c := ',') rfl)
      (fun _ ht => Neat.of_edges (b := []) edges_nil ha ht) h
  apply Split.forall_splitOn_of_append_left (P := Neat S k) (hb.not_mem (c := ',') rfl) _ hright
  intro t ht
  apply Neat.of_edges (a := []) hb edges_nil
  rwa [List.append_nil]

/-- A text is tidy iff its pieces are. -/
theorem tidyText_append_comma {s t : Text} :
    TidyText S k (s ++ ',' :: t) ↔ TidyText S k s ∧ TidyText S k t := by
  rw [TidyText, List.splitOn_append_cons_self, List.forall_mem_append]
  rfl

theorem tidyText_of_not_mem {s : Text} (h : ',' ∉ s) : TidyText S k s ↔ Neat S k s := by
  rw [TidyText, List.splitOn_eq_singleton h, List.forall_mem_singleton]

/-- A group that is put under a `!` demands most of its text. -/
theorem TidyText.weaken {j s : Text} (h : TidyText S j s) (hS : S k → S j) : TidyText S k s := by
  intro piece hpiece
  rcases h piece hpiece with h | ⟨hbang, href⟩
  · exact .inl h
  · refine .inr ⟨hbang, href.imp_right ?_⟩
    rintro ⟨name, hcore, hname, hfirst⟩
    exact ⟨name, hcore, hname, fun hk => hfirst (hS hk)⟩

/-! ### Entries under a `!` -/

theorem mem_entries {s e : Text} :
    e ∈ entries s ↔ e ≠ [] ∧ ∃ piece ∈ s.splitOn ',', strip piece = e := by
  rw [entries, List.mem_filter, List.mem_map, decide_eq_true_iff]
  exact and_comm

/-- Nothing but white space is before the `$` that is the first character. -/
theorem spaces_of_find? {b t : Text} (hb : Edges b)
    (h : (b ++ '$' :: t).find? (!PyStr.isSpace ·) = some '$') : Spaces b := by
  intro c hc
  by_contra hspace
  have hfound : (b.find? (!PyStr.isSpace ·)).isSome := by
    rw [List.find?_isSome]
    exact ⟨c, hc, by simpa using hspace⟩
  obtain ⟨d, hd⟩ := Option.isSome_iff_exists.mp hfound
  rw [List.find?_append, hd, Option.some_or] at h
  obtain rfl := Option.some.inj h
  exact hb.not_mem rfl (List.mem_of_find?_eq_some hd)

/-- An entry with a `!` put before it. -/
theorem struck_entry {s e : Text} (h : TidyText S k s) (hk : S k) (he : e ∈ entries s) :
    Struck S ('!' :: e) ∧ ',' ∉ e := by
  obtain ⟨-, piece, hpiece, rfl⟩ := mem_entries.mp he
  obtain ⟨b, a, hsplit, hb, ha⟩ := exists_strip piece
  have hcomma : ',' ∉ strip piece :=
    fun hmem => (Split.mem_splitOn hpiece).1 (Split.mem_of_mem_trim hmem)
  refine ⟨?_, hcomma⟩
  have hneat := h piece hpiece
  rw [hsplit] at hneat
  rcases hneat.of_edges hb.edges ha.edges with hstruck | ⟨-, hno | ⟨name, hcore, hname, hfirst⟩⟩
  · exact hstruck.append_left (q := ['!']) (by simp)
  · refine ⟨rfl, .inl ?_⟩
    simpa using hno
  · -- the entry is the name and what brackets end with it, so the `!` stands before its `$`
    obtain ⟨hfind, hS⟩ := hfirst hk
    obtain ⟨b', a', hentry, hb', ha'⟩ := exists_core (strip piece)
    rw [hcore] at hentry
    have hnil : b' = [] := by
      cases b' with
      | nil => rfl
      | cons c b' =>
        rw [hentry, List.append_assoc] at hfind
        have hspace : PyStr.isSpace c := spaces_of_find? hb' hfind c List.mem_cons_self
        rw [Split.head_trim (c := c) hentry] at hspace
        cases hspace
    rw [hnil, List.nil_append] at hentry
    rw [hentry]
    exact struck_of_ref (q := []) (by simp) hname ha' hS

/-- The entries of a list, each under a `!`. -/
theorem struck_intercalate {es : List Text} (hne : es ≠ [])
    (h : ∀ e ∈ es, Struck S ('!' :: e) ∧ ',' ∉ e) :
    ∀ piece ∈ ([',', ' '].intercalate (es.map ('!' :: ·))).splitOn ',', Struck S piece := by
  induction es with
  | nil => exact absurd rfl hne
  | cons e es ih =>
    rw [List.forall_mem_cons] at h
    have hcomma : ',' ∉ '!' :: e := by simpa using h.1.2
    cases es with
    | nil =>
      rw [List.map_cons, List.map_nil, List.intercalate_singleton,
        List.splitOn_eq_singleton hcomma, List.forall_mem_singleton]
      exact h.1.1
    | cons f es =>
      have hrest := ih (by simp) h.2
      have hsplit : [',', ' '].intercalate ((e :: f :: es).map ('!' :: ·)) =
          ('!' :: e) ++ ',' :: ([' '] ++ [',', ' '].intercalate ((f :: es).map ('!' :: ·))) := by
        rw [List.map_cons, List.map_cons, List.intercalate_cons_cons, List.append_assoc]
        rfl
      rw [hsplit, List.splitOn_append_cons_self_of_not_mem hcomma, List.forall_mem_cons]
      refine ⟨h.1.1, Split.forall_splitOn_append_left (by simp) (fun t ht => ?_) hrest⟩
      exact ht.append_left (q := [' ']) (by simp [isEdge, PyStr.isSpace])

/-! ### Rewriting one text -/

/-- What rewriting must do to a text: substitute its atoms, and leave it in order. -/
structure Expands (S : Text → Prop) (vars : Groups) (k s : Text) : Prop where
  atoms : atoms (expandVarsInString s vars) = (atoms s).flatMap (subst (env vars))
  tidy : TidyText S k (expandVarsInString s vars)

variable {vars : Groups}

theorem env_eq_none {name : Text} (h : vars.lookup name = none) : env vars name = none := by
  rw [env, h, Option.map_none]

theorem env_eq_some {name value : Text} (h : vars.lookup name = some value) :
    env vars name = some (atoms (inner value)) := by
  rw [env, h, Option.map_some]

/-- Pieces that are all under a `!`. -/
theorem atoms_of_struck {s : Text} (h : ∀ piece ∈ s.splitOn ',', Struck S piece) :
    atoms s = [] := by
  rw [atoms, List.filterMap_eq_nil_iff]
  exact fun piece hpiece => atomOf_of_bang (h piece hpiece).bang_mem

theorem exists_leaf_of_atomOf {piece : Text} {item : Item Text Text} (h : '$' ∉ piece)
    (hitem : atomOf piece = some item) : ∃ text, item = .leaf text := by
  unfold atomOf at hitem
  split at hitem
  · cases hitem
  · split at hitem
    · cases hitem
    · rename_i name hcore
      refine absurd ?_ h
      apply Split.mem_of_mem_trim (p := isEdge)
      show '$' ∈ core piece
      rw [hcore]
      exact List.mem_cons_self
    · exact ⟨_, (Option.some.inj hitem).symm⟩

/-- A text without a reference is not changed. -/
theorem expands_of_not_mem {s : Text} (h : '$' ∉ s) (htidy : TidyText S k s) :
    Expands S vars k s := by
  have hexpand : expandVarsInString s vars = s := expand_of_not_mem h vars
  refine ⟨?_, by rwa [hexpand]⟩
  have hleaf : ∀ item ∈ atoms s, subst (env vars) item = [item] := by
    intro item hitem
    obtain ⟨piece, hpiece, hatom⟩ := List.mem_filterMap.mp hitem
    have hno : '$' ∉ piece := fun hmem => h ((Split.mem_splitOn hpiece).2 _ hmem)
    obtain ⟨text, rfl⟩ := exists_leaf_of_atomOf hno hatom
    rfl
  rw [hexpand]
  symm
  calc (atoms s).flatMap (subst (env vars)) = (atoms s).flatMap fun item => [item] :=
        List.flatMap_congr hleaf
    _ = atoms s := List.flatMap_singleton' _

/-- Brackets and white space around a text that is rewritten. -/
theorem Expands.edges {b a s : Text} (h : Expands S vars k s) (hb : Edges b) (ha : Edges a)
    (hspaces : S k → Spaces b) : Expands S vars k (b ++ s ++ a) where
  atoms := by
    rw [expand_edges hb ha, atoms_edges hb ha, atoms_edges hb ha]
    exact h.atoms
  tidy := by
    rw [expand_edges hb ha]
    exact h.tidy.edges hb ha hspaces

theorem replacer_of_none {name : Text} (h : vars.lookup name = none) (negate : Bool) :
    replacer vars negate name = (if negate then ['!'] else []) ++ '$' :: name := by
  rw [replacer, h]

/-- A reference is replaced by the value of its group, a negated one by its entries with a `!` each.
-/
theorem replacer_of_some {name value : Text} (h : vars.lookup name = some value) (negate : Bool) :
    replacer vars negate name =
      if negate then [',', ' '].intercalate ((entries (inner value)).map ('!' :: ·))
      else inner value := by
  rw [replacer, h]
  rfl

theorem IsName.not_mem {name : Text} (h : IsName name) {c : Char} (hc : isNameChar c = false) :
    c ∉ name := by
  intro hmem
  rw [h.2 c hmem] at hc
  cases hc

theorem IsName.atoms {name : Text} (h : IsName name) : atoms ('$' :: name) = [.ref name] := by
  have hcore : core ('$' :: name) = '$' :: name := by
    obtain ⟨init, d, rfl, hd⟩ := h.exists_last
    exact Split.trim_append_core (b := []) rfl hd
  have hcomma : ',' ∉ '$' :: name := by simp [h.not_mem (c := ',') rfl]
  have hbang : '!' ∉ '$' :: name := by simp [h.not_mem (c := '!') rfl]
  rw [atoms_of_not_mem hcomma, atomOf, if_neg hbang, hcore]
  rfl

theorem IsName.tidy {name : Text} (h : IsName name) (hS : S k → S name) :
    TidyText S k ('$' :: name) := by
  have hcore : core ('$' :: name) = '$' :: name := by
    obtain ⟨init, d, rfl, hd⟩ := h.exists_last
    exact Split.trim_append_core (b := []) rfl hd
  rw [tidyText_of_not_mem (by simp [h.not_mem (c := ',') rfl])]
  exact .inr ⟨by simp [h.not_mem (c := '!') rfl], .inr ⟨name, hcore, h, fun hk => ⟨rfl, hS hk⟩⟩⟩

/-- A name: what stands in its place are the pieces of its group. -/
theorem expands_ref (htidy : Tidy S vars) {name : Text} (h : IsName name) (hS : S k → S name) :
    Expands S vars k ('$' :: name) := by
  have hexpand := expand_ref h vars
  cases hlookup : vars.lookup name with
  | none =>
    rw [replacer_of_none hlookup] at hexpand
    constructor
    · rw [hexpand, h.atoms, List.flatMap_singleton, subst, env_eq_none hlookup]
      exact h.atoms
    · rw [hexpand]
      exact h.tidy hS
  | some value =>
    rw [replacer_of_some hlookup] at hexpand
    constructor
    · rw [hexpand, h.atoms, List.flatMap_singleton, subst, env_eq_some hlookup]
      rfl
    · rw [hexpand]
      exact (htidy name value hlookup).weaken hS

/-- A name under a `!`: every entry of its group comes under one. -/
theorem expands_neg (htidy : Tidy S vars) {q name : Text} (hq : ∀ c ∈ q, c = '!' ∨ isEdge c)
    (h : IsName name) (hS : S name) : Expands S vars k (q ++ '!' :: '$' :: name) := by
  have hcomma : ',' ∉ q := by
    intro hmem
    rcases hq _ hmem with h | h <;> cases h
  have hdollar : '$' ∉ q := by
    intro hmem
    rcases hq _ hmem with h | h <;> cases h
  have hnone : atoms (q ++ '!' :: '$' :: name) = [] := by
    have hall : ',' ∉ q ++ '!' :: '$' :: name := by simp [hcomma, h.not_mem (c := ',') rfl]
    rw [atoms_of_not_mem hall, atomOf_of_bang (by simp)]
    rfl
  have hexpand := expand_neg hq h vars
  -- it is enough that what is there now is all under a `!`, or is no atom
  suffices hnew : atoms (expandVarsInString (q ++ '!' :: '$' :: name) vars) = [] ∧
      TidyText S k (expandVarsInString (q ++ '!' :: '$' :: name) vars) by
    exact ⟨by rw [hnew.1, hnone, List.flatMap_nil], hnew.2⟩
  rw [hexpand]
  have hstruck : ∀ t, (∀ piece ∈ t.splitOn ',', Struck S piece) → atoms t = [] ∧ TidyText S k t :=
    fun t ht => ⟨atoms_of_struck ht, fun piece hpiece => .inl (ht piece hpiece)⟩
  cases hlookup : vars.lookup name with
  | none =>
    rw [replacer_of_none hlookup]
    have hall : ',' ∉ q ++ '!' :: '$' :: name := by simp [hcomma, h.not_mem (c := ',') rfl]
    apply hstruck
    rw [if_pos rfl, List.singleton_append, List.splitOn_eq_singleton hall, List.forall_mem_singleton]
    simpa using struck_of_ref (S := S) hq h edges_nil hS
  | some value =>
    rw [replacer_of_some hlookup, if_pos rfl]
    by_cases hes : entries (inner value) = []
    · -- an empty group: only `!`s and brackets are left
      rw [hes, List.map_nil, List.intercalate_nil, List.append_nil]
      by_cases hbang : '!' ∈ q
      · apply hstruck
        rw [List.splitOn_eq_singleton hcomma, List.forall_mem_singleton]
        obtain ⟨b, t, rfl, -⟩ := List.eq_append_cons_of_mem hbang
        exact ⟨find?_bangs (fun c hc => hq c (List.mem_append_left _ hc)) rfl, .inl hdollar⟩
      · have hedges : Edges q := fun c hc => (hq c hc).resolve_left fun h => hbang (h ▸ hc)
        refine ⟨by rw [atoms_of_not_mem hcomma, atomOf_of_edges hedges]; rfl, ?_⟩
        rw [tidyText_of_not_mem hcomma]
        exact .inr ⟨hbang, .inl hdollar⟩
    · apply hstruck
      apply Split.forall_splitOn_append_left (P := Struck S) hcomma
        fun t ht => ht.append_left hq
      exact struck_intercalate hes fun e he => struck_entry (htidy name value hlookup) hS he

/-- A neat piece is expanded as it should be. -/
theorem expands_piece (htidy : Tidy S vars) {piece : Text} (hcomma : ',' ∉ piece)
    (h : Neat S k piece) : Expands S vars k piece := by
  have hneat := (tidyText_of_not_mem hcomma).mpr h
  obtain ⟨b, a, hpiece, hb, ha⟩ := exists_core piece
  rcases h with ⟨-, hno | ⟨q, name, hcore, hq, hname, hS⟩⟩ | ⟨-, hno | ⟨name, hcore, hname, hfirst⟩⟩
  · exact expands_of_not_mem hno hneat
  · -- the edges before are more of what may stand before the `!`
    rw [hcore] at hpiece
    have hall : ∀ c ∈ b ++ q, c = '!' ∨ isEdge c := by
      intro c hc
      rcases List.mem_append.mp hc with hc | hc
      · exact .inr (hb c hc)
      · exact hq c hc
    have hexpands := (expands_neg (k := k) htidy hall hname hS).edges (b := []) edges_nil ha
      fun _ => by simp [Spaces]
    rw [hpiece]
    simpa [List.append_assoc] using hexpands
  · exact expands_of_not_mem hno hneat
  · rw [hcore] at hpiece
    rw [hpiece]
    apply (expands_ref htidy hname fun hk => (hfirst hk).2).edges hb ha
    intro hk
    have hfind := (hfirst hk).1
    rw [hpiece, List.append_assoc] at hfind
    exact spaces_of_find? hb hfind

/-- Rewriting a text substitutes its atoms, and leaves it in order. -/
theorem expand_text (htidy : Tidy S vars) {s : Text} : TidyText S k s → Expands S vars k s := by
  induction s using Split.splitOn_induction (a := ',') with
  | single s hs => exact fun h => expands_piece htidy hs ((tidyText_of_not_mem hs).mp h)
  | append s t hs ih =>
    intro h
    obtain ⟨hfirst, hrest⟩ := tidyText_append_comma.mp h
    have hpiece := expands_piece htidy hs ((tidyText_of_not_mem hs).mp hfirst)
    have hexpand := expand_append_comma vars s t
    constructor
    · rw [hexpand, atoms_append_comma, atoms_append_comma, List.flatMap_append, hpiece.atoms,
        (ih hrest).atoms]
    · rw [hexpand]
      exact tidyText_append_comma.mpr ⟨hpiece.tidy, (ih hrest).tidy⟩

/-! ### Rewriting the text of a group -/

/-- The brackets of a group stay: its new inner text is the old one rewritten, apart from white space
and brackets that are at its ends now. -/
theorem exists_inner_expand (vars : Groups) (value : Text) :
    ∃ b a, expandVarsInString (inner value) vars = b ++ inner (expandVarsInString value vars) ++ a ∧
      Edges b ∧ Edges a := by
  obtain ⟨b, a, hvalue, hb, ha⟩ := exists_strip value
  have hstrip : strip (expandVarsInString value vars) =
      strip (expandVarsInString (strip value) vars) := by
    rw [hvalue, expand_edges hb.edges ha.edges, strip, Split.trim_append hb ha, ← hvalue]
    rfl
  rcases dropBrackets_cases (strip value) with ⟨mid, hmid⟩ | hsame
  · have hexpand : expandVarsInString (strip value) vars =
        '[' :: (expandVarsInString mid vars ++ [']']) := by
      rw [hmid]
      exact expand_edges (b := ['[']) (a := [']']) (by simp [Edges, isEdge])
        (by simp [Edges, isEdge]) vars mid
    have hnew : inner (expandVarsInString value vars) = expandVarsInString mid vars := by
      have hkeep : strip ('[' :: (expandVarsInString mid vars ++ [']'])) =
          '[' :: (expandVarsInString mid vars ++ [']']) :=
        Split.trim_append_core (b := []) (by decide) (by decide)
      rw [inner, hstrip, hexpand, hkeep, dropBrackets_brackets]
    have hold : inner value = mid := by rw [inner, hmid, dropBrackets_brackets]
    exact ⟨[], [], by simp [hnew, hold], edges_nil, edges_nil⟩
  · -- there are no brackets, and those that come in are at the ends
    have hnew : inner (expandVarsInString value vars) =
        inner (expandVarsInString (strip value) vars) := by
      rw [inner, hstrip]
      rfl
    have hold : inner value = strip value := hsame
    rw [hold, hnew]
    exact exists_inner _

/-- The value of a group is expanded between its brackets. -/
theorem expand_value (htidy : Tidy S vars) {value : Text} (h : TidyText S k (inner value)) :
    atoms (inner (expandVarsInString value vars)) =
        (atoms (inner value)).flatMap (subst (env vars)) ∧
      TidyText S k (inner (expandVarsInString value vars)) := by
  obtain ⟨b, a, hexpand, hb, ha⟩ := exists_inner_expand vars value
  have hexpands := expand_text htidy h
  constructor
  · rw [← hexpands.atoms, hexpand, atoms_edges hb ha]
  · have htext := hexpands.tidy
    rw [hexpand] at htext
    exact htext.of_edges hb ha

end Verdix.SuricataParser
