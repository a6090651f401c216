import Verdix.Infra.Equiv.AddressTexts
import Verdix.Lib.AssocList

/-!
# Resolving the references between address groups

A turn of the loop in `_resolve_variable_references` replaces the references of one group
(`expandGroup_spec`), so a pass over a tidy dictionary is a pass of `References`, and `env_resolve`
says what the whole loop does.  What is left is read by `_parse_address_value`: the networks of a text
are those of its atoms (`mem_parseAddressValue`, `atomOf_eq_leaf_iff`).
-/

namespace Verdix.SuricataParser

open Ipaddress References

variable {S : Text → Prop} {k : Text} {vars : Groups}

/-! ### The dictionary -/

/-- The assigned group has the new text if it was there, the others keep theirs. -/
theorem lookup_assign (vars : Groups) (name newValue k : Text) :
    (assign vars name newValue).lookup k =
      if k = name then (vars.lookup k).map fun _ => newValue else vars.lookup k := by
  have hassign : assign vars name newValue =
      vars.map fun group => (group.1, if group.1 = name then newValue else group.2) := by
    apply List.map_congr_left
    intro group _
    split_ifs with hgroup
    · rw [hgroup]
    · rfl
  rw [hassign, AssocList.lookup_map fun group text => if group = name then newValue else text]
  split_ifs with hk
  · rfl
  · exact Option.map_id'

theorem names_assign (vars : Groups) (name newValue : Text) :
    (assign vars name newValue).map Prod.fst = vars.map Prod.fst := by
  rw [assign, List.map_map]
  apply List.map_congr_left
  intro group _
  show (if group.1 = name then (name, newValue) else group).1 = group.1
  split
  · exact Eq.symm ‹_›
  · rfl

/-- The turn of a group that is there: its text is the rewritten one, whether that is new or not. -/
theorem expandGroup_of_some {state : Groups × Bool} {name value : Text}
    (h : state.1.lookup name = some value) :
    (expandVarsInString value state.1 = value ∧ expandGroup state name = state) ∨
      expandGroup state name = (assign state.1 name (expandVarsInString value state.1), true) := by
  rw [expandGroup, h]
  dsimp only
  split
  · exact .inl ⟨‹_›, rfl⟩
  · exact .inr rfl

theorem expandGroup_of_none {state : Groups × Bool} {name : Text}
    (h : state.1.lookup name = none) : expandGroup state name = state := by
  rw [expandGroup, h]

/-- The turn of one group: its references are replaced, and the dictionary stays tidy. -/
theorem expandGroup_spec {state : Groups × Bool} (htidy : Tidy S state.1) (name : Text) :
    env (expandGroup state name).1 = expandAt (env state.1) name ∧
      Tidy S (expandGroup state name).1 := by
  cases hlookup : state.1.lookup name with
  | none =>
    rw [expandGroup_of_none hlookup]
    refine ⟨?_, htidy⟩
    ext1 k
    by_cases hk : k = name
    · rw [hk, expandAt_self, env_eq_none hlookup, Option.map_none]
    · rw [expandAt_of_ne hk]
  | some value =>
    obtain ⟨hatoms, htext⟩ := expand_value htidy (htidy name value hlookup)
    -- nothing is assigned if the text is the same
    rcases expandGroup_of_some hlookup with ⟨hsame, hstate⟩ | hstate
    · rw [hstate]
      refine ⟨?_, htidy⟩
      ext1 k
      by_cases hk : k = name
      · rw [hsame] at hatoms
        rw [hk, expandAt_self, env_eq_some hlookup, Option.map_some, ← hatoms]
      · rw [expandAt_of_ne hk]
    · rw [hstate]
      constructor
      · ext1 k
        by_cases hk : k = name
        · rw [hk, expandAt_self, env_eq_some hlookup, Option.map_some, ← hatoms]
          apply env_eq_some
          rw [lookup_assign, if_pos rfl, hlookup, Option.map_some]
        · rw [expandAt_of_ne hk, env, env, lookup_assign, if_neg hk]
      · intro k v hv
        rw [lookup_assign] at hv
        split at hv
        · rename_i hk
          rw [hk, hlookup, Option.map_some] at hv
          rw [hk, ← Option.some.inj hv]
          exact htext
        · exact htidy k v hv

theorem names_expandGroup (state : Groups × Bool) (name : Text) :
    (expandGroup state name).1.map Prod.fst = state.1.map Prod.fst := by
  cases hlookup : state.1.lookup name with
  | none => rw [expandGroup_of_none hlookup]
  | some value =>
    rcases expandGroup_of_some hlookup with ⟨-, hstate⟩ | hstate
    · rw [hstate]
    · rw [hstate, names_assign]

/-- If nothing was marked as changed, nothing was changed. -/
theorem expandGroup_of_unchanged {state : Groups × Bool} {name : Text}
    (h : (expandGroup state name).2 = false) : expandGroup state name = state := by
  cases hlookup : state.1.lookup name with
  | none => exact expandGroup_of_none hlookup
  | some value =>
    rcases expandGroup_of_some hlookup with ⟨-, hstate⟩ | hstate
    · exact hstate
    · rw [hstate] at h
      cases h

/-! ### Passes -/

theorem resolveLoop_succ (n : ℕ) (resolved : Groups) :
    resolveLoop (n + 1) resolved =
      if (expandPass resolved).2 then resolveLoop n (expandPass resolved).1
      else (expandPass resolved).1 := rfl

/-- What every turn keeps, the whole resolution keeps. -/
theorem resolve_invariant {P : Groups → Prop}
    (hstep : ∀ state name, P state.1 → P (expandGroup state name).1) {raw : Groups} (h : P raw) :
    P (resolveVariableReferences raw) := by
  have hfold : ∀ (names : List Text) (state : Groups × Bool), P state.1 →
      P (names.foldl expandGroup state).1 := by
    intro names
    induction names with
    | nil => exact fun _ => id
    | cons name names ih => exact fun state hstate => ih _ (hstep state name hstate)
  have hloop : ∀ (n : ℕ) (resolved : Groups), P resolved → P (resolveLoop n resolved) := by
    intro n
    induction n with
    | zero => exact fun _ => id
    | succ n ih =>
      intro resolved hresolved
      have hpass : P (expandPass resolved).1 := hfold _ (resolved, false) hresolved
      rw [resolveLoop_succ]
      split
      · exact ih _ hpass
      · exact hpass
  exact hloop _ raw h

theorem tidy_resolve {raw : Groups} (h : Tidy S raw) : Tidy S (resolveVariableReferences raw) :=
  resolve_invariant (fun _ name htidy => (expandGroup_spec htidy name).2) h

theorem names_resolve (raw : Groups) :
    (resolveVariableReferences raw).map Prod.fst = raw.map Prod.fst :=
  resolve_invariant (P := fun vars => vars.map Prod.fst = raw.map Prod.fst)
    (fun state name h => (names_expandGroup state name).trans h) rfl

theorem foldl_expandGroup {state : Groups × Bool} (htidy : Tidy S state.1) (names : List Text) :
    env (names.foldl expandGroup state).1 = pass names (env state.1) ∧
      Tidy S (names.foldl expandGroup state).1 ∧
      (names.foldl expandGroup state).1.map Prod.fst = state.1.map Prod.fst := by
  induction names using List.reverseRecOn with
  | nil => exact ⟨rfl, htidy, rfl⟩
  | append_singleton names name ih =>
    obtain ⟨henv, htidy', hnames⟩ := ih
    obtain ⟨henv', htidy''⟩ := expandGroup_spec htidy' name
    rw [List.foldl_append, List.foldl_cons, List.foldl_nil, pass_concat]
    exact ⟨by rw [henv', henv], htidy'', by rw [names_expandGroup, hnames]⟩

theorem foldl_expandGroup_of_unchanged {state : Groups × Bool} {names : List Text}
    (h : (names.foldl expandGroup state).2 = false) : names.foldl expandGroup state = state := by
  induction names using List.reverseRecOn with
  | nil => rfl
  | append_singleton names name ih =>
    rw [List.foldl_append, List.foldl_cons, List.foldl_nil] at h ⊢
    have hlast := expandGroup_of_unchanged h
    rw [hlast] at h ⊢
    exact ih h

/-- The loop is as good as all its passes: one that changes nothing leaves nothing for the others. -/
theorem env_resolveLoop {resolved : Groups} (htidy : Tidy S resolved) (n : ℕ) :
    env (resolveLoop n resolved) = passes (resolved.map Prod.fst) n (env resolved) := by
  induction n generalizing resolved with
  | zero => rfl
  | succ n ih =>
    have hstart : Tidy S (resolved, false).1 := htidy
    have hpass := foldl_expandGroup hstart (resolved.map Prod.fst)
    obtain ⟨henv, htidy', hnames⟩ := hpass
    have hpasses : passes (resolved.map Prod.fst) (n + 1) (env resolved) =
        passes (resolved.map Prod.fst) n (pass (resolved.map Prod.fst) (env resolved)) :=
      Function.iterate_succ_apply _ _ _
    rw [resolveLoop_succ, hpasses]
    split
    · have hrest := ih htidy'
      rw [hnames, henv] at hrest
      exact hrest
    · rename_i hunchanged
      have hsame : expandPass resolved = (resolved, false) :=
        foldl_expandGroup_of_unchanged (Bool.not_eq_true _ ▸ hunchanged)
      have hfixed : pass (resolved.map Prod.fst) (env resolved) = env resolved := by
        rw [← henv]
        exact congrArg (fun state => env state.1) hsame
      rw [hsame, hfixed, passes, Function.iterate_fixed hfixed]

/-- What the resolved texts hold, in terms of those of the dictionary. -/
theorem env_resolve {raw : Groups} (htidy : Tidy S raw) :
    env (resolveVariableReferences raw) =
      passes (raw.map Prod.fst) maxVarExpansionPasses (env raw) :=
  env_resolveLoop htidy maxVarExpansionPasses

/-! ### Characters that are nowhere -/

/-- A character that rewriting does not put in by itself. -/
def Foreign (c : Char) : Prop := isNameChar c = false ∧ c ∉ ['!', '$', ',', ' ']

instance (c : Char) : Decidable (Foreign c) := inferInstanceAs (Decidable (_ ∧ _))

/-- A character that is in no group. -/
def Free (c : Char) (vars : Groups) : Prop :=
  ∀ name value, vars.lookup name = some value → c ∉ inner value

theorem mem_intercalate {sep : Text} {ls : List Text} {c : Char} (h : c ∈ sep.intercalate ls) :
    c ∈ sep ∨ ∃ l ∈ ls, c ∈ l := by
  induction ls with
  | nil => cases h
  | cons l ls ih =>
    cases ls with
    | nil =>
      rw [List.intercalate_singleton] at h
      exact .inr ⟨l, List.mem_cons_self, h⟩
    | cons m ls =>
      rw [List.intercalate_cons_cons, List.mem_append, List.mem_append] at h
      rcases h with (h | h) | h
      · exact .inr ⟨l, List.mem_cons_self, h⟩
      · exact .inl h
      · exact (ih h).imp_right fun ⟨k, hk, hc⟩ => ⟨k, List.mem_cons_of_mem _ hk, hc⟩

theorem mem_of_mem_entries {s e : Text} (h : e ∈ entries s) : ∀ c ∈ e, c ∈ s := by
  obtain ⟨-, piece, hpiece, rfl⟩ := mem_entries.mp h
  exact fun c hc => (Split.mem_splitOn hpiece).2 c (Split.mem_of_mem_trim hc)

theorem varPattern_new {vars : Groups} {s new : Text} {more : ℕ}
    (h : varPattern vars s = some (new, more)) :
    ∃ negate name, IsName name ∧ new = replacer vars negate name := by
  have hmatch : ∀ {negate : Bool} {t : Text}, varMatch vars negate t = some (new, more) →
      ∃ negate name, IsName name ∧ new = replacer vars negate name := by
    intro negate t ht
    unfold varMatch at ht
    dsimp only at ht
    split at ht
    · cases ht
    · obtain ⟨rfl, -⟩ := Prod.mk.inj (Option.some.inj ht)
      exact ⟨negate, _, ⟨‹_›, fun c hc => List.mem_takeWhile_imp hc⟩, rfl⟩
  cases s with
  | nil => cases h
  | cons c s =>
    by_cases href : c = '$'
    · rw [href, varPattern_ref] at h
      exact hmatch h
    · by_cases hneg : c = '!' ∧ s.head? = some '$'
      · obtain ⟨rfl, hhead⟩ := hneg
        obtain ⟨s, rfl⟩ := List.head?_eq_some_iff.mp hhead
        rw [varPattern_neg] at h
        exact hmatch h
      · rw [varPattern_eq_none href fun hd hhead => hneg ⟨hd, hhead⟩] at h
        cases h

theorem Free.not_mem_expand {c : Char} {vars : Groups} (h : Free c vars) (hc : Foreign c)
    {s : Text} (hs : c ∉ s) : c ∉ expandVarsInString s vars := by
  intro hmem
  rcases ReSub.mem_sub hmem with hmem | ⟨t, new, more, hpat, hmem⟩
  · exact hs hmem
  · obtain ⟨negate, name, hname, rfl⟩ := varPattern_new hpat
    obtain ⟨hnameChar, hmarks⟩ := hc
    simp only [List.mem_cons, List.not_mem_nil, or_false, not_or] at hmarks
    obtain ⟨hbang, hdollar, hcomma, hspace⟩ := hmarks
    cases hlookup : vars.lookup name with
    | none =>
      rw [replacer_of_none hlookup] at hmem
      cases negate <;> simp [hbang, hdollar, hname.not_mem hnameChar] at hmem
    | some value =>
      have hinner := h name value hlookup
      rw [replacer_of_some hlookup] at hmem
      split at hmem
      · rcases mem_intercalate hmem with hmem | ⟨l, hl, hmem⟩
        · simp [hcomma, hspace] at hmem
        · obtain ⟨e, he, rfl⟩ := List.mem_map.mp hl
          rcases List.mem_cons.mp hmem with hmem | hmem
          · exact hbang hmem
          · exact hinner (mem_of_mem_entries he c hmem)
      · exact hinner hmem

theorem free_resolve {c : Char} (hc : Foreign c) {raw : Groups} (h : Free c raw) :
    Free c (resolveVariableReferences raw) := by
  apply resolve_invariant _ h
  intro state name hfree
  cases hlookup : state.1.lookup name with
  | none =>
    rw [expandGroup_of_none hlookup]
    exact hfree
  | some value =>
    rcases expandGroup_of_some hlookup with ⟨-, hstate⟩ | hstate
    · rw [hstate]
      exact hfree
    · rw [hstate]
      intro k v hv
      rw [lookup_assign] at hv
      split at hv
      · rename_i hk
        rw [hk, hlookup, Option.map_some] at hv
        rw [← Option.some.inj hv]
        obtain ⟨b, a, hexpand, -, -⟩ := exists_inner_expand state.1 value
        have hno := hfree.not_mem_expand hc (hfree name value hlookup)
        rw [hexpand] at hno
        simp only [List.mem_append, not_or] at hno
        exact hno.1.2
      · exact hfree k v hv

/-! ### Reading the networks -/

theorem eq_or_eq_toUpper {c d : Char} (h : c.toLower = d) : c = d ∨ c = d.toUpper := by
  by_cases hc : 65 ≤ c.toNat ∧ c.toNat ≤ 90
  · right
    have hall : ∀ n < 91, 65 ≤ n → (Char.ofNat n).toLower.toUpper = Char.ofNat n := by decide
    have hupper := hall c.toNat (by omega) hc.1
    rw [Char.ofNat_toNat, h] at hupper
    exact hupper.symm
  · left
    have hlower : c.toLower = c := dif_neg (by simpa [UInt32.le_iff_toNat_le] using hc)
    rw [← h, hlower]

/-- The word `any` holds no network, however it is spelled. -/
theorem ipNetwork_of_any {w : Text} (h : w.map Char.toLower = ['a', 'n', 'y']) :
    ∀ e ∈ entries (dropBrackets w), (ipNetwork e).isNone := by
  obtain ⟨c1, w, rfl, h1, hw⟩ := List.map_eq_cons_iff.mp h
  obtain ⟨c2, w, rfl, h2, hw⟩ := List.map_eq_cons_iff.mp hw
  obtain ⟨c3, w, rfl, h3, hw⟩ := List.map_eq_cons_iff.mp hw
  obtain rfl := List.map_eq_nil_iff.mp hw
  rcases eq_or_eq_toUpper h1 with rfl | rfl <;> rcases eq_or_eq_toUpper h2 with rfl | rfl <;>
    rcases eq_or_eq_toUpper h3 with rfl | rfl <;> decide

theorem mem_parseAddressValue {value : Text} {net : Network} :
    net ∈ parseAddressValue value ↔
      ∃ e ∈ entries (inner value), e.head? ≠ some '!' ∧ e.head? ≠ some '$' ∧
        ipNetwork e = some net := by
  rw [parseAddressValue]
  split
  · -- the value is the word `any`, which gives no network and is none
    rename_i hany
    constructor
    · intro h
      cases h
    · rintro ⟨e, he, -, -, hnet⟩
      have hnone := ipNetwork_of_any hany e he
      rw [hnet] at hnone
      cases hnone
  · rw [List.mem_filterMap]
    apply exists_congr
    intro e
    apply and_congr_right
    intro _
    split
    · rename_i hmark
      constructor
      · intro h
        cases h
      · rintro ⟨hbang, hdollar, -⟩
        rcases hmark with hmark | hmark
        · exact absurd hmark hbang
        · exact absurd hmark hdollar
    · rename_i hmark
      rw [not_or] at hmark
      exact ⟨fun h => ⟨hmark.1, hmark.2, h⟩, fun h => h.2.2⟩

/-- A piece without brackets is read as a network where it is an atom. -/
theorem atomOf_eq_leaf_iff {piece e : Text} (h : Neat S k piece)
    (hbrackets : '[' ∉ piece ∧ ']' ∉ piece) :
    atomOf piece = some (.leaf e) ↔
      strip piece = e ∧ e ≠ [] ∧ e.head? ≠ some '!' ∧ e.head? ≠ some '$' := by
  have hedge : ∀ c ∈ piece, isEdge c = PyStr.isSpace c := by
    intro c hc
    have h1 : c ≠ '[' := fun h => hbrackets.1 (h ▸ hc)
    have h2 : c ≠ ']' := fun h => hbrackets.2 (h ▸ hc)
    simp [isEdge, h1, h2]
  have hcore : core piece = strip piece := Split.trim_congr hedge
  obtain ⟨b, a, hpiece, hb, ha⟩ := exists_strip piece
  constructor
  · intro hatom
    unfold atomOf at hatom
    split at hatom
    · cases hatom
    · rename_i hbang
      rw [hcore] at hatom
      have hhead : (strip piece).head? ≠ some '!' := fun h =>
        hbang (Split.mem_of_mem_trim (List.mem_of_head? h))
      split at hatom
      · cases hatom
      · cases hatom
      · rename_i hnil hdollar
        obtain rfl := Item.leaf.inj (Option.some.inj hatom)
        refine ⟨rfl, hnil, hhead, fun h => ?_⟩
        obtain ⟨t, ht⟩ := List.head?_eq_some_iff.mp h
        exact hdollar t ht
  · rintro ⟨rfl, hne, hbang, hdollar⟩
    have hopen : '!' ∉ piece := by
      rcases h with ⟨hfind, -⟩ | ⟨hno, -⟩
      · -- the `!` would be the first character that is no white space
        exfalso
        apply hbang
        have hskip : ∀ c ∈ b, (!isEdge c) = false := fun c hc => by simp [hb.edges c hc]
        obtain ⟨c, t, hstrip⟩ := List.exists_cons_of_ne_nil hne
        have hc : isEdge c = false := by
          rw [hedge c (Split.mem_of_mem_trim (by rw [strip] at hstrip; rw [hstrip]; simp))]
          exact Split.head_trim hstrip
        rw [hpiece, List.append_assoc, find?_edges hskip, hstrip, List.cons_append,
          List.find?_cons_of_pos (by simp [hc])] at hfind
        rw [hstrip, List.head?_cons, Option.some.inj hfind]
      · exact hno
    rw [atomOf, if_neg hopen, hcore]
    split
    · exact absurd ‹_› hne
    · rename_i hstrip
      rw [hstrip] at hdollar
      exact absurd rfl hdollar
    · rfl

end Verdix.SuricataParser
