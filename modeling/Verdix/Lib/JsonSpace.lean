import Mathlib.Data.List.TakeDrop
import Mathlib.Data.List.TakeWhile
import Verdix.Lib.JsonLoads

/-!
# White space around a JSON text

`loads_blank_append`: white space before and after a JSON text does not change its value.  The
scanner looks ahead by at most a few characters, none of which it would take from white space, so
each of its functions goes on in the same way when white space is appended to its input, and more
fuel changes nothing (`scanOnce_append`).
-/

namespace Json

/-- Only white space. -/
def Blank (w : List Char) : Prop := ∀ c ∈ w, isSpace c

variable {w : List Char}

theorem Blank.of_cons {c : Char} (h : Blank (c :: w)) : isSpace c ∧ Blank w :=
  List.forall_mem_cons.mp h

theorem Blank.append {w' : List Char} (h : Blank w) (h' : Blank w') : Blank (w ++ w') :=
  fun c hc => (List.mem_append.mp hc).elim (h c) (h' c)

theorem skipSpace_blank (h : Blank w) : skipSpace w = [] := List.dropWhile_eq_nil_iff.mpr h

theorem skipSpace_blank_append (h : Blank w) (cs : List Char) :
    skipSpace (w ++ cs) = skipSpace cs :=
  List.dropWhile_append_of_pos h

/-- Blanks behind what is left stay behind it. -/
theorem skipSpace_append {cs r : List Char} {c : Char} (h : skipSpace cs = c :: r) :
    skipSpace (cs ++ w) = c :: r ++ w := by
  rw [skipSpace, List.dropWhile_append]
  rw [skipSpace] at h
  simp [h]

/-! ### Strings -/

/-- Four digits are read before the blanks. -/
theorem scanHex4_append {cs r : List Char} {n : ℕ} (h : scanHex4 cs = some (n, r)) :
    scanHex4 (cs ++ w) = some (n, r ++ w) := by
  match cs with
  | a :: b :: c :: d :: rest =>
    simp only [List.cons_append, scanHex4] at h ⊢
    split at h
    · obtain ⟨rfl, rfl⟩ := Prod.mk.inj (Option.some.inj h)
      rfl
    · contradiction
  | [] | [_] | [_, _] | [_, _, _] => contradiction

/-- The second half of a surrogate pair does not begin in white space. -/
theorem scanUnicode_append (hw : Blank w) {cs r : List Char} {c : Char}
    (h : scanUnicode cs = some (c, r)) : scanUnicode (cs ++ w) = some (c, r ++ w) := by
  unfold scanUnicode at h ⊢
  split at h
  · contradiction
  · rename_i hi rest heq
    rw [scanHex4_append heq]
    dsimp only
    split at h
    · rename_i rest'
      simp only [List.cons_append]
      split_ifs at h ⊢
      · split at h
        · contradiction
        · rename_i lo rest'' hlo
          rw [scanHex4_append hlo]
          dsimp only
          split_ifs at h ⊢
          · obtain ⟨rfl, rfl⟩ := Prod.mk.inj (Option.some.inj h)
            rfl
          · obtain ⟨rfl, rfl⟩ := Prod.mk.inj (Option.some.inj h)
            rfl
      · obtain ⟨rfl, rfl⟩ := Prod.mk.inj (Option.some.inj h)
        rfl
    · rename_i hne
      obtain ⟨rfl, rfl⟩ := Prod.mk.inj (Option.some.inj h)
      split
      · rename_i rest' heq'
        exfalso
        match rest with
        | [] =>
          obtain rfl : w = _ := heq'
          exact absurd hw.of_cons.1 (by decide)
        | [a] =>
          obtain ⟨-, rfl⟩ := List.cons.inj heq'
          exact absurd hw.of_cons.1 (by decide)
        | a :: b :: rest =>
          obtain ⟨rfl, htl⟩ := List.cons.inj heq'
          exact hne rest (by rw [(List.cons.inj htl).1])
      · rfl

/-- No character of a string is read from the blanks. -/
theorem scanChar_append (hw : Blank w) {cs r : List Char} {c : Char}
    (h : scanChar cs = some (c, r)) : scanChar (cs ++ w) = some (c, r ++ w) := by
  unfold scanChar at h
  split at h
  · rename_i rest
    change scanEscape (rest ++ w) = _
    unfold scanEscape at h
    split at h
    case h_9 => exact scanUnicode_append hw h
    case h_10 => contradiction
    all_goals
      obtain ⟨rfl, rfl⟩ := Prod.mk.inj (Option.some.inj h)
      rfl
  · contradiction
  · rename_i d rest h1 h2
    split_ifs at h with hd
    obtain ⟨rfl, rfl⟩ := Prod.mk.inj (Option.some.inj h)
    rw [List.cons_append, scanChar.eq_3 _ _ h1 h2, if_neg hd]
  · contradiction

/-- A string ends at its quote, with whatever fuel suffices. -/
theorem scanChars_append (hw : Blank w) {fuel fuel' : ℕ} {cs r : List Char} {s : List Char}
    (h : scanChars fuel cs = some (s, r)) (hle : fuel ≤ fuel') :
    scanChars fuel' (cs ++ w) = some (s, r ++ w) := by
  induction fuel generalizing fuel' cs s with
  | zero =>
    unfold scanChars at h
    split at h
    · obtain ⟨rfl, rfl⟩ := Prod.mk.inj (Option.some.inj h)
      rw [List.cons_append, scanChars]
    · contradiction
    · contradiction
  | succ fuel ih =>
    obtain ⟨fuel', rfl⟩ : ∃ n, fuel' = n + 1 := ⟨fuel' - 1, by omega⟩
    unfold scanChars at h
    split at h
    · obtain ⟨rfl, rfl⟩ := Prod.mk.inj (Option.some.inj h)
      rw [List.cons_append, scanChars]
    · contradiction
    · rename_i n heq hne
      obtain rfl := Nat.succ.inj heq
      split at h
      · contradiction
      · rename_i c rest hc
        obtain ⟨⟨s', r'⟩, hs, heq'⟩ := Option.map_eq_some_iff.mp h
        obtain ⟨rfl, rfl⟩ := Prod.mk.inj heq'
        have hcw := scanChar_append hw hc
        rw [scanChars.eq_def]
        split
        · rename_i heq''
          rw [heq''] at hcw
          simp [scanChar] at hcw
        · contradiction
        · rename_i heq'' _
          obtain rfl := Nat.succ.inj heq''
          rw [hcw]
          dsimp only
          rw [ih hs (by omega)]
          rfl

theorem scanstring_append (hw : Blank w) {cs r : List Char} {s : String}
    (h : scanstring cs = some (s, r)) : scanstring (cs ++ w) = some (s, r ++ w) := by
  obtain ⟨⟨s', r'⟩, hs, heq⟩ := Option.map_eq_some_iff.mp h
  obtain ⟨rfl, rfl⟩ := Prod.mk.inj heq
  rw [scanstring, scanChars_append hw hs (by simp)]
  rfl

/-! ### Numbers and constants -/

theorem isSpace_of_blank_append {c : Char} {tl : List Char} (hw : Blank w) (h : w = c :: tl) :
    isSpace c := by
  subst h
  exact hw.of_cons.1

theorem span_isDigit_append (hw : Blank w) (cs : List Char) :
    (cs ++ w).span Char.isDigit = ((cs.span Char.isDigit).1, (cs.span Char.isDigit).2 ++ w) := by
  have htake : w.takeWhile Char.isDigit = [] ∧ w.dropWhile Char.isDigit = w := by
    cases w with
    | nil => exact ⟨rfl, rfl⟩
    | cons c w =>
      have hc : c.isDigit = false := by
        have := hw.of_cons.1
        simp only [isSpace, decide_eq_true_eq] at this
        rcases this with rfl | rfl | rfl | rfl <;> rfl
      rw [List.takeWhile_cons_of_neg (by simp [hc]), List.dropWhile_cons_of_neg (by simp [hc])]
      exact ⟨rfl, rfl⟩
  simp only [List.span_eq_takeWhile_dropWhile]
  induction cs with
  | nil => simp [htake]
  | cons c cs ih =>
    rw [Prod.mk.injEq] at ih
    by_cases hc : c.isDigit
    · simp [hc, ih]
    · simp [hc]

theorem scanIntPart_append (hw : Blank w) {cs ds r : List Char} (h : scanIntPart cs = some (ds, r)) :
    scanIntPart (cs ++ w) = some (ds, r ++ w) := by
  unfold scanIntPart at h
  split at h
  · obtain ⟨rfl, rfl⟩ := Prod.mk.inj (Option.some.inj h)
    rfl
  · rename_i hne
    split at h
    · contradiction
    · rename_i hsp
      have hspan := span_isDigit_append hw cs
      rw [Option.some.inj h] at hspan
      unfold scanIntPart
      split
      · rename_i rest heq
        exfalso
        cases cs with
        | nil =>
          have := isSpace_of_blank_append hw heq
          contradiction
        | cons c cs => exact hne cs (by rw [(List.cons.inj heq).1])
      · rw [hspan]
        split
        · rename_i heq
          obtain ⟨rfl, -⟩ := Prod.mk.inj heq
          exact absurd (Option.some.inj h) (hsp r)
        · rfl

theorem scanFraction_append (hw : Blank w) (cs : List Char) :
    scanFraction (cs ++ w) = ((scanFraction cs).1, (scanFraction cs).2 ++ w) := by
  match cs with
  | [] =>
    unfold scanFraction
    split
    · rename_i rest heq
      have := isSpace_of_blank_append hw heq
      contradiction
    · rfl
  | c :: cs =>
    by_cases hc : c = '.'
    · subst hc
      have hspan := span_isDigit_append hw cs
      simp only [List.cons_append, scanFraction, hspan]
      generalize cs.span Char.isDigit = p
      obtain ⟨_ | ⟨d, ds⟩, r⟩ := p <;> rfl
    · rw [List.cons_append, scanFraction.eq_2 _ (by simpa using fun h => absurd h hc),
        scanFraction.eq_2 _ (by simpa using fun h => absurd h hc)]
      rfl

theorem scanExponentDigits_append (hw : Blank w) (sign cs : List Char) :
    scanExponentDigits sign (cs ++ w) =
      (scanExponentDigits sign cs).map fun p => (p.1, p.2 ++ w) := by
  unfold scanExponentDigits
  rw [span_isDigit_append hw]
  generalize cs.span Char.isDigit = p
  obtain ⟨_ | ⟨d, ds⟩, r⟩ := p <;> rfl

theorem scanExponent_append (hw : Blank w) (cs : List Char) :
    scanExponent (cs ++ w) = ((scanExponent cs).1, (scanExponent cs).2 ++ w) := by
  have hgetD : ∀ (o : Option (List Char × List Char)) (cs : List Char),
      (o.map fun p => (p.1, p.2 ++ w)).getD ([], cs ++ w) =
        ((o.getD ([], cs)).1, (o.getD ([], cs)).2 ++ w) := by
    intro o cs
    cases o <;> rfl
  cases cs with
  | nil =>
    unfold scanExponent
    split
    · rename_i e rest heq
      have := isSpace_of_blank_append hw heq
      split_ifs with he
      · rcases he with rfl | rfl <;> contradiction
      · rfl
    · rfl
  | cons e cs =>
    simp only [List.cons_append, scanExponent]
    split_ifs
    · match cs with
      | [] =>
        rw [List.nil_append]
        split
        · exact absurd hw.of_cons.1 (by decide)
        · exact absurd hw.of_cons.1 (by decide)
        · have hdig := scanExponentDigits_append hw [e] []
          rw [List.nil_append] at hdig
          rw [hdig]
          exact hgetD _ [e]
      | c :: cs =>
        rw [List.cons_append]
        split
        · rename_i r heq
          obtain ⟨rfl, rfl⟩ := List.cons.inj heq
          rw [scanExponentDigits_append hw]
          exact hgetD _ (e :: '+' :: cs)
        · rename_i r heq
          obtain ⟨rfl, rfl⟩ := List.cons.inj heq
          rw [scanExponentDigits_append hw]
          exact hgetD _ (e :: '-' :: cs)
        · rename_i h1 h2
          have hdig := scanExponentDigits_append hw [e] (c :: cs)
          split
          · rename_i heq
            exact absurd (by rw [(List.cons.inj heq).1]) (h1 (cs ++ w))
          · rename_i heq
            exact absurd (by rw [(List.cons.inj heq).1]) (h2 (cs ++ w))
          · rw [List.cons_append] at hdig
            rw [hdig]
            exact hgetD _ (e :: c :: cs)
    · rfl

theorem scanUnsigned_append (hw : Blank w) {neg : Bool} {cs r : List Char} {v : Json}
    (h : scanUnsigned neg cs = .ok (v, r)) : scanUnsigned neg (cs ++ w) = .ok (v, r ++ w) := by
  unfold scanUnsigned at h ⊢
  split at h
  · contradiction
  · rename_i ds rest hds
    rw [scanIntPart_append hw hds]
    simp only [scanFraction_append hw, scanExponent_append hw] at h ⊢
    split_ifs at h ⊢
    all_goals
      obtain ⟨rfl, rfl⟩ := Prod.mk.inj (Except.ok.inj h)
      rfl

theorem isPrefixOf_append (hw : Blank w) {p : List Char} (hp : ∀ c ∈ p, ¬ isSpace c)
    (cs : List Char) : p.isPrefixOf (cs ++ w) = p.isPrefixOf cs := by
  induction p generalizing cs with
  | nil => rw [List.isPrefixOf_nil_left, List.isPrefixOf_nil_left]
  | cons c p ih =>
    rw [List.forall_mem_cons] at hp
    match cs with
    | [] =>
      match w with
      | [] => rfl
      | d :: w =>
        have hne : c ≠ d := fun h => hp.1 (h ▸ hw.of_cons.1)
        simp [List.isPrefixOf, hne]
    | d :: cs => simp only [List.cons_append, List.isPrefixOf, ih hp.2]

theorem stripPrefix?_append (hw : Blank w) {p : String} (hp : ∀ c ∈ p.toList, ¬ isSpace c)
    (cs : List Char) : stripPrefix? p (cs ++ w) = (stripPrefix? p cs).map (· ++ w) := by
  unfold stripPrefix?
  rw [isPrefixOf_append hw hp]
  split_ifs with h
  · have hlen := (List.isPrefixOf_iff_prefix.mp h).length_le
    rw [List.drop_append_of_le_length hlen]
    rfl
  · rfl

/-- Strings, words and numbers end before the blanks. -/
theorem scanScalar_append (hw : Blank w) {cs r : List Char} {v : Json}
    (h : scanScalar cs = .ok (v, r)) : scanScalar (cs ++ w) = .ok (v, r ++ w) := by
  have hfind : (constants.findSome? fun c => (stripPrefix? c.1 (cs ++ w)).map fun rest => (c.2, rest)) =
      (constants.findSome? fun c => (stripPrefix? c.1 cs).map fun rest => (c.2, rest)).map
        fun p => (p.1, p.2 ++ w) := by
    have hconst : ∀ c ∈ constants, ∀ x ∈ c.1.toList, ¬ isSpace x := by simp [constants, isSpace]
    rw [List.map_findSome?]
    generalize constants = l at hconst
    induction l with
    | nil => rfl
    | cons c l ih =>
      rw [List.forall_mem_cons] at hconst
      rw [List.findSome?_cons, List.findSome?_cons, ih hconst.2, stripPrefix?_append hw hconst.1,
        Function.comp_apply]
      cases stripPrefix? c.1 cs with
      | none => rfl
      | some r => rfl
  unfold scanScalar at h ⊢
  rw [hfind]
  split at h
  · rename_i p heq
    obtain rfl := Except.ok.inj h
    rw [heq]
    rfl
  · rename_i heq
    rw [heq]
    dsimp only [Option.map_none]
    split at h
    · rw [List.cons_append]
      exact scanUnsigned_append hw h
    · rename_i hne
      have h' := scanUnsigned_append hw h
      split
      · rename_i rest heq'
        exfalso
        cases cs with
        | nil => exact absurd (isSpace_of_blank_append hw heq') (by decide)
        | cons c cs => exact hne cs (by rw [(List.cons.inj heq').1])
      · exact h'

/-! ### Values -/

theorem scanOnce_scalar {c : Char} (hq : c ≠ '"') (hb : c ≠ '{') (ha : c ≠ '[') (fuel depth : ℕ)
    (cs : List Char) : scanOnce (fuel + 1) depth (c :: cs) = scanScalar (c :: cs) := by
  unfold scanOnce
  split
  · contradiction
  · rename_i heq
    exact absurd (List.cons.inj heq).1 hq
  · rename_i heq
    exact absurd (List.cons.inj heq).1 hb
  · rename_i heq
    exact absurd (List.cons.inj heq).1 ha
  · rfl

theorem scanOnce_nil (fuel depth : ℕ) : scanOnce fuel depth [] = .error .jsonDecodeError := by
  cases fuel with
  | zero => rw [scanOnce]
  | succ fuel =>
    rw [scanOnce]
    · rfl
    all_goals simp

theorem scanMembers_nil (fuel depth : ℕ) (members : List (String × Json)) :
    scanMembers fuel depth members [] = .error .jsonDecodeError := by
  cases fuel with
  | zero => rw [scanMembers]
  | succ fuel => rw [scanMembers]; simp

theorem scanItems_nil (fuel depth : ℕ) (items : List Json) :
    scanItems fuel depth items [] = .error .jsonDecodeError := by
  cases fuel with
  | zero => rw [scanItems]
  | succ fuel => rw [scanItems, scanOnce_nil]

/-- With this fuel the scanner goes on in the same way when white space is appended and fuel is
added. -/
structure ScanAppend (w : List Char) (fuel : ℕ) : Prop where
  once : ∀ {fuel' depth cs r v}, scanOnce fuel depth cs = .ok (v, r) → fuel ≤ fuel' →
    scanOnce fuel' depth (cs ++ w) = .ok (v, r ++ w)
  items : ∀ {fuel' depth items cs r v}, scanItems fuel depth items cs = .ok (v, r) → fuel ≤ fuel' →
    scanItems fuel' depth items (cs ++ w) = .ok (v, r ++ w)
  members : ∀ {fuel' depth members cs r v}, scanMembers fuel depth members cs = .ok (v, r) →
    fuel ≤ fuel' → scanMembers fuel' depth members (cs ++ w) = .ok (v, r ++ w)

variable {fuel fuel' depth : ℕ} {cs r : List Char} {v : Json}

/-- One step for an object, from its members. -/
theorem ScanAppend.object (ih : ScanAppend w fuel) (hle : fuel ≤ fuel')
    (h : scanOnce (fuel + 1) depth ('{' :: cs) = .ok (v, r)) :
    scanOnce (fuel' + 1) depth ('{' :: (cs ++ w)) = .ok (v, r ++ w) := by
  match depth with
  | 0 =>
    rw [scanOnce] at h
    contradiction
  | depth + 1 =>
    rw [scanOnce] at h ⊢
    cases hs : skipSpace cs with
    | nil =>
      rw [hs] at h
      dsimp only at h
      rw [scanMembers_nil] at h
      contradiction
    | cons d rest =>
      rw [hs] at h
      rw [skipSpace_append hs, List.cons_append]
      split at h
      · rename_i heq
        obtain ⟨rfl, rfl⟩ := List.cons.inj heq
        obtain ⟨rfl, rfl⟩ := Prod.mk.inj (Except.ok.inj h)
        rfl
      · rename_i hne
        split
        · rename_i heq
          exact absurd (by rw [(List.cons.inj heq).1]) (hne rest)
        · exact ih.members h hle

/-- One step for an array, from its items. -/
theorem ScanAppend.array (ih : ScanAppend w fuel) (hle : fuel ≤ fuel')
    (h : scanOnce (fuel + 1) depth ('[' :: cs) = .ok (v, r)) :
    scanOnce (fuel' + 1) depth ('[' :: (cs ++ w)) = .ok (v, r ++ w) := by
  match depth with
  | 0 =>
    rw [scanOnce] at h
    contradiction
  | depth + 1 =>
    rw [scanOnce] at h ⊢
    cases hs : skipSpace cs with
    | nil =>
      rw [hs] at h
      dsimp only at h
      rw [scanItems_nil] at h
      contradiction
    | cons d rest =>
      rw [hs] at h
      rw [skipSpace_append hs, List.cons_append]
      split at h
      · rename_i heq
        obtain ⟨rfl, rfl⟩ := List.cons.inj heq
        obtain ⟨rfl, rfl⟩ := Prod.mk.inj (Except.ok.inj h)
        rfl
      · rename_i hne
        split
        · rename_i heq
          exact absurd (by rw [(List.cons.inj heq).1]) (hne rest)
        · exact ih.items h hle

/-- One step for any value. -/
theorem ScanAppend.once_succ (hw : Blank w) (ih : ScanAppend w fuel) (hle : fuel ≤ fuel')
    (h : scanOnce (fuel + 1) depth cs = .ok (v, r)) :
    scanOnce (fuel' + 1) depth (cs ++ w) = .ok (v, r ++ w) := by
  match cs with
  | [] =>
    rw [scanOnce_nil] at h
    contradiction
  | c :: cs =>
    by_cases hq : c = '"'
    · subst hq
      simp only [List.cons_append, scanOnce] at h ⊢
      split at h
      · rename_i s rest hs
        obtain ⟨rfl, rfl⟩ := Prod.mk.inj (Except.ok.inj h)
        rw [scanstring_append hw hs]
      · contradiction
    by_cases hb : c = '{'
    · subst hb
      exact ih.object hle h
    by_cases ha : c = '['
    · subst ha
      exact ih.array hle h
    · rw [scanOnce_scalar hq hb ha] at h
      rw [List.cons_append, scanOnce_scalar hq hb ha]
      exact scanScalar_append hw h

/-- One step for the rest of an array. -/
theorem ScanAppend.items_succ (ih : ScanAppend w fuel) (hle : fuel ≤ fuel') {items : List Json}
    (h : scanItems (fuel + 1) depth items cs = .ok (v, r)) :
    scanItems (fuel' + 1) depth items (cs ++ w) = .ok (v, r ++ w) := by
  rw [scanItems] at h ⊢
  split at h
  · contradiction
  · rename_i u rest hu
    rw [ih.once hu hle]
    dsimp only
    cases hs : skipSpace rest with
    | nil =>
      rw [hs] at h
      contradiction
    | cons d rest' =>
      rw [hs] at h
      rw [skipSpace_append hs, List.cons_append]
      split at h
      · rename_i heq
        obtain ⟨rfl, rfl⟩ := List.cons.inj heq
        obtain ⟨rfl, rfl⟩ := Prod.mk.inj (Except.ok.inj h)
        rfl
      · rename_i heq
        obtain ⟨rfl, rfl⟩ := List.cons.inj heq
        cases hs' : skipSpace rest' with
        | nil =>
          rw [hs', scanItems_nil] at h
          contradiction
        | cons e rest'' =>
          rw [hs'] at h
          simp only [skipSpace_append hs']
          exact ih.items h hle
      · contradiction

/-- What follows the value of a member. -/
theorem ScanAppend.afterMember (ih : ScanAppend w fuel) (hle : fuel ≤ fuel')
    {members : List (String × Json)}
    (h : (match skipSpace cs with
      | '}' :: rest => .ok (obj members, rest)
      | ',' :: rest => scanMembers fuel depth members (skipSpace rest)
      | _ => .error .jsonDecodeError) = Except.ok (v, r)) :
    (match skipSpace (cs ++ w) with
      | '}' :: rest => .ok (obj members, rest)
      | ',' :: rest => scanMembers fuel' depth members (skipSpace rest)
      | _ => .error .jsonDecodeError) = Except.ok (v, r ++ w) := by
  cases hs : skipSpace cs with
  | nil =>
    rw [hs] at h
    contradiction
  | cons d rest =>
    rw [hs] at h
    rw [skipSpace_append hs, List.cons_append]
    split at h
    · rename_i heq
      obtain ⟨rfl, rfl⟩ := List.cons.inj heq
      obtain ⟨rfl, rfl⟩ := Prod.mk.inj (Except.ok.inj h)
      rfl
    · rename_i heq
      obtain ⟨rfl, rfl⟩ := List.cons.inj heq
      cases hs' : skipSpace rest with
      | nil =>
        rw [hs', scanMembers_nil] at h
        contradiction
      | cons e rest' =>
        rw [hs'] at h
        simp only [skipSpace_append hs']
        exact ih.members h hle
    · contradiction

/-- One step for the rest of an object. -/
theorem ScanAppend.members_succ (hw : Blank w) (ih : ScanAppend w fuel) (hle : fuel ≤ fuel')
    {members : List (String × Json)} (h : scanMembers (fuel + 1) depth members cs = .ok (v, r)) :
    scanMembers (fuel' + 1) depth members (cs ++ w) = .ok (v, r ++ w) := by
  unfold scanMembers at h
  split at h
  · contradiction
  · rename_i n ms rest heq
    obtain rfl := Nat.succ.inj heq
    rw [List.cons_append, scanMembers]
    split at h
    · contradiction
    · rename_i key rest₁ hkey
      rw [scanstring_append hw hkey]
      dsimp only
      cases hs₁ : skipSpace rest₁ with
      | nil =>
        rw [hs₁] at h
        contradiction
      | cons c₁ tl₁ =>
        rw [hs₁] at h
        rw [skipSpace_append hs₁, List.cons_append]
        split at h
        · rename_i heq₁
          obtain ⟨rfl, rfl⟩ := List.cons.inj heq₁
          cases hs₂ : skipSpace tl₁ with
          | nil =>
            rw [hs₂, scanOnce_nil] at h
            contradiction
          | cons c₂ tl₂ =>
            rw [hs₂] at h
            simp only [skipSpace_append hs₂]
            split at h
            · contradiction
            · rename_i u rest₂ hu
              simp only [ih.once hu hle]
              exact ih.afterMember hle h
        · contradiction
  · contradiction

/-- White space around a value leaves it as it is. -/
theorem scanAppend (hw : Blank w) (fuel : ℕ) : ScanAppend w fuel := by
  induction fuel with
  | zero =>
    refine ⟨fun h => ?_, fun h => ?_, fun h => ?_⟩
    · rw [scanOnce] at h
      contradiction
    · rw [scanItems] at h
      contradiction
    · rw [scanMembers] at h
      contradiction
  | succ fuel ih =>
    refine ⟨fun {fuel' _ _ _ _} h hle => ?_, fun {fuel' _ _ _ _ _} h hle => ?_,
      fun {fuel' _ _ _ _ _} h hle => ?_⟩
    all_goals obtain ⟨fuel', rfl⟩ : ∃ n, fuel' = n + 1 := ⟨fuel' - 1, by omega⟩
    · exact ih.once_succ hw (by omega) h
    · exact ih.items_succ (by omega) h
    · exact ih.members_succ hw (by omega) h

/-! ### `json.loads` -/

/-- White space alone is no JSON text. -/
theorem loads_blank (hw : Blank w) (maxDepth : ℕ) :
    loads maxDepth (String.ofList w) = .error .jsonDecodeError := by
  unfold loads
  rw [String.toList_ofList]
  split
  · rfl
  · rw [skipSpace_blank hw, scanOnce_nil]

/-- White space before and after a JSON text leaves its value as it is. -/
theorem loads_blank_append {w' : List Char} (hw : Blank w) (hw' : Blank w') {maxDepth : ℕ}
    {cs : List Char} {v : Json} (h : loads maxDepth (String.ofList cs) = .ok v) :
    loads maxDepth (String.ofList (w ++ cs ++ w')) = .ok v := by
  unfold loads at h ⊢
  rw [String.toList_ofList] at h ⊢
  split at h
  · contradiction
  · rename_i hbom
    split at h
    · contradiction
    · rename_i u rest hu
      split_ifs at h with hrest
      obtain rfl := Except.ok.inj h
      have hscan := (scanAppend hw' _).once hu
        (show 2 * cs.length + 2 ≤ 2 * (w ++ cs ++ w').length + 2 by simp; omega)
      -- a byte order mark after white space is no text either
      split
      · rename_i tl heq
        exfalso
        cases w with
        | nil =>
          cases cs with
          | nil => exact absurd (isSpace_of_blank_append hw' heq) (by decide)
          | cons c cs => exact hbom cs (by rw [(List.cons.inj heq).1])
        | cons c w =>
          rw [(List.cons.inj heq).1] at hw
          exact absurd hw.of_cons.1 (by decide)
      · rw [List.append_assoc, skipSpace_blank_append hw]
        have hblank : Blank (rest ++ w') := Blank.append (List.dropWhile_eq_nil_iff.mp hrest) hw'
        cases hs : skipSpace cs with
        | nil =>
          rw [hs, scanOnce_nil] at hu
          contradiction
        | cons c tl =>
          rw [skipSpace_append hs, ← hs]
          simp only [← List.append_assoc, hscan, skipSpace_blank hblank, if_true]

end Json
