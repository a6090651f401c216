import Mathlib.Data.List.TakeDrop
import Verdix.Lib.JsonNumber
import Verdix.Lib.JsonSpace

/-!
# What `json.dumps` writes is read back

`json.dumps` and `json.loads` have the same recursion limit.  `loads_of_dumpsWithin`: the text that
`json.dumps` writes for a JSON value is read back as the value.  In such a text a value is followed
by its end, a comma or a closing bracket (`Follow`), where no number goes on, so `scanOnce` takes
the text of the value and nothing of what follows (`IsJson.reads`).
-/

namespace Json

/-! ### Writing -/

mutual

/-- What `json.dumps(v)` raises: an integer can have too many digits, a value too many levels. -/
def dumpsError? : ℕ → Json → Option PyError
  | _, null => none
  | _, bool _ => none
  | _, int n => if Writable n then none else some .valueError
  | _, float _ => none
  | _, str _ => none
  | 0, arr _ => some .recursionError
  | depth + 1, arr items => dumpsItemsError? depth items
  | 0, obj _ => some .recursionError
  | depth + 1, obj members => dumpsMembersError? depth members

def dumpsItemsError? : ℕ → List Json → Option PyError
  | _, [] => none
  | depth, v :: vs =>
    match dumpsError? depth v with
    | some e => some e
    | none => dumpsItemsError? depth vs

def dumpsMembersError? : ℕ → List (String × Json) → Option PyError
  | _, [] => none
  | depth, (_, v) :: ms =>
    match dumpsError? depth v with
    | some e => some e
    | none => dumpsMembersError? depth ms

end

/-- `json.dumps(v)` with a recursion limit. -/
def dumpsWithin (maxDepth : ℕ) (v : Json) : Except PyError String :=
  match dumpsError? maxDepth v with
  | some e => .error e
  | none => .ok v.dumps

/-! ### The values -/

/-- The integer part of a number. -/
def IsIntPart (ds : List Char) : Prop :=
  ds = ['0'] ∨ ds ≠ [] ∧ (∀ c ∈ ds, c.isDigit) ∧ ds.head? ≠ some '0'

/-- A fraction, or none. -/
def IsFraction (frac : List Char) : Prop :=
  frac = [] ∨ ∃ ds, frac = '.' :: ds ∧ ds ≠ [] ∧ ∀ c ∈ ds, c.isDigit

/-- An exponent, or none. -/
def IsExponent (exp : List Char) : Prop :=
  exp = [] ∨ ∃ e sign ds, exp = e :: (sign ++ ds) ∧ (e = 'e' ∨ e = 'E') ∧
    (sign = [] ∨ sign = ['+'] ∨ sign = ['-']) ∧ ds ≠ [] ∧ ∀ c ∈ ds, c.isDigit

/-- The sign of a number. -/
def sign (neg : Bool) : List Char := if neg then ['-'] else []

/-- The text of a finite float. -/
inductive IsFloatText : List Char → Prop
  | mk (neg : Bool) {ds frac exp : List Char} (hds : IsIntPart ds) (hfrac : IsFraction frac)
      (hexp : IsExponent exp) (h : ¬(frac = [] ∧ exp = [])) :
      IsFloatText (sign neg ++ ds ++ frac ++ exp)

/-- A JSON value: its floats are finite, and no object has a key twice. -/
inductive IsJson : Json → Prop
  | null : IsJson null
  | bool (b : Bool) : IsJson (bool b)
  | int (n : ℤ) : IsJson (int n)
  | float {literal : String} (h : IsFloatText literal.toList) : IsJson (float literal)
  | str (s : String) : IsJson (str s)
  | arr {items : List Json} (h : ∀ v ∈ items, IsJson v) : IsJson (arr items)
  | obj {members : List (String × Json)} (hkeys : (members.map Prod.fst).Nodup)
      (h : ∀ m ∈ members, IsJson m.2) : IsJson (obj members)

/-- What can stand after a value: its end, a comma, a closing bracket or brace. -/
def Follow (rest : List Char) : Prop := ∀ c ∈ rest.head?, c = ',' ∨ c = ']' ∨ c = '}'

/-! ### Digits -/

variable {ds frac exp rest : List Char}

/-- No digit comes next. -/
def NoDigit (rest : List Char) : Prop := ∀ c ∈ rest.head?, c.isDigit = false

theorem span_digits (hds : ∀ c ∈ ds, c.isDigit) (hrest : NoDigit rest) :
    (ds ++ rest).span Char.isDigit = (ds, rest) := by
  have hstop : rest.takeWhile Char.isDigit = [] ∧ rest.dropWhile Char.isDigit = rest := by
    cases rest with
    | nil => exact ⟨rfl, rfl⟩
    | cons c rest =>
      have hc : c.isDigit = false := hrest c rfl
      rw [List.takeWhile_cons, List.dropWhile_cons, hc]
      exact ⟨rfl, rfl⟩
  rw [List.span_eq_takeWhile_dropWhile, List.takeWhile_append_of_pos hds,
    List.dropWhile_append_of_pos hds, hstop.1, hstop.2, List.append_nil]

/-- The integer part of a number is read up to the first character that is no digit. -/
theorem scanIntPart_eq (hds : IsIntPart ds) (hrest : NoDigit rest) :
    scanIntPart (ds ++ rest) = some (ds, rest) := by
  rcases hds with rfl | ⟨hnil, hdigits, hhead⟩
  · rfl
  · have hspan := span_digits hdigits hrest
    cases ds with
    | nil => exact absurd rfl hnil
    | cons d ds =>
      have hzero : d ≠ '0' := fun h => hhead (by rw [h]; rfl)
      unfold scanIntPart
      split
      · rename_i heq
        exact absurd (List.cons.inj heq).1 hzero
      · rw [hspan]

/-- So is its fraction. -/
theorem scanFraction_eq (hfrac : IsFraction frac) (hrest : NoDigit rest)
    (hdot : rest.head? ≠ some '.') : scanFraction (frac ++ rest) = (frac, rest) := by
  rcases hfrac with rfl | ⟨ds, rfl, hnil, hdigits⟩
  · unfold scanFraction
    split
    · rename_i heq
      rw [List.nil_append] at heq
      rw [heq] at hdot
      exact absurd rfl hdot
    · rfl
  · rw [List.cons_append, scanFraction, span_digits hdigits hrest]
    cases ds with
    | nil => exact absurd rfl hnil
    | cons d ds => rfl

theorem scanExponentDigits_eq (s : List Char) (hnil : ds ≠ []) (hdigits : ∀ c ∈ ds, c.isDigit)
    (hrest : NoDigit rest) : scanExponentDigits s (ds ++ rest) = some (s ++ ds, rest) := by
  rw [scanExponentDigits, span_digits hdigits hrest]
  cases ds with
  | nil => exact absurd rfl hnil
  | cons d ds => rfl

/-- And its exponent. -/
theorem scanExponent_eq (hexp : IsExponent exp) (hrest : NoDigit rest)
    (he : ∀ c ∈ rest.head?, ¬(c = 'e' ∨ c = 'E')) : scanExponent (exp ++ rest) = (exp, rest) := by
  unfold scanExponent
  rcases hexp with rfl | ⟨e, s, ds, rfl, hletter, hsign, hnil, hdigits⟩
  · cases rest with
    | nil => rfl
    | cons c rest =>
      rw [List.nil_append]
      exact if_neg (he c rfl)
  · rw [List.cons_append, List.append_assoc]
    dsimp only
    rw [if_pos hletter]
    rcases hsign with rfl | rfl | rfl
    · -- the digits do not start with a sign
      have hscan := scanExponentDigits_eq [e] hnil hdigits hrest
      cases ds with
      | nil => exact absurd rfl hnil
      | cons d ds =>
        have hd := hdigits d List.mem_cons_self
        rw [List.nil_append, List.cons_append]
        split
        · rename_i heq
          rw [(List.cons.inj heq).1] at hd
          exact absurd hd (by decide)
        · rename_i heq
          rw [(List.cons.inj heq).1] at hd
          exact absurd hd (by decide)
        · rw [← List.cons_append, hscan]
          rfl
    · have hscan := scanExponentDigits_eq [e, '+'] hnil hdigits hrest
      show ((scanExponentDigits [e, '+'] (ds ++ rest)).getD _) = _
      rw [hscan]
      rfl
    · have hscan := scanExponentDigits_eq [e, '-'] hnil hdigits hrest
      show ((scanExponentDigits [e, '-'] (ds ++ rest)).getD _) = _
      rw [hscan]
      rfl

/-! ### Numbers -/

theorem Follow.noDigit (h : Follow rest) : NoDigit rest := by
  intro c hc
  rcases h c hc with rfl | rfl | rfl
  · decide
  · decide
  · decide

theorem Follow.head_ne {c : Char} (h : Follow rest) (hc : ¬(c = ',' ∨ c = ']' ∨ c = '}')) :
    rest.head? ≠ some c := fun hhead => hc (h c hhead)

theorem noDigit_exponent (hexp : IsExponent exp) (h : Follow rest) : NoDigit (exp ++ rest) := by
  rcases hexp with rfl | ⟨e, s, ds, rfl, hletter, -⟩
  · exact h.noDigit
  · intro c hc
    obtain rfl : e = c := Option.some.inj hc
    rcases hletter with rfl | rfl
    · decide
    · decide

theorem head_exponent_ne (hexp : IsExponent exp) (h : Follow rest) :
    (exp ++ rest).head? ≠ some '.' := by
  rcases hexp with rfl | ⟨e, s, ds, rfl, hletter, -⟩
  · exact h.head_ne (by decide)
  · intro hc
    obtain rfl : e = '.' := Option.some.inj hc
    exact absurd hletter (by decide)

theorem noDigit_fraction (hfrac : IsFraction frac) (hexp : IsExponent exp) (h : Follow rest) :
    NoDigit (frac ++ (exp ++ rest)) := by
  rcases hfrac with rfl | ⟨ds, rfl, -⟩
  · rw [List.nil_append]
    exact noDigit_exponent hexp h
  · intro c hc
    obtain rfl : '.' = c := Option.some.inj hc
    decide

/-- A number is read to its end. -/
theorem scanUnsigned_eq (neg : Bool) (hds : IsIntPart ds) (hfrac : IsFraction frac)
    (hexp : IsExponent exp) (h : Follow rest) :
    scanUnsigned neg (ds ++ (frac ++ (exp ++ rest))) =
      if frac = [] ∧ exp = [] then
        if maxStrDigits < ds.length then .error .valueError
        else .ok (int (if neg then -(digitsValue ds : ℤ) else digitsValue ds), rest)
      else .ok (float (String.ofList (sign neg ++ ds ++ frac ++ exp)), rest) := by
  have hletter : ∀ c ∈ rest.head?, ¬(c = 'e' ∨ c = 'E') := by
    intro c hc
    rcases h c hc with rfl | rfl | rfl
    · decide
    · decide
    · decide
  rw [scanUnsigned, scanIntPart_eq hds (noDigit_fraction hfrac hexp h)]
  dsimp only
  rw [scanFraction_eq hfrac (noDigit_exponent hexp h) (head_exponent_ne hexp h)]
  dsimp only
  rw [scanExponent_eq hexp h.noDigit hletter]
  rfl

theorem IsIntPart.exists_cons (hds : IsIntPart ds) : ∃ d ds', ds = d :: ds' ∧ d.isDigit := by
  rcases hds with rfl | ⟨hnil, hdigits, -⟩
  · exact ⟨'0', [], rfl, by decide⟩
  · cases ds with
    | nil => exact absurd rfl hnil
    | cons d ds => exact ⟨d, ds, rfl, hdigits d List.mem_cons_self⟩

theorem scanScalar_number (neg : Bool) (hds : IsIntPart ds) (more : List Char) :
    scanScalar (sign neg ++ (ds ++ more)) = scanUnsigned neg (ds ++ more) := by
  obtain ⟨d, ds, rfl, hd⟩ := hds.exists_cons
  have hne : ∀ c, c.isDigit = false → d ≠ c := by
    rintro c hc rfl
    rw [hd] at hc
    contradiction
  have hn := hne 'n' (by decide)
  have ht := hne 't' (by decide)
  have hf := hne 'f' (by decide)
  have hN := hne 'N' (by decide)
  have hI := hne 'I' (by decide)
  have hminus := hne '-' (by decide)
  unfold scanScalar
  cases neg with
  | false =>
    have hnone : constants.findSome? (fun c =>
        (stripPrefix? c.1 (d :: (ds ++ more))).map fun rest => (c.2, rest)) = none := by
      simp [constants, stripPrefix?, hn.symm, ht.symm, hf.symm, hN.symm, hI.symm, hminus.symm]
    rw [show sign false ++ (d :: ds ++ more) = d :: (ds ++ more) from rfl, hnone]
    dsimp only
    split
    · rename_i heq
      exact absurd (List.cons.inj heq).1 hminus
    · rfl
  | true =>
    have hnone : constants.findSome? (fun c =>
        (stripPrefix? c.1 ('-' :: d :: (ds ++ more))).map fun rest => (c.2, rest)) = none := by
      simp [constants, stripPrefix?, hI.symm]
    rw [show sign true ++ (d :: ds ++ more) = '-' :: d :: (ds ++ more) from rfl, hnone]
    rfl

/-! ### Integers -/

/-- The digits of a number have its value. -/
theorem digitsValue_toDigits (n : ℕ) : digitsValue (Nat.toDigits 10 n) = n := by
  calc digitsValue (Nat.toDigits 10 n) = Nat.ofDigitChars 10 (Nat.toDigits 10 n) 0 := by
        rw [Nat.ofDigitChars_eq_foldl, digitsValue]
        congr 1
        funext m d
        rw [Nat.mul_comm]
        rfl
    _ = n := Nat.ofDigitChars_ten_toDigits

theorem head_toDigits_ne {n : ℕ} (h : n ≠ 0) : (Nat.toDigits 10 n).head? ≠ some '0' := by
  induction n using Nat.strong_induction_on with
  | _ n ih =>
    by_cases hn : n < 10
    · have hall : ∀ m < 10, m ≠ 0 → [Nat.digitChar m].head? ≠ some '0' := by decide
      rw [Nat.toDigits_of_lt_base hn]
      exact hall n hn h
    · have hhead := ih (n / 10) (by omega) (by omega)
      rw [Nat.toDigits_of_base_le (by decide) (by omega),
        List.head?_append_of_ne_nil _ Nat.toDigits_ne_nil]
      exact hhead

theorem isIntPart_toDigits (n : ℕ) : IsIntPart (Nat.toDigits 10 n) := by
  by_cases h : n = 0
  · rw [h]
    exact .inl rfl
  · exact .inr ⟨Nat.toDigits_ne_nil,
      fun c hc => Nat.isDigit_of_mem_toDigits (by decide) (by decide) hc, head_toDigits_ne h⟩

/-- An integer is written as its sign and its digits. -/
theorem exists_intText (n : ℤ) : ∃ neg, intText n = sign neg ++ Nat.toDigits 10 n.natAbs ∧
    (if neg then -(n.natAbs : ℤ) else n.natAbs) = n := by
  cases n with
  | ofNat m => exact ⟨false, Nat.toList_repr, rfl⟩
  | negSucc m =>
    refine ⟨true, ?_, rfl⟩
    show ("-" ++ Nat.repr (m + 1)).toList = '-' :: Nat.toDigits 10 (m + 1)
    rw [String.toList_append, Nat.toList_repr]
    rfl

/-! ### Values -/

/-- The text of the value starts with a character that is seen as the start of a value, and it is
read back. -/
structure Reads (depth : ℕ) (v : Json) : Prop where
  head : ∃ c cs, dumpsChars v = c :: cs ∧ isSpace c = false ∧ c ≠ ']' ∧ c ≠ '\uFEFF'
  scan : ∀ fuel rest, Follow rest → (dumpsChars v).length ≤ fuel →
    scanOnce fuel depth (dumpsChars v ++ rest) = .ok (v, rest)

theorem skipSpace_cons {c : Char} {cs : List Char} (h : isSpace c = false) :
    skipSpace (c :: cs) = c :: cs := by
  rw [skipSpace, List.dropWhile_cons, h]
  rfl

/-- The blank behind a comma or a colon is skipped. -/
theorem skipSpace_space_cons {c : Char} {cs : List Char} (h : isSpace c = false) :
    skipSpace (' ' :: c :: cs) = c :: cs := by
  rw [skipSpace, List.dropWhile_cons, if_pos (by decide)]
  exact skipSpace_cons h

theorem follow_cons {c : Char} (rest : List Char) (h : c = ',' ∨ c = ']' ∨ c = '}') :
    Follow (c :: rest) := by
  intro d hd
  obtain rfl : c = d := Option.some.inj hd
  exact h

variable {depth fuel : ℕ}

theorem exists_dumpsItems (v : Json) (items : List Json) :
    ∃ more, dumpsItems (v :: items) = dumpsChars v ++ more := by
  cases items with
  | nil => exact ⟨[], by rw [dumpsItems, List.append_nil]⟩
  | cons w items => exact ⟨',' :: ' ' :: dumpsItems (w :: items), by rw [dumpsItems]⟩

/-- A text that starts with a value starts with no white space and no bracket that closes. -/
theorem Reads.skipSpace_append {v : Json} (h : Reads depth v) (more : List Char) :
    ∃ c cs, dumpsChars v ++ more = c :: cs ∧ isSpace c = false ∧ c ≠ ']' := by
  obtain ⟨c, cs, hchars, hspace, hbracket, -⟩ := h.head
  exact ⟨c, cs ++ more, by rw [hchars, List.cons_append], hspace, hbracket⟩

/-- The items are read one after the other. -/
theorem scanItems_dumpsItems {items done : List Json} (hnil : items ≠ [])
    (h : ∀ v ∈ items, Reads depth v) (hfuel : (dumpsItems items).length < fuel) :
    scanItems fuel depth done (dumpsItems items ++ ']' :: rest) =
      .ok (arr (done ++ items), rest) := by
  induction items generalizing fuel done with
  | nil => exact absurd rfl hnil
  | cons v items ih =>
    obtain ⟨fuel, rfl⟩ : ∃ n, fuel = n + 1 := ⟨fuel - 1, by omega⟩
    have hv := h v List.mem_cons_self
    cases items with
    | nil =>
      -- the last item, and the bracket
      rw [dumpsItems] at hfuel ⊢
      have hscan := hv.scan fuel (']' :: rest) (follow_cons _ (by decide)) (by omega)
      rw [scanItems, hscan]
      dsimp only
      rw [skipSpace_cons (by decide)]
      rfl
    | cons w items =>
      -- a comma and a blank come before the items that are left
      have hitems := fun u hu => h u (List.mem_cons_of_mem _ hu)
      rw [dumpsItems, List.length_append, List.length_cons, List.length_cons] at hfuel
      have hscan := hv.scan fuel (',' :: ' ' :: (dumpsItems (w :: items) ++ ']' :: rest))
        (follow_cons _ (by decide)) (by omega)
      have hskip : skipSpace (' ' :: (dumpsItems (w :: items) ++ ']' :: rest)) =
          dumpsItems (w :: items) ++ ']' :: rest := by
        obtain ⟨more, hmore⟩ := exists_dumpsItems w items
        obtain ⟨c, cs, hchars, hspace, -⟩ :=
          (hitems w List.mem_cons_self).skipSpace_append (more ++ ']' :: rest)
        rw [hmore, List.append_assoc, hchars, skipSpace_space_cons hspace]
      have hmore : scanItems fuel depth (done ++ [v]) (dumpsItems (w :: items) ++ ']' :: rest) =
          .ok (arr (done ++ [v] ++ w :: items), rest) :=
        ih (List.cons_ne_nil w items) hitems (by omega)
      rw [dumpsItems, List.append_assoc, List.cons_append, List.cons_append, scanItems, hscan]
      dsimp only
      rw [skipSpace_cons (by decide)]
      show scanItems fuel depth (done ++ [v]) (skipSpace (' ' :: _)) = _
      rw [hskip, hmore, List.append_assoc, List.singleton_append]

/-- A new key comes last. -/
theorem insertMember_new {members : List (String × Json)} {key : String} {v : Json}
    (h : key ∉ members.map Prod.fst) : insertMember members key v = members ++ [(key, v)] := by
  have hnone : (members.any fun m => m.1 = key) = false := by
    rw [List.any_eq_false]
    intro m hm hkey
    exact h (List.mem_map.mpr ⟨m, hm, by simpa using hkey⟩)
  rw [insertMember, hnone]
  rfl

/-- The scanner gets to what stands behind a member. -/
theorem scanMembers_quote {done : List (String × Json)} {key : String} {v : Json}
    {next : List Char} (hv : Reads depth v) (hnew : key ∉ done.map Prod.fst)
    (hfuel : (dumpsChars v).length ≤ fuel) (hnext : Follow next) :
    (∀ more, skipSpace next = '\x7d' :: more →
      scanMembers (fuel + 1) depth done (quote key ++ ':' :: ' ' :: (dumpsChars v ++ next)) =
        .ok (obj (done ++ [(key, v)]), more)) ∧
      ∀ more, skipSpace next = ',' :: more →
        scanMembers (fuel + 1) depth done (quote key ++ ':' :: ' ' :: (dumpsChars v ++ next)) =
          scanMembers fuel depth (done ++ [(key, v)]) (skipSpace more) := by
  have hskip : skipSpace (' ' :: (dumpsChars v ++ next)) = dumpsChars v ++ next := by
    obtain ⟨c, cs, hchars, hspace, -⟩ := hv.skipSpace_append next
    rw [hchars, skipSpace_space_cons hspace]
  have hquote : quote key ++ ':' :: ' ' :: (dumpsChars v ++ next) =
      '"' :: ((quote key).tail ++ ':' :: ' ' :: (dumpsChars v ++ next)) := rfl
  have hcolon : skipSpace (':' :: ' ' :: (dumpsChars v ++ next)) =
      ':' :: ' ' :: (dumpsChars v ++ next) := skipSpace_cons (by decide)
  rw [hquote, scanMembers, scanstring_quote]
  dsimp only
  rw [hcolon]
  simp only [hskip, hv.scan fuel next hnext hfuel]
  rw [← insertMember_new hnew]
  constructor
  · intro more hmore
    rw [hmore]
    rfl
  · intro more hmore
    rw [hmore]
    rfl

theorem scanMembers_last {done : List (String × Json)} {key : String} {v : Json}
    (hv : Reads depth v) (hnew : key ∉ done.map Prod.fst) (hfuel : (dumpsChars v).length ≤ fuel) :
    scanMembers (fuel + 1) depth done (quote key ++ ':' :: ' ' :: (dumpsChars v ++ '\x7d' :: rest)) =
      .ok (obj (done ++ [(key, v)]), rest) := by
  have hmember := scanMembers_quote hv hnew hfuel (follow_cons (c := '\x7d') rest (by decide))
  exact hmember.1 rest (skipSpace_cons (by decide))

theorem scanMembers_next {done : List (String × Json)} {key : String} {v : Json}
    (hv : Reads depth v) (hnew : key ∉ done.map Prod.fst) (hfuel : (dumpsChars v).length ≤ fuel) :
    scanMembers (fuel + 1) depth done (quote key ++ ':' :: ' ' :: (dumpsChars v ++ ',' :: rest)) =
      scanMembers fuel depth (done ++ [(key, v)]) (skipSpace rest) := by
  have hmember := scanMembers_quote hv hnew hfuel (follow_cons (c := ',') rest (by decide))
  exact hmember.2 rest (skipSpace_cons (by decide))

theorem exists_dumpsMembers (key : String) (v : Json) (members : List (String × Json)) :
    ∃ more, dumpsMembers ((key, v) :: members) = '"' :: more := by
  cases members with
  | nil => exact ⟨_, by rw [dumpsMembers, quote, List.cons_append]⟩
  | cons m members => exact ⟨_, by rw [dumpsMembers, quote, List.cons_append]⟩

/-- The members are read one after the other. -/
theorem scanMembers_dumpsMembers {members done : List (String × Json)} (hnil : members ≠ [])
    (h : ∀ m ∈ members, Reads depth m.2) (hkeys : ((done ++ members).map Prod.fst).Nodup)
    (hfuel : (dumpsMembers members).length < fuel) :
    scanMembers fuel depth done (dumpsMembers members ++ '\x7d' :: rest) =
      .ok (obj (done ++ members), rest) := by
  induction members generalizing fuel done with
  | nil => exact absurd rfl hnil
  | cons m members ih =>
    obtain ⟨key, v⟩ := m
    obtain ⟨fuel, rfl⟩ : ∃ n, fuel = n + 1 := ⟨fuel - 1, by omega⟩
    have hv : Reads depth v := h (key, v) List.mem_cons_self
    -- no member before has the key, so `insertMember` appends
    have hnew : key ∉ done.map Prod.fst := by
      intro hmem
      rw [List.map_append, List.map_cons] at hkeys
      exact (List.nodup_append.mp hkeys).2.2 key hmem key List.mem_cons_self rfl
    cases members with
    | nil =>
      rw [dumpsMembers, List.length_append, List.length_cons, List.length_cons] at hfuel
      rw [dumpsMembers, List.append_assoc, List.cons_append, List.cons_append]
      exact scanMembers_last hv hnew (by omega)
    | cons n members =>
      obtain ⟨key', w⟩ := n
      have hmembers := fun m hm => h m (List.mem_cons_of_mem _ hm)
      rw [dumpsMembers] at hfuel
      simp only [List.length_append, List.length_cons] at hfuel
      have hmore : scanMembers fuel depth (done ++ [(key, v)])
          (dumpsMembers ((key', w) :: members) ++ '\x7d' :: rest) =
            .ok (obj (done ++ [(key, v)] ++ (key', w) :: members), rest) := by
        apply ih (List.cons_ne_nil _ _) hmembers
        · rwa [List.append_assoc, List.singleton_append]
        · omega
      have hskip : skipSpace (' ' :: (dumpsMembers ((key', w) :: members) ++ '\x7d' :: rest)) =
          dumpsMembers ((key', w) :: members) ++ '\x7d' :: rest := by
        obtain ⟨more, hmore⟩ := exists_dumpsMembers key' w members
        rw [hmore, List.cons_append, skipSpace_space_cons (by decide)]
      rw [dumpsMembers, List.append_assoc, List.cons_append, List.cons_append, List.append_assoc,
        List.cons_append, List.cons_append, scanMembers_next hv hnew (by omega), hskip, hmore,
        List.append_assoc, List.singleton_append]

/-! ### Every value -/

/-- A number starts with a digit or a minus sign. -/
def StartsNumber (c : Char) : Prop := c.isDigit ∨ c = '-'

theorem StartsNumber.ne {c d : Char} (h : StartsNumber c) (hdigit : d.isDigit = false)
    (hminus : d ≠ '-') : c ≠ d := by
  rintro rfl
  rcases h with h | h
  · rw [hdigit] at h
    contradiction
  · exact hminus h

theorem exists_startsNumber (neg : Bool) (hds : IsIntPart ds) (more : List Char) :
    ∃ c cs, sign neg ++ (ds ++ more) = c :: cs ∧ StartsNumber c := by
  obtain ⟨d, ds, rfl, hd⟩ := hds.exists_cons
  cases neg with
  | false => exact ⟨d, ds ++ more, rfl, .inl hd⟩
  | true => exact ⟨'-', d :: (ds ++ more), rfl, .inr rfl⟩

/-- A number is read back. -/
theorem reads_number {v : Json} (neg : Bool) (hds : IsIntPart ds)
    (htext : dumpsChars v = sign neg ++ (ds ++ (frac ++ exp)))
    (hvalue : ∀ rest, Follow rest →
      scanUnsigned neg (ds ++ (frac ++ (exp ++ rest))) = .ok (v, rest)) : Reads depth v := by
  obtain ⟨c, cs, hchars, hc⟩ := exists_startsNumber neg hds (frac ++ exp)
  constructor
  · refine ⟨c, cs, htext.trans hchars, ?_, hc.ne (by decide) (by decide),
      hc.ne (by decide) (by decide)⟩
    have hspace := hc.ne (show ' '.isDigit = false by decide) (by decide)
    have htab := hc.ne (show '\t'.isDigit = false by decide) (by decide)
    have hline := hc.ne (show '\n'.isDigit = false by decide) (by decide)
    have hreturn := hc.ne (show '\r'.isDigit = false by decide) (by decide)
    simp [isSpace, hspace, htab, hline, hreturn]
  · intro fuel rest hrest hfuel
    rw [htext, hchars, List.length_cons] at hfuel
    obtain ⟨fuel, rfl⟩ : ∃ n, fuel = n + 1 := ⟨fuel - 1, by omega⟩
    rw [htext, hchars, List.cons_append, scanOnce_scalar (hc.ne (by decide) (by decide))
      (hc.ne (by decide) (by decide)) (hc.ne (by decide) (by decide)), ← List.cons_append, ← hchars,
      List.append_assoc, List.append_assoc, List.append_assoc, scanScalar_number neg hds]
    exact hvalue rest hrest

/-- An integer that can be written is read. -/
theorem reads_int {n : ℤ} (h : Writable n) : Reads depth (int n) := by
  obtain ⟨neg, htext, hvalue⟩ := exists_intText n
  have hlength : (Nat.toDigits 10 n.natAbs).length ≤ maxStrDigits :=
    (Nat.length_toDigits_le_iff (by decide) (by decide)).mpr h
  apply reads_number neg (isIntPart_toDigits n.natAbs)
  · show intText n = _ ++ (_ ++ ([] ++ []))
    rw [htext, List.append_nil, List.append_nil]
  · intro rest hrest
    rw [scanUnsigned_eq neg (isIntPart_toDigits n.natAbs) (.inl rfl) (.inl rfl) hrest,
      if_pos ⟨rfl, rfl⟩, if_neg (by omega), digitsValue_toDigits, hvalue]

/-- The literal of a float is read as it stands. -/
theorem reads_float {literal : String} (h : IsFloatText literal.toList) :
    Reads depth (float literal) := by
  generalize htext : literal.toList = text at h
  obtain @⟨neg, ds, frac, exp, hds, hfrac, hexp, hsome⟩ := h
  have hchars : dumpsChars (float literal) = sign neg ++ (ds ++ (frac ++ exp)) := by
    show literal.toList = _
    rw [htext, List.append_assoc, List.append_assoc]
  apply reads_number neg hds hchars
  intro rest hrest
  rw [scanUnsigned_eq neg hds hfrac hexp hrest, if_neg hsome, ← htext, String.ofList_toList]

/-- A string is read from its quoted text. -/
theorem reads_str (s : String) : Reads depth (str s) := by
  constructor
  · exact ⟨'"', (quote s).tail, by rw [dumpsChars]; rfl, by decide, by decide, by decide⟩
  · intro fuel rest hrest hfuel
    rw [dumpsChars, quote, List.length_cons] at hfuel
    obtain ⟨fuel, rfl⟩ : ∃ n, fuel = n + 1 := ⟨fuel - 1, by omega⟩
    rw [dumpsChars, show quote s ++ rest = '"' :: ((quote s).tail ++ rest) from rfl, scanOnce,
      scanstring_quote]

/-- A constant is read back. -/
theorem reads_constant {v : Json} {c : Char} {cs : List Char} (htext : dumpsChars v = c :: cs)
    (hc : c = 'n' ∨ c = 't' ∨ c = 'f')
    (hscan : ∀ rest, scanScalar (c :: (cs ++ rest)) = .ok (v, rest)) : Reads depth v := by
  have hne : isSpace c = false ∧ c ≠ ']' ∧ c ≠ '\uFEFF' ∧ c ≠ '"' ∧ c ≠ '\x7b' ∧ c ≠ '[' := by
    rcases hc with rfl | rfl | rfl
    · decide
    · decide
    · decide
  obtain ⟨hspace, hbracket, hmark, hquote, hbrace, hopen⟩ := hne
  constructor
  · exact ⟨c, cs, htext, hspace, hbracket, hmark⟩
  · intro fuel rest hrest hfuel
    rw [htext, List.length_cons] at hfuel
    obtain ⟨fuel, rfl⟩ : ∃ n, fuel = n + 1 := ⟨fuel - 1, by omega⟩
    rw [htext, List.cons_append, scanOnce_scalar hquote hbrace hopen, hscan]

theorem reads_null : Reads depth null := by
  have h : dumpsChars null = 'n' :: ['u', 'l', 'l'] := by simp [dumpsChars]
  exact reads_constant h (.inl rfl) fun rest => by simp [scanScalar, constants, stripPrefix?]

theorem reads_bool (b : Bool) : Reads depth (bool b) := by
  cases b with
  | false =>
    have h : dumpsChars (bool false) = 'f' :: ['a', 'l', 's', 'e'] := by simp [dumpsChars]
    exact reads_constant h (by decide) fun rest => by simp [scanScalar, constants, stripPrefix?]
  | true =>
    have h : dumpsChars (bool true) = 't' :: ['r', 'u', 'e'] := by simp [dumpsChars]
    exact reads_constant h (by decide) fun rest => by simp [scanScalar, constants, stripPrefix?]

/-- An array is read one level deeper than its items. -/
theorem reads_arr {items : List Json} (h : ∀ v ∈ items, Reads depth v) :
    Reads (depth + 1) (arr items) := by
  constructor
  · exact ⟨'[', _, by rw [dumpsChars], by decide, by decide, by decide⟩
  · intro fuel rest hrest hfuel
    rw [dumpsChars, List.length_cons, List.length_append, List.length_singleton] at hfuel
    obtain ⟨fuel, rfl⟩ : ∃ n, fuel = n + 1 := ⟨fuel - 1, by omega⟩
    rw [dumpsChars, List.cons_append, List.append_assoc, List.singleton_append, scanOnce]
    cases items with
    | nil =>
      -- the bracket closes at once
      rw [dumpsItems, List.nil_append, skipSpace_cons (by decide)]
      rfl
    | cons v items =>
      obtain ⟨more, hmore⟩ := exists_dumpsItems v items
      obtain ⟨c, cs, hchars, hspace, hbracket⟩ :=
        (h v List.mem_cons_self).skipSpace_append (more ++ ']' :: rest)
      have hscan : scanItems fuel depth [] (dumpsItems (v :: items) ++ ']' :: rest) =
          .ok (arr (v :: items), rest) :=
        scanItems_dumpsItems (List.cons_ne_nil v items) h (by omega)
      rw [hmore, List.append_assoc, hchars] at hscan ⊢
      rw [skipSpace_cons hspace]
      split
      · -- no value starts with a closing bracket
        rename_i heq
        exact absurd (List.cons.inj heq).1 hbracket
      · exact hscan

/-- An object is read one level deeper than its values, if no key comes twice. -/
theorem reads_obj {members : List (String × Json)} (hkeys : (members.map Prod.fst).Nodup)
    (h : ∀ m ∈ members, Reads depth m.2) : Reads (depth + 1) (obj members) := by
  constructor
  · exact ⟨'\x7b', _, by rw [dumpsChars], by decide, by decide, by decide⟩
  · intro fuel rest hrest hfuel
    rw [dumpsChars, List.length_cons, List.length_append, List.length_singleton] at hfuel
    obtain ⟨fuel, rfl⟩ : ∃ n, fuel = n + 1 := ⟨fuel - 1, by omega⟩
    rw [dumpsChars, List.cons_append, List.append_assoc, List.singleton_append, scanOnce]
    cases members with
    | nil =>
      rw [dumpsMembers, List.nil_append, skipSpace_cons (by decide)]
      rfl
    | cons m members =>
      obtain ⟨more, hmore⟩ := exists_dumpsMembers m.1 m.2 members
      have hscan : scanMembers fuel depth [] (dumpsMembers (m :: members) ++ '\x7d' :: rest) =
          .ok (obj (m :: members), rest) :=
        scanMembers_dumpsMembers (List.cons_ne_nil m members) h hkeys (by omega)
      rw [hmore, List.cons_append] at hscan ⊢
      rw [skipSpace_cons (by decide)]
      exact hscan

theorem dumpsError?_item {items : List Json} (h : dumpsItemsError? depth items = none) :
    ∀ v ∈ items, dumpsError? depth v = none := by
  induction items with
  | nil => simp
  | cons w items ih =>
    rw [dumpsItemsError?] at h
    cases hw : dumpsError? depth w with
    | some e =>
      rw [hw] at h
      contradiction
    | none =>
      rw [hw] at h
      intro v hv
      rcases List.mem_cons.mp hv with rfl | hv
      · exact hw
      · exact ih h v hv

theorem dumpsError?_member {members : List (String × Json)}
    (h : dumpsMembersError? depth members = none) :
    ∀ m ∈ members, dumpsError? depth m.2 = none := by
  induction members with
  | nil => simp
  | cons n members ih =>
    rw [dumpsMembersError?] at h
    cases hn : dumpsError? depth n.2 with
    | some e =>
      rw [hn] at h
      contradiction
    | none =>
      rw [hn] at h
      intro m hm
      rcases List.mem_cons.mp hm with rfl | hm
      · exact hn
      · exact ih h m hm

/-- By induction on the value: every call of the scanner has the fuel of its text. -/
theorem IsJson.reads {v : Json} (h : IsJson v) (hwritten : dumpsError? depth v = none) :
    Reads depth v := by
  induction h generalizing depth with
  | null => exact reads_null
  | bool b => exact reads_bool b
  | int n =>
    -- an integer that is written has no more digits than are read
    rw [dumpsError?] at hwritten
    split at hwritten
    · rename_i hn
      exact reads_int hn
    · contradiction
  | float h => exact reads_float h
  | str s => exact reads_str s
  | arr _ ih =>
    cases depth with
    | zero => simp [dumpsError?] at hwritten
    | succ depth =>
      rw [dumpsError?] at hwritten
      exact reads_arr fun v hv => ih v hv (dumpsError?_item hwritten v hv)
  | obj hkeys _ ih =>
    cases depth with
    | zero => simp [dumpsError?] at hwritten
    | succ depth =>
      rw [dumpsError?] at hwritten
      exact reads_obj hkeys fun m hm => ih m hm (dumpsError?_member hwritten m hm)

/-- What is written has no value that cannot be. -/
theorem dumpsWithin_eq_ok {maxDepth : ℕ} {v : Json} {text : String}
    (h : dumpsWithin maxDepth v = .ok text) : dumpsError? maxDepth v = none ∧ v.dumps = text := by
  unfold dumpsWithin at h
  cases he : dumpsError? maxDepth v with
  | some e =>
    rw [he] at h
    contradiction
  | none =>
    rw [he] at h
    exact ⟨rfl, Except.ok.inj h⟩

/-- A text that `json.dumps` has written is read back as the value. -/
theorem loads_of_dumpsWithin {maxDepth : ℕ} {v : Json} {text : String} (hv : IsJson v)
    (h : dumpsWithin maxDepth v = .ok text) : loads maxDepth text = .ok v := by
  obtain ⟨hwritten, rfl⟩ := dumpsWithin_eq_ok h
  have hreads := hv.reads hwritten
  obtain ⟨c, cs, hchars, hspace, -, hmark⟩ := hreads.head
  have hscan := hreads.scan (2 * (dumpsChars v).length + 2) [] (by intro d hd; cases hd) (by omega)
  rw [List.append_nil] at hscan
  rw [loads, dumps, String.toList_ofList]
  split
  · rename_i heq
    rw [hchars] at heq
    exact absurd (List.cons.inj heq).1 hmark
  · rw [show skipSpace (dumpsChars v) = dumpsChars v by rw [hchars, skipSpace_cons hspace], hscan]
    rfl

end Json
