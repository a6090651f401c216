import Verdix.Lib.Python

/-!
# JSON values and `json.dumps`

`dumps` writes with Python's defaults (ASCII only, `", "` and `": "` as separators).  A float is kept
as the text of its literal.  An escaped surrogate without its partner has no Lean character and is
read as `U+FFFD`.

`quote_injective`: two texts with the same string literal are equal, since the scanner reads each
escape back as its character (`scanChar_escape`).
-/

/-- A JSON value as `json.loads` returns it. -/
inductive Json
  | null
  | bool (b : Bool)
  | int (n : ℤ)
  | float (literal : String)
  | str (s : String)
  | arr (items : List Json)
  | obj (members : List (String × Json))
  deriving Repr

namespace Json

/-! ### Reading values -/

/-- Python's truth value. -/
def truthy : Json → Bool
  | null => false
  | bool b => b
  | int n => n ≠ 0
  | float l => (l.toList.takeWhile fun c => c ≠ 'e' ∧ c ≠ 'E').any fun c =>
      c.isAlpha || c.isDigit && c ≠ '0'
  | str s => s ≠ ""
  | arr items => !items.isEmpty
  | obj members => !members.isEmpty

/-- The value stored under a key. -/
def lookup (members : List (String × Json)) (key : String) : Option Json :=
  (members.find? fun m => m.1 = key).map Prod.snd

/-- `d.get(key, default)`: `AttributeError` when `d` is not a dict. -/
def getD (d : Json) (key : String) (default : Json) : Except PyError Json :=
  match d with
  | obj members => .ok ((lookup members key).getD default)
  | _ => .error .attributeError

/-- `d.get(key)`: `None` when the key is missing. -/
def get (d : Json) (key : String) : Except PyError Json := d.getD key null

/-- `a or b`. -/
def orElse (a b : Json) : Json := if a.truthy then a else b

/-! ### Writing values -/

/-- A hexadecimal digit, lower case. -/
def hexDigit (d : ℕ) : Char := if d < 10 then Char.ofNat (48 + d) else Char.ofNat (87 + d)

/-- `\uXXXX` for a code unit. -/
def unicodeEscape (n : ℕ) : List Char :=
  ['\\', 'u', hexDigit (n / 4096 % 16), hexDigit (n / 256 % 16), hexDigit (n / 16 % 16),
    hexDigit (n % 16)]

/-- The text `json.dumps` writes for one character of a string. -/
def escape (c : Char) : List Char :=
  if c = '"' then ['\\', '"']
  else if c = '\\' then ['\\', '\\']
  else if c = '\n' then ['\\', 'n']
  else if c = '\r' then ['\\', 'r']
  else if c = '\t' then ['\\', 't']
  else if c.toNat = 12 then ['\\', 'f']
  else if c.toNat = 8 then ['\\', 'b']
  else if 32 ≤ c.toNat ∧ c.toNat ≤ 126 then [c]
  else if c.toNat < 65536 then unicodeEscape c.toNat
  -- a character outside the basic plane is written as a surrogate pair
  else unicodeEscape (55296 + (c.toNat - 65536) / 1024) ++
    unicodeEscape (56320 + (c.toNat - 65536) % 1024)

/-- A string literal. -/
def quote (s : String) : List Char := '"' :: (s.toList.flatMap escape ++ ['"'])

/-- An integer in decimal. -/
def intText (n : ℤ) : List Char := (toString n).toList

mutual

/-- The characters of `json.dumps(v)`. -/
def dumpsChars : Json → List Char
  | null => "null".toList
  | bool true => "true".toList
  | bool false => "false".toList
  | int n => intText n
  | float l => l.toList
  | str s => quote s
  | arr items => '[' :: (dumpsItems items ++ [']'])
  | obj members => '{' :: (dumpsMembers members ++ ['}'])

/-- The items of an array, separated by `", "`. -/
def dumpsItems : List Json → List Char
  | [] => []
  | [v] => dumpsChars v
  | v :: w :: vs => dumpsChars v ++ ',' :: ' ' :: dumpsItems (w :: vs)

/-- The members of an object, separated by `", "`. -/
def dumpsMembers : List (String × Json) → List Char
  | [] => []
  | [(k, v)] => quote k ++ ':' :: ' ' :: dumpsChars v
  | (k, v) :: m :: ms => quote k ++ ':' :: ' ' :: (dumpsChars v ++ ',' :: ' ' :: dumpsMembers (m :: ms))

end

/-- `json.dumps(v)`. -/
def dumps (v : Json) : String := String.ofList v.dumpsChars

/-! ### Reading one character of a string literal back -/

/-- The value of a hexadecimal digit. -/
def hexValue (c : Char) : Option ℕ :=
  if '0' ≤ c ∧ c ≤ '9' then some (c.toNat - 48)
  else if 'a' ≤ c ∧ c ≤ 'f' then some (c.toNat - 87)
  else if 'A' ≤ c ∧ c ≤ 'F' then some (c.toNat - 55)
  else none

/-- Four hexadecimal digits. -/
def scanHex4 : List Char → Option (ℕ × List Char)
  | a :: b :: c :: d :: rest =>
    match hexValue a, hexValue b, hexValue c, hexValue d with
    | some a, some b, some c, some d => some (((a * 16 + b) * 16 + c) * 16 + d, rest)
    | _, _, _, _ => none
  | _ => none

/-- The character with a given number, `U+FFFD` when the number is a surrogate. -/
def charOfUnit (n : ℕ) : Char := if n.isValidChar then Char.ofNat n else '\uFFFD'

/-- What follows `\u`: a code unit, joined with the escape after it when they are a pair. -/
def scanUnicode (cs : List Char) : Option (Char × List Char) :=
  match scanHex4 cs with
  | none => none
  | some (hi, rest) =>
    match rest with
    | '\\' :: 'u' :: rest' =>
      if 55296 ≤ hi ∧ hi < 56320 then
        match scanHex4 rest' with
        | none => none
        | some (lo, rest'') =>
          if 56320 ≤ lo ∧ lo < 57344 then
            some (Char.ofNat (65536 + (hi - 55296) * 1024 + (lo - 56320)), rest'')
          else some (charOfUnit hi, rest)
      else some (charOfUnit hi, rest)
    | _ => some (charOfUnit hi, rest)

/-- What follows a backslash in a string literal. -/
def scanEscape : List Char → Option (Char × List Char)
  | '"' :: rest => some ('"', rest)
  | '\\' :: rest => some ('\\', rest)
  | '/' :: rest => some ('/', rest)
  | 'b' :: rest => some (Char.ofNat 8, rest)
  | 'f' :: rest => some (Char.ofNat 12, rest)
  | 'n' :: rest => some ('\n', rest)
  | 'r' :: rest => some ('\r', rest)
  | 't' :: rest => some ('\t', rest)
  | 'u' :: rest => scanUnicode rest
  | _ => none

/-- One character of a string literal and what follows it; `none` at its end and at a character
the strict scanner refuses. -/
def scanChar : List Char → Option (Char × List Char)
  | '\\' :: rest => scanEscape rest
  | '"' :: _ => none
  | c :: rest => if c.toNat < 32 then none else some (c, rest)
  | [] => none

theorem hexValue_hexDigit : ∀ d < 16, hexValue (hexDigit d) = some d := by decide

theorem scanHex4_unicodeEscape {n : ℕ} (h : n < 65536) (rest : List Char) :
    scanHex4 ((unicodeEscape n).drop 2 ++ rest) = some (n, rest) := by
  have hd : ∀ m, hexValue (hexDigit (m % 16)) = some (m % 16) := fun m =>
    hexValue_hexDigit _ (Nat.mod_lt _ (by decide))
  simp only [unicodeEscape, List.drop_succ_cons, List.drop_zero, List.cons_append, List.nil_append,
    scanHex4, hd]
  rw [show ((n / 4096 % 16 * 16 + n / 256 % 16) * 16 + n / 16 % 16) * 16 + n % 16 = n by omega]

theorem unicodeEscape_append (n : ℕ) (rest : List Char) :
    unicodeEscape n ++ rest = '\\' :: 'u' :: ((unicodeEscape n).drop 2 ++ rest) := rfl

theorem scanChar_unicode (rest : List Char) :
    scanChar ('\\' :: 'u' :: rest) = scanUnicode rest := rfl

/-- A code unit that is no high surrogate is read back whatever follows it. -/
theorem scanUnicode_unicodeEscape {n : ℕ} (h : n < 65536) (hs : n < 55296 ∨ 56320 ≤ n)
    (rest : List Char) :
    scanUnicode ((unicodeEscape n).drop 2 ++ rest) = some (charOfUnit n, rest) := by
  unfold scanUnicode
  rw [scanHex4_unicodeEscape h]
  dsimp only
  split
  · rw [if_neg (by omega)]
  · rfl

/-- A surrogate pair is read back as the character it stands for. -/
theorem scanUnicode_pair {n : ℕ} (h : n < 1048576) (rest : List Char) :
    scanUnicode ((unicodeEscape (55296 + n / 1024)).drop 2 ++
      (unicodeEscape (56320 + n % 1024) ++ rest)) = some (Char.ofNat (65536 + n), rest) := by
  have hlo := scanHex4_unicodeEscape (show 56320 + n % 1024 < 65536 by omega) rest
  have hn : 65536 + (55296 + n / 1024 - 55296) * 1024 + (56320 + n % 1024 - 56320) = 65536 + n := by
    omega
  rw [unicodeEscape_append]
  generalize (unicodeEscape (56320 + n % 1024)).drop 2 ++ rest = tl at hlo
  unfold scanUnicode
  rw [scanHex4_unicodeEscape (by omega)]
  dsimp only
  split
  · rename_i heq
    obtain rfl := (List.cons.inj (List.cons.inj heq).2).2
    rw [if_pos (by omega), hlo]
    dsimp only
    rw [if_pos (by omega), hn]
  · rename_i hne
    exact absurd rfl (hne _)

/-- The text of a character is read back as the character. -/
theorem scanChar_escape (c : Char) (rest : List Char) :
    scanChar (escape c ++ rest) = some (c, rest) := by
  unfold escape
  split_ifs with h1 h2 h3 h4 h5 h6 h7 h8 h9
  · rw [h1]; rfl
  · rw [h2]; rfl
  · rw [h3]; rfl
  · rw [h4]; rfl
  · rw [h5]; rfl
  · rw [show c = Char.ofNat 12 by rw [← h6, Char.ofNat_toNat]]; rfl
  · rw [show c = Char.ofNat 8 by rw [← h7, Char.ofNat_toNat]]; rfl
  · rw [List.singleton_append]
    unfold scanChar
    split
    · rename_i heq
      exact absurd (List.cons.inj heq).1 h2
    · rename_i heq
      exact absurd (List.cons.inj heq).1 h1
    · rename_i heq
      obtain ⟨rfl, rfl⟩ := List.cons.inj heq
      rw [if_neg (by omega)]
    · simp_all
  · have hs : c.toNat < 55296 ∨ 57343 < c.toNat := c.valid.imp id And.left
    have h := scanUnicode_unicodeEscape h9 (by omega) rest
    rw [charOfUnit, if_pos (show c.toNat.isValidChar from c.valid), Char.ofNat_toNat] at h
    rw [unicodeEscape_append, scanChar_unicode]
    exact h
  · have hlt : c.toNat < 1114112 := by
      have := c.valid
      change c.toNat < 55296 ∨ 57343 < c.toNat ∧ c.toNat < 1114112 at this
      omega
    have h := scanUnicode_pair (show c.toNat - 65536 < 1048576 by omega) rest
    rw [show 65536 + (c.toNat - 65536) = c.toNat by omega, Char.ofNat_toNat] at h
    rw [List.append_assoc, unicodeEscape_append, scanChar_unicode]
    exact h

/-! ### Strings are read back -/

/-- The characters of a string literal up to its closing quote, and what follows it. -/
def scanChars : ℕ → List Char → Option (List Char × List Char)
  | _, '"' :: rest => some ([], rest)
  | 0, _ => none
  | fuel + 1, cs =>
    match scanChar cs with
    | none => none
    | some (c, rest) => (scanChars fuel rest).map fun r => (c :: r.1, r.2)

/-- `json.decoder.scanstring`, after the opening quote. -/
def scanstring (cs : List Char) : Option (String × List Char) :=
  (scanChars cs.length cs).map fun r => (String.ofList r.1, r.2)

theorem escape_head_ne (c : Char) (rest tl : List Char) : escape c ++ rest ≠ '"' :: tl := by
  intro h
  have h1 := scanChar_escape c rest
  rw [h] at h1
  simp [scanChar] at h1

theorem scanChars_escapes {fuel : ℕ} (s rest : List Char) (h : s.length ≤ fuel) :
    scanChars fuel (s.flatMap escape ++ '"' :: rest) = some (s, rest) := by
  induction s generalizing fuel with
  | nil => simp [scanChars]
  | cons c s ih =>
    obtain ⟨fuel, rfl⟩ : ∃ n, fuel = n + 1 := ⟨fuel - 1, by simp at h; omega⟩
    rw [List.flatMap_cons, List.append_assoc, scanChars.eq_def]
    split
    · rename_i heq
      exact absurd heq (escape_head_ne c _ _)
    · contradiction
    · rename_i heq _
      obtain rfl := Nat.succ.inj heq
      rw [scanChar_escape]
      dsimp only
      rw [ih (by simpa using h)]
      rfl

theorem length_le_flatMap_escape (s : List Char) : s.length ≤ (s.flatMap escape).length := by
  induction s with
  | nil => exact Nat.le_refl 0
  | cons c s ih =>
    have hpos : 0 < (escape c).length := by
      by_contra hz
      have h1 := scanChar_escape c []
      rw [List.eq_nil_of_length_eq_zero (by omega : (escape c).length = 0)] at h1
      simp [scanChar] at h1
    rw [List.flatMap_cons, List.length_append, List.length_cons]
    omega

/-- A quoted string is read back as the string. -/
theorem scanstring_quote (s : String) (rest : List Char) :
    scanstring ((quote s).tail ++ rest) = some (s, rest) := by
  have h1 := length_le_flatMap_escape s.toList
  have h2 := @scanChars_escapes ((quote s).tail ++ rest).length s.toList rest
    (by
      rw [quote, List.tail_cons, List.length_append, List.length_append]
      omega)
  unfold scanstring
  rw [quote, List.tail_cons, List.append_assoc, List.singleton_append] at h2 ⊢
  rw [h2]
  simp

theorem quote_injective {s t : String} {x y : List Char} (h : quote s ++ x = quote t ++ y) :
    s = t ∧ x = y := by
  have hs := scanstring_quote s x
  have ht := scanstring_quote t y
  have heq : (quote s).tail ++ x = (quote t).tail ++ y := by
    simpa [quote] using h
  rw [heq, ht] at hs
  simpa [eq_comm] using hs

end Json

open Json in
example : Json.dumps (obj [("a", arr [int (-1), str "x\"é", null]), ("b", bool true)]) =
    "\x7b\"a\": [-1, \"x\\\"\\u00e9\", null], \"b\": true\x7d" := by
  decide +kernel
