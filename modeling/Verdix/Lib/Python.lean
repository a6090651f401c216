import Mathlib.Data.List.Basic
import Mathlib.Data.List.Infix
import Mathlib.Data.Int.Notation

/-!
# Python values the model needs

The exceptions that the modelled code raises or catches, and the `str` methods it calls.
`str.lower` needs the Unicode case tables and stays a parameter where it is used.
-/

/-- The exceptions that modelled calls raise, by class. -/
inductive PyError
  | attributeError
  | keyError
  | indexError
  | typeError
  | valueError
  | overflowError
  | recursionError
  | runtimeError
  | jsonDecodeError
  | unicodeDecodeError
  | unicodeEncodeError
  | osError
  | integrityError
  | interfaceError
  | undefinedError
  deriving DecidableEq, Repr

/-- `str` of an exception, for samples: what Python says of a typical one of its class. -/
def PyError.sampleText : PyError → String
  | .attributeError => "'NoneType' object has no attribute 'get'"
  | .keyError => "'attributes'"
  | .indexError => "list index out of range"
  | .typeError => "unsupported operand type(s) for /: 'PosixPath' and 'int'"
  | .valueError => "Exceeds the limit (4300 digits) for integer string conversion"
  | .overflowError => "int too large to convert to float"
  | .recursionError => "maximum recursion depth exceeded"
  | .runtimeError => "dictionary changed size during iteration"
  | .jsonDecodeError => "Expecting value: line 1 column 1 (char 0)"
  | .unicodeDecodeError => "'utf-8' codec can't decode byte 0xff in position 0: invalid start byte"
  | .unicodeEncodeError => "'utf-8' codec can't encode character: surrogates not allowed"
  | .osError => "[Errno 5] Input/output error"
  | .integrityError => "NOT NULL constraint failed: eve_events.event_type"
  | .interfaceError => "Error binding parameter: type 'dict' is not supported"
  | .undefinedError => "value is undefined"

namespace PyStr

/-- `s.rstrip(c)` for one character. -/
def rstrip (c : Char) (s : String) : String :=
  String.ofList (s.toList.reverse.dropWhile (· == c)).reverse

/-- `c.isspace()`. -/
def isSpace (c : Char) : Bool :=
  let n := c.toNat
  (9 ≤ n && n ≤ 13) || (28 ≤ n && n ≤ 32) || n = 0x85 || n = 0xA0 || n = 0x1680 ||
    (0x2000 ≤ n && n ≤ 0x200A) || n = 0x2028 || n = 0x2029 || n = 0x202F || n = 0x205F || n = 0x3000

/-- `s.strip()`. -/
def strip (s : String) : String :=
  String.ofList ((s.toList.dropWhile isSpace).reverse.dropWhile isSpace).reverse

/-- `s.lower()` for ASCII. -/
def lowerAscii (s : String) : String := String.ofList (s.toList.map Char.toLower)

/-- `s.endswith(suffix)`. -/
def endswith (s suffix : String) : Bool := suffix.toList.isSuffixOf s.toList

/-- `s.startswith(prefix)`. -/
def startswith (s pre : String) : Bool := pre.toList.isPrefixOf s.toList

/-- `s.replace(c, t)` for one character. -/
def replaceChar (c : Char) (t : String) (s : String) : String :=
  String.ofList (s.toList.flatMap fun d => if d = c then t.toList else [d])

/-- `s.split(c)` for one character. -/
def split (c : Char) (s : String) : List String := (s.toList.splitOn c).map String.ofList

@[simp]
theorem endswith_append (s t : String) : endswith (s ++ t) t = true := by
  rw [endswith, String.toList_append, List.isSuffixOf_iff_suffix]
  exact List.suffix_append _ _

/-- `c in s` for one character. -/
def contains (s : String) (c : Char) : Bool := s.toList.contains c

/-- `t in s`. -/
def containsText (s t : String) : Bool := t.toList <:+: s.toList

/-! ### Texts that UTF-8 cannot encode

A `str` may hold lone surrogates and a `String` may not, so some character of the `String` stands for
them.  Where a text is encoded, the model leaves open which characters these are.
-/

/-- The characters that stand for lone surrogates. -/
structure Surrogates where
  isSurrogate : Char → Bool
  ascii : ∀ c : Char, c.toNat < 128 → isSurrogate c = false

/-- No text holds a lone surrogate. -/
def Surrogates.none : Surrogates := ⟨fun _ => false, fun _ _ => rfl⟩

/-- `U+FFFD`, as which `json.loads` of the model reads every lone surrogate. -/
def Surrogates.replacement : Surrogates where
  isSurrogate c := c = '\uFFFD'
  ascii c hc := by
    rw [decide_eq_false_iff_not]
    rintro rfl
    exact absurd hc (by decide)

/-- `s.encode("utf-8")` does not raise. -/
def encodes (sur : Surrogates) (s : String) : Bool := s.toList.all fun c => !sur.isSurrogate c

variable {sur : Surrogates} {s t : String}

@[simp]
theorem encodes_none (s : String) : encodes .none s = true :=
  List.all_eq_true.mpr fun _ _ => rfl

@[simp]
theorem encodes_append : encodes sur (s ++ t) = (encodes sur s && encodes sur t) := by
  rw [encodes, String.toList_append, List.all_append]
  rfl

/-- An ASCII text can always be encoded. -/
theorem encodes_of_ascii (h : (s.toList.all fun c => decide (c.toNat < 128)) = true) :
    encodes sur s = true := by
  refine List.all_eq_true.mpr fun c hc => ?_
  have hc := of_decide_eq_true (List.all_eq_true.mp h c hc)
  rw [sur.ascii c hc, Bool.not_false]

end PyStr
