import Verdix.Lib.Json

/-!
# `json.loads`

The scanner of Python's `json` module.  `maxDepth` is the nesting the interpreter's recursion limit
allows.  The fuel bounds the recursion by the length of the text; every call consumes a character
or hands over to one that does.
-/

namespace Json

/-! ### Numbers -/

/-- The value of a run of decimal digits. -/
def digitsValue (ds : List Char) : ℕ := ds.foldl (fun n d => n * 10 + (d.toNat - 48)) 0

/-- The integer part of a number: a zero, or digits that do not start with a zero. -/
def scanIntPart : List Char → Option (List Char × List Char)
  | '0' :: rest => some (['0'], rest)
  | cs =>
    match cs.span Char.isDigit with
    | ([], _) => none
    | r => some r

/-- The optional fraction of a number. -/
def scanFraction : List Char → List Char × List Char
  | '.' :: rest =>
    match rest.span Char.isDigit with
    | ([], _) => ([], '.' :: rest)
    | (ds, rest') => ('.' :: ds, rest')
  | cs => ([], cs)

/-- The digits of an exponent, after its sign. -/
def scanExponentDigits (sign cs : List Char) : Option (List Char × List Char) :=
  match cs.span Char.isDigit with
  | ([], _) => none
  | (ds, rest) => some (sign ++ ds, rest)

/-- The optional exponent of a number. -/
def scanExponent (cs : List Char) : List Char × List Char :=
  match cs with
  | e :: rest =>
    if e = 'e' ∨ e = 'E' then
      (match rest with
        | '+' :: r => scanExponentDigits [e, '+'] r
        | '-' :: r => scanExponentDigits [e, '-'] r
        | r => scanExponentDigits [e] r).getD ([], cs)
    else ([], cs)
  | [] => ([], cs)

/-- The longest integer text that `int` converts and `str` writes. -/
def maxStrDigits : ℕ := 4300

/-- A number after its optional minus sign. -/
def scanUnsigned (neg : Bool) (cs : List Char) : Except PyError (Json × List Char) :=
  match scanIntPart cs with
  | none => .error .jsonDecodeError
  | some (ds, rest) =>
    let (frac, rest) := scanFraction rest
    let (exp, rest) := scanExponent rest
    if frac = [] ∧ exp = [] then
      if maxStrDigits < ds.length then .error .valueError
      else .ok (int (if neg then -(digitsValue ds : ℤ) else digitsValue ds), rest)
    else .ok (float (String.ofList ((if neg then ['-'] else []) ++ ds ++ frac ++ exp)), rest)

/-- What follows when the text starts with `p`. -/
def stripPrefix? (p : String) (cs : List Char) : Option (List Char) :=
  if p.toList.isPrefixOf cs then some (cs.drop p.toList.length) else none

/-- The constants of the scanner. -/
def constants : List (String × Json) :=
  [("null", null), ("true", bool true), ("false", bool false), ("NaN", float "NaN"),
    ("Infinity", float "Infinity"), ("-Infinity", float "-Infinity")]

/-- A constant or a number. -/
def scanScalar (cs : List Char) : Except PyError (Json × List Char) :=
  match constants.findSome? fun c => (stripPrefix? c.1 cs).map fun rest => (c.2, rest) with
  | some r => .ok r
  | none =>
    match cs with
    | '-' :: rest => scanUnsigned true rest
    | cs => scanUnsigned false cs

/-! ### Values -/

/-- The whitespace of JSON. -/
def isSpace (c : Char) : Bool := c = ' ' ∨ c = '\t' ∨ c = '\n' ∨ c = '\r'

/-- Skip whitespace. -/
def skipSpace (cs : List Char) : List Char := cs.dropWhile isSpace

/-- `d[key] = v`: a known key keeps its place. -/
def insertMember (members : List (String × Json)) (key : String) (v : Json) :
    List (String × Json) :=
  if members.any fun m => m.1 = key then members.map fun m => if m.1 = key then (key, v) else m
  else members ++ [(key, v)]

mutual

/-- `scan_once`: one value and what follows it. -/
def scanOnce : ℕ → ℕ → List Char → Except PyError (Json × List Char)
  | 0, _, _ => .error .jsonDecodeError
  | _ + 1, _, '"' :: rest =>
    match scanstring rest with
    | some (s, rest') => .ok (str s, rest')
    | none => .error .jsonDecodeError
  | fuel + 1, depth, '{' :: rest =>
    match depth with
    | 0 => .error .recursionError
    | depth + 1 =>
      match skipSpace rest with
      | '}' :: rest' => .ok (obj [], rest')
      | rest' => scanMembers fuel depth [] rest'
  | fuel + 1, depth, '[' :: rest =>
    match depth with
    | 0 => .error .recursionError
    | depth + 1 =>
      match skipSpace rest with
      | ']' :: rest' => .ok (arr [], rest')
      | rest' => scanItems fuel depth [] rest'
  | _ + 1, _, cs => scanScalar cs

/-- The items of an array up to its closing bracket. -/
def scanItems : ℕ → ℕ → List Json → List Char → Except PyError (Json × List Char)
  | 0, _, _, _ => .error .jsonDecodeError
  | fuel + 1, depth, items, cs =>
    match scanOnce fuel depth cs with
    | .error e => .error e
    | .ok (v, rest) =>
      match skipSpace rest with
      | ']' :: rest' => .ok (arr (items ++ [v]), rest')
      | ',' :: rest' => scanItems fuel depth (items ++ [v]) (skipSpace rest')
      | _ => .error .jsonDecodeError

/-- The members of an object up to its closing brace. -/
def scanMembers : ℕ → ℕ → List (String × Json) → List Char → Except PyError (Json × List Char)
  | 0, _, _, _ => .error .jsonDecodeError
  | fuel + 1, depth, members, '"' :: rest =>
    match scanstring rest with
    | none => .error .jsonDecodeError
    | some (key, rest) =>
      match skipSpace rest with
      | ':' :: rest =>
        match scanOnce fuel depth (skipSpace rest) with
        | .error e => .error e
        | .ok (v, rest) =>
          match skipSpace rest with
          | '}' :: rest => .ok (obj (insertMember members key v), rest)
          | ',' :: rest => scanMembers fuel depth (insertMember members key v) (skipSpace rest)
          | _ => .error .jsonDecodeError
      | _ => .error .jsonDecodeError
  | _ + 1, _, _, _ => .error .jsonDecodeError

end

/-- `json.loads(s)`. -/
def loads (maxDepth : ℕ) (s : String) : Except PyError Json :=
  match s.toList with
  | '\uFEFF' :: _ => .error .jsonDecodeError
  | cs =>
    match scanOnce (2 * cs.length + 2) maxDepth (skipSpace cs) with
    | .error e => .error e
    | .ok (v, rest) => if skipSpace rest = [] then .ok v else .error .jsonDecodeError

end Json
