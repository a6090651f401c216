import Mathlib.Data.String.Basic
import Mathlib.Tactic.SplitIfs
import Verdix.Lib.FixedWidth

/-!
# The byte order of texts

UTF-8 was made so that comparing the bytes of two texts compares their code points: the first byte
of a character grows with the number of bytes that follow it, and characters of one length are
written with their digits in base 64, the highest first.  `bytes_le_iff`: the lexicographic order of
the bytes is the order of the texts.
-/

namespace Utf8

/-- The first byte of a code point. -/
def lead (v : ℕ) : ℕ :=
  if v ≤ 0x7f then v
  else if v ≤ 0x7ff then v / 64 + 0xc0
  else if v ≤ 0xffff then v / 4096 + 0xe0
  else v / 262144 + 0xf0

/-- The bytes after it. -/
def rest (v : ℕ) : List ℕ :=
  if v ≤ 0x7f then []
  else if v ≤ 0x7ff then [v % 64 + 0x80]
  else if v ≤ 0xffff then [v / 64 % 64 + 0x80, v % 64 + 0x80]
  else [v / 4096 % 64 + 0x80, v / 64 % 64 + 0x80, v % 64 + 0x80]

/-- The bytes of a list of characters. -/
def encode (l : List Char) : List ℕ := l.flatMap fun c => lead c.toNat :: rest c.toNat

/-- The bytes of a text as numbers. -/
def bytes (s : String) : List ℕ := s.toByteArray.data.toList.map UInt8.toNat

/-! ### The encoding -/

theorem toNat_lt (c : Char) : c.toNat < 0x110000 := by
  have hvalid : c.toNat < 0xd800 ∨ 0xdfff < c.toNat ∧ c.toNat < 0x110000 := c.valid
  omega

theorem map_toNat_utf8EncodeChar (c : Char) :
    (String.utf8EncodeChar c).map UInt8.toNat = lead c.toNat :: rest c.toNat := by
  have hc : c.val.toNat < 0x110000 := toNat_lt c
  unfold String.utf8EncodeChar lead rest
  show List.map UInt8.toNat (let v := c.val.toNat; _) = (if c.val.toNat ≤ _ then _ else _) :: _
  rw [show c.toNat = c.val.toNat from rfl]
  generalize c.val.toNat = v at hc ⊢
  dsimp only
  split_ifs
  · simp only [List.map_cons, List.map_nil, UInt8.toNat_ofNat', List.cons.injEq, and_true]
    omega
  · simp only [List.map_cons, List.map_nil, UInt8.toNat_ofNat', List.cons.injEq, and_true]
    omega
  · simp only [List.map_cons, List.map_nil, UInt8.toNat_ofNat', List.cons.injEq, and_true]
    omega
  · simp only [List.map_cons, List.map_nil, UInt8.toNat_ofNat', List.cons.injEq, and_true]
    omega

theorem bytes_eq (s : String) : bytes s = encode s.toList := by
  rw [bytes, ← String.utf8Encode_toList, List.utf8Encode, List.data_toByteArray]
  rw [List.toList_toArray, List.map_flatMap, encode]
  congr 1
  ext c
  rw [map_toNat_utf8EncodeChar]

/-! ### The order -/

/-- Of two characters the smaller has the smaller first byte, or the same one with as many bytes
after it. -/
theorem lead_lt_or {v w : ℕ} (h : v < w) :
    lead v < lead w ∨
      lead v = lead w ∧ (rest v).length = (rest w).length ∧ rest v < rest w := by
  unfold lead rest
  split_ifs <;> simp [List.cons_lt_cons_iff] <;> omega

theorem cons_rest_lt {v w : ℕ} (h : v < w) (x y : List ℕ) :
    lead v :: rest v ++ x < lead w :: rest w ++ y := by
  rw [List.cons_append, List.cons_append, List.cons_lt_cons_iff]
  apply (lead_lt_or h).imp_right
  rintro ⟨hlead, hlength, hrest⟩
  exact ⟨hlead, FixedWidth.append_lt_append_of_length_eq hlength hrest x y⟩

theorem encode_strictMono : StrictMono encode := by
  intro l m
  induction l generalizing m with
  | nil =>
    intro h
    cases m with
    | nil => exact absurd h (lt_irrefl _)
    | cons d m => exact List.nil_lt_cons _ _
  | cons c l ih =>
    intro h
    cases m with
    | nil => exact absurd h (List.not_lt_nil _)
    | cons d m =>
      show lead c.toNat :: rest c.toNat ++ encode l < lead d.toNat :: rest d.toNat ++ encode m
      rcases List.cons_lt_cons_iff.mp h with hlt | ⟨rfl, hlt⟩
      · exact cons_rest_lt hlt _ _
      · exact List.append_left_lt (ih hlt)

theorem bytes_lt_iff {s t : String} : bytes s < bytes t ↔ s < t := by
  rw [bytes_eq, bytes_eq, encode_strictMono.lt_iff_lt, String.lt_iff_toList_lt]

/-- Comparing the bytes compares the texts. -/
theorem bytes_le_iff {s t : String} : bytes s ≤ bytes t ↔ s ≤ t := by
  rw [← not_lt, bytes_lt_iff, not_lt]

end Utf8
