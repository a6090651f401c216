import Mathlib.Data.List.Basic
import Mathlib.Tactic.Ring

/-!
# Reading a text file

What `open(path, "r", encoding="utf-8", errors="replace")` yields line by line.  The decoder works
byte by byte: an invalid sequence becomes one `U+FFFD` for its longest valid start, as does a
sequence the end of the file cuts off.  `'\r'` and `'\r\n'` count as line ends.

An ASCII byte is no part of a longer sequence, so the decoder splits there (`decode_append_cons`),
and so do the line ends at `'\n'` (`lines_append_newline`).
-/

namespace TextFile

/-! ### Decoding -/

/-- A sequence that has begun: the continuation bytes it owes after the next one, the bounds of the
next one, and the value so far.  No such sequence stands for an ASCII character. -/
structure Pending where
  owed : ℕ
  low : ℕ
  high : ℕ
  value : ℕ
  continuation : 0x80 ≤ low
  wide : 0x80 ≤ (value * 64 + (low - 0x80)) * 64 ^ owed

/-- The sequences a byte can begin. -/
def lead (b : ℕ) : Option Pending :=
  if h : 0xC2 ≤ b ∧ b ≤ 0xDF then some ⟨0, 0x80, 0xBF, b - 0xC0, by decide, by omega⟩
  else if b = 0xE0 then some ⟨1, 0xA0, 0xBF, 0, by decide, by decide⟩
  else if b = 0xED then some ⟨1, 0x80, 0x9F, 0xD, by decide, by decide⟩
  else if h : 0xE1 ≤ b ∧ b ≤ 0xEF then some ⟨1, 0x80, 0xBF, b - 0xE0, by decide, by omega⟩
  else if b = 0xF0 then some ⟨2, 0x90, 0xBF, 0, by decide, by decide⟩
  else if b = 0xF4 then some ⟨2, 0x80, 0x8F, 4, by decide, by decide⟩
  else if h : 0xF1 ≤ b ∧ b ≤ 0xF3 then some ⟨2, 0x80, 0xBF, b - 0xF0, by decide, by omega⟩
  else none

/-- The decoder between two characters, on one byte: the text it emits and where it stands then. -/
def begin (b : ℕ) : List Char × Option Pending :=
  if b < 0x80 then ([Char.ofNat b], none)
  else match lead b with
    | some p => ([], some p)
    | none => (['\uFFFD'], none)

/-- The decoder on one byte. -/
def step : Option Pending → ℕ → List Char × Option Pending
  | none, b => begin b
  | some p, b =>
    if h : p.low ≤ b ∧ b ≤ p.high then
      match hp : p.owed with
      | 0 => ([Char.ofNat (p.value * 64 + (b - 0x80))], none)
      | owed + 1 => ([], some ⟨owed, 0x80, 0xBF, p.value * 64 + (b - 0x80), le_rfl, by
          have hw := p.wide
          rw [hp, pow_succ, ← mul_assoc] at hw
          have : (p.value * 64 + (p.low - 0x80)) * 64 ^ owed ≤
              (p.value * 64 + (b - 0x80)) * 64 ^ owed := Nat.mul_le_mul_right _ (by omega)
          calc 0x80 ≤ (p.value * 64 + (p.low - 0x80)) * 64 ^ owed * 64 := hw
            _ ≤ (p.value * 64 + (b - 0x80)) * 64 ^ owed * 64 := Nat.mul_le_mul_right _ this
            _ = ((p.value * 64 + (b - 0x80)) * 64 + (0x80 - 0x80)) * 64 ^ owed := by ring⟩)
    else ('\uFFFD' :: (begin b).1, (begin b).2)

/-- The end of the file cuts off a pending sequence. -/
def finish : Option Pending → List Char
  | none => []
  | some _ => ['\uFFFD']

/-- The text of the bytes up to the end of the file. -/
def decode : Option Pending → List UInt8 → List Char
  | σ, [] => finish σ
  | σ, b :: bs => (step σ b.toNat).1 ++ decode (step σ b.toNat).2 bs

/-- The decoder without replacement on one byte; `none` where it raises. -/
def strictStep : Option Pending → ℕ → Option (List Char × Option Pending)
  | none, b => if b < 0x80 then some (begin b) else (lead b).map fun p => ([], some p)
  | some p, b => if p.low ≤ b ∧ b ≤ p.high then some (step (some p) b) else none

/-- The text of the bytes for `errors="strict"`. -/
def decodeStrict : Option Pending → List UInt8 → Option (List Char)
  | none, [] => some []
  | some _, [] => none
  | σ, b :: bs =>
    (strictStep σ b.toNat).bind fun next =>
      (decodeStrict next.2 bs).map fun text => next.1 ++ text

theorem step_ascii (σ : Option Pending) {b : ℕ} (h : b < 0x80) :
    step σ b = (finish σ ++ [Char.ofNat b], none) := by
  cases σ with
  | none => simp [step, begin, finish, h]
  | some p =>
    have hp := p.continuation
    rw [step, dif_neg (by omega), begin, if_pos h]
    rfl

/-- The decoder splits at an ASCII byte. -/
theorem decode_append_cons (σ : Option Pending) (xs ys : List UInt8) {b : UInt8}
    (h : b.toNat < 0x80) :
    decode σ (xs ++ b :: ys) = decode σ xs ++ Char.ofNat b.toNat :: decode none ys := by
  induction xs generalizing σ with
  | nil => simp [decode, step_ascii σ h]
  | cons x xs ih => simp [decode, ih]

/-- ASCII text is decoded byte by byte. -/
theorem decode_ascii_append {g : List UInt8} (hg : ∀ b ∈ g, b.toNat < 0x80) (xs : List UInt8) :
    decode none (g ++ xs) = (g.map fun b => Char.ofNat b.toNat) ++ decode none xs := by
  induction g with
  | nil => rfl
  | cons b g ih =>
    rw [List.forall_mem_cons] at hg
    rw [List.cons_append, decode, step_ascii none hg.1, ih hg.2]
    rfl

theorem decode_append_ascii (xs : List UInt8) {g : List UInt8} (hg : ∀ b ∈ g, b.toNat < 0x80) :
    decode none (xs ++ g) = decode none xs ++ g.map fun b => Char.ofNat b.toNat := by
  cases g with
  | nil => simp
  | cons b g =>
    rw [List.forall_mem_cons] at hg
    have := decode_ascii_append hg.2 []
    rw [List.append_nil] at this
    rw [decode_append_cons none xs g hg.1, this]
    simp [decode, finish]

theorem eq_of_ofNat_eq {n : ℕ} {c : Char} (h : Char.ofNat n = c) (hc : c ≠ '\x00') : n = c.toNat := by
  unfold Char.ofNat at h
  by_cases hv : n.isValidChar
  · rw [dif_pos hv] at h
    rw [← h]
    exact (UInt32.toNat_ofNatLT).symm
  · rw [dif_neg hv] at h
    exact absurd h.symm hc

/-- An ASCII character of the text is one of its bytes. -/
theorem mem_of_mem_decode {σ : Option Pending} {xs : List UInt8} {c : Char} (hc : c ≠ '\x00')
    (hlt : c.toNat < 0x80) (h : c ∈ decode σ xs) : ∃ b ∈ xs, b.toNat = c.toNat := by
  have hrep : c ≠ '\uFFFD' := by
    rintro rfl
    contradiction
  induction xs generalizing σ with
  | nil =>
    cases σ with
    | none => contradiction
    | some p => exact absurd (List.mem_singleton.mp h) hrep
  | cons b xs ih =>
    rw [decode, List.mem_append] at h
    rcases h with h | h
    · refine ⟨b, List.mem_cons_self, ?_⟩
      -- a byte that begins a character is that character if it is ASCII
      have hbegin : ∀ {n : ℕ}, c ∈ (begin n).1 → n = c.toNat := by
        intro n hn
        unfold begin at hn
        split_ifs at hn
        · exact eq_of_ofNat_eq (List.mem_singleton.mp hn).symm hc
        · split at hn
          · contradiction
          · exact absurd (List.mem_singleton.mp hn) hrep
      cases σ with
      | none => exact hbegin h
      | some p =>
        rw [step] at h
        split_ifs at h with hcont
        · split at h
          · rename_i hp
            -- a character of several bytes is too large
            have hval := eq_of_ofNat_eq (List.mem_singleton.mp h).symm hc
            have hw := p.wide
            rw [hp, pow_zero, mul_one] at hw
            omega
          · contradiction
        · rcases List.mem_cons.mp h with h | h
          · exact absurd h hrep
          · exact hbegin h
    · obtain ⟨x, hx, heq⟩ := ih h
      exact ⟨x, List.mem_cons_of_mem _ hx, heq⟩

/-! ### Line ends -/

/-- Universal newlines; the flag says that the character before was `'\r'`. -/
def translate : Bool → List Char → List Char
  | _, [] => []
  | afterCr, c :: cs =>
    if c = '\n' ∧ afterCr then translate false cs
    else if c = '\r' then '\n' :: translate true cs
    else c :: translate false cs

/-- The flag after some text. -/
def afterCr (flag : Bool) (cs : List Char) : Bool := cs.getLast?.elim flag (· = '\r')

theorem afterCr_cons (flag : Bool) (c : Char) (cs : List Char) :
    afterCr flag (c :: cs) = afterCr (c = '\r') cs := by
  cases cs with
  | nil => rfl
  | cons d cs =>
    rw [afterCr, afterCr, List.getLast?_cons_cons, List.getLast?_cons]
    rfl

theorem translate_append (flag : Bool) (xs ys : List Char) :
    translate flag (xs ++ ys) = translate flag xs ++ translate (afterCr flag xs) ys := by
  induction xs generalizing flag with
  | nil => rfl
  | cons c xs ih =>
    rw [List.cons_append, translate, translate, afterCr_cons]
    split_ifs with h1 h2
    · rw [ih, h1.1]
      rfl
    · rw [ih, h2]
      rfl
    · rw [ih, List.cons_append, show decide (c = '\r') = false by simpa using h2]

/-- Text without `'\r'` stays as it is, unless it begins with the second half of a line end. -/
theorem translate_of_not_mem {flag : Bool} {cs : List Char} (hr : '\r' ∉ cs)
    (hn : cs.head? ≠ some '\n') : translate flag cs = cs := by
  have hfalse : ∀ {cs : List Char}, '\r' ∉ cs → translate false cs = cs := by
    intro cs hcs
    induction cs with
    | nil => rfl
    | cons c cs ih =>
      rw [List.mem_cons, not_or] at hcs
      rw [translate, if_neg (by simp), if_neg (Ne.symm hcs.1), ih hcs.2]
  cases cs with
  | nil => rfl
  | cons c cs =>
    rw [List.mem_cons, not_or] at hr
    have hc : c ≠ '\n' := fun h => hn (by rw [h]; rfl)
    rw [translate, if_neg (fun h => hc h.1), if_neg (Ne.symm hr.1), hfalse hr.2]

/-- The lines of a text, with their ends, when `line` is what has been read of the first one. -/
def lines : List Char → List Char → List String
  | line, [] => if line = [] then [] else [String.ofList line]
  | line, c :: cs =>
    if c = '\n' then String.ofList (line ++ [c]) :: lines [] cs else lines (line ++ [c]) cs

theorem lines_append_newline (line xs ys : List Char) :
    lines line (xs ++ '\n' :: ys) = lines line (xs ++ ['\n']) ++ lines [] ys := by
  induction xs generalizing line with
  | nil => simp [lines]
  | cons c xs ih =>
    rw [List.cons_append, List.cons_append, lines, lines]
    split_ifs
    · rw [ih, List.cons_append]
    · exact ih _

/-- Characters other than a line end go on the line. -/
theorem lines_append_of_not_mem {xs : List Char} (h : '\n' ∉ xs) (line ys : List Char) :
    lines line (xs ++ ys) = lines (line ++ xs) ys := by
  induction xs generalizing line with
  | nil => simp
  | cons c xs ih =>
    rw [List.mem_cons, not_or] at h
    rw [List.cons_append, lines, if_neg (Ne.symm h.1), ih h.2, List.append_assoc,
      List.singleton_append]

/-- Iterating over the file from some position on. -/
def readLines (bytes : List UInt8) : List String := lines [] (translate false (decode none bytes))

/-- The lines split at a line feed. -/
theorem readLines_append_newline (xs ys : List UInt8) :
    readLines (xs ++ 0x0A :: ys) = readLines (xs ++ [0x0A]) ++ readLines ys := by
  have hsplit : ∀ zs : List UInt8, decode none (xs ++ 0x0A :: zs) =
      decode none xs ++ '\n' :: decode none zs :=
    fun zs => decode_append_cons none xs zs (b := 0x0A) (by decide)
  unfold readLines
  rw [hsplit, hsplit, translate_append, translate_append]
  by_cases hcr : afterCr false (decode none xs)
  · -- the line feed belongs to a line end that has been seen
    obtain ⟨t, ht⟩ : ∃ t, translate false (decode none xs) = t ++ ['\n'] := by
      obtain ⟨c, hc, hr⟩ : ∃ c, (decode none xs).getLast? = some c ∧ c = '\r' := by
        unfold afterCr at hcr
        cases hlast : (decode none xs).getLast? with
        | none => simp [hlast] at hcr
        | some c => exact ⟨c, rfl, by simpa [hlast] using hcr⟩
      obtain ⟨u, hu⟩ := List.getLast?_eq_some_iff.mp hc
      exact ⟨translate false u, by rw [hu, hr, translate_append]; rfl⟩
    have hskip : ∀ cs : List Char, translate true ('\n' :: cs) = translate false cs := fun cs => by
      rw [translate, if_pos ⟨rfl, rfl⟩]
    rw [hcr, hskip, hskip, ht, List.append_assoc, List.singleton_append, lines_append_newline,
      List.append_assoc]
    rfl
  · have hkeep : ∀ cs : List Char, translate false ('\n' :: cs) = '\n' :: translate false cs :=
      fun cs => by rw [translate, if_neg (by simp), if_neg (by decide)]
    rw [Bool.eq_false_iff.mpr hcr, hkeep, hkeep, lines_append_newline]
    rfl

end TextFile

-- a sequence cut off in the middle, an invalid byte, and the three line ends
example : TextFile.readLines [0x61, 0xE2, 0x82, 0x0D, 0x0A, 0xFF, 0x62, 0x0D, 0xC3, 0xA9, 0x0A] =
    ["a\uFFFD\n", "\uFFFDb\n", "é\n"] := by
  decide +kernel
