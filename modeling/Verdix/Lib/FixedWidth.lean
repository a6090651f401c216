import Mathlib.Algebra.Group.Nat.Defs
import Mathlib.Data.List.Lex
import Mathlib.Data.Char
import Mathlib.Order.Monotone.Basic

/-!
# Zero-padded decimal fields

`pad w n` writes `n` in decimal with exactly `w` digits.  Among numbers that fit, the
lexicographic order of the texts is the order of the numbers (`pad_lt_pad`), so a record written as
a sequence of such fields is ordered by its first differing field
(`append_lt_append_of_length_eq`, `List.append_left_lt`).
-/

namespace FixedWidth

/-- The character of a decimal digit. -/
def digit (d : ℕ) : Char := Char.ofNat ('0'.toNat + d)

/-- `n` in decimal with exactly `w` digits, zeros in front (higher digits are dropped). -/
def pad : ℕ → ℕ → List Char
  | 0, _ => []
  | w + 1, n => pad w (n / 10) ++ [digit (n % 10)]

@[simp]
theorem length_pad (w n : ℕ) : (pad w n).length = w := by
  induction w generalizing n with
  | zero => rfl
  | succ w ih => simp [pad, ih]

theorem digit_lt_digit : ∀ d < 10, ∀ e < 10, d < e → digit d < digit e := by decide

/-- A difference inside two texts of one length decides, whatever follows. -/
theorem append_lt_append_of_length_eq {α : Type*} [LT α] {u v : List α}
    (hlen : u.length = v.length) (h : u < v) (x y : List α) : u ++ x < v ++ y := by
  induction u generalizing v with
  | nil =>
    obtain rfl := List.length_eq_zero_iff.mp hlen.symm
    exact absurd h (List.not_lt_nil _)
  | cons a u ih =>
    match v, hlen, h with
    | b :: v, hlen, h =>
      rw [List.cons_append, List.cons_append]
      rcases List.cons_lt_cons_iff.mp h with hab | ⟨rfl, huv⟩
      · exact List.cons_lt_cons_iff.mpr (.inl hab)
      · exact List.cons_lt_cons_iff.mpr (.inr ⟨rfl, ih (by simpa using hlen) huv⟩)

/-- Texts that start with a field of one length, written in the order of the numbers, compare by the
field first. -/
theorem field_append_lt_iff {field : ℕ → List Char} {n m : ℕ} {x y : List Char}
    (hlen : (field n).length = (field m).length) (hlt : n < m → field n < field m)
    (hgt : m < n → field m < field n) :
    field n ++ x < field m ++ y ↔ n < m ∨ n = m ∧ x < y := by
  rcases Nat.lt_trichotomy n m with h | rfl | h
  · exact iff_of_true (append_lt_append_of_length_eq hlen (hlt h) _ _) (.inl h)
  · simp only [lt_irrefl, true_and, false_or]
    constructor
    · intro hxy
      by_contra hnot
      rcases (not_lt.mp hnot).lt_or_eq with hyx | rfl
      · exact lt_asymm hxy (List.append_left_lt hyx)
      · exact lt_irrefl _ hxy
    · exact List.append_left_lt
  · refine iff_of_false (lt_asymm (append_lt_append_of_length_eq hlen.symm (hgt h) _ _)) ?_
    omega

/-- Numbers compare by their quotients, then by their remainders, then by what follows. -/
theorem div_mod_lt_iff {n m : ℕ} (d : ℕ) {P : Prop} :
    (n / d < m / d ∨ n / d = m / d ∧ (n % d < m % d ∨ n % d = m % d ∧ P)) ↔
      n < m ∨ n = m ∧ P := by
  have hn := Nat.div_add_mod n d
  have hm := Nat.div_add_mod m d
  rcases Nat.lt_trichotomy (n / d) (m / d) with h | h | h
  · exact iff_of_true (.inl h) (.inl (Nat.lt_of_div_lt_div h))
  · rw [h] at hn
    have hlt : n % d < m % d ↔ n < m := by omega
    have heq : n % d = m % d ↔ n = m := by omega
    simp only [h, lt_irrefl, true_and, false_or, hlt, heq]
  · have hlt : m < n := Nat.lt_of_div_lt_div h
    refine iff_of_false ?_ ?_ <;> omega

/-- Fixed-width texts are ordered like the numbers they write. -/
theorem pad_lt_pad {w n m : ℕ} (h : n < m) (hm : m < 10 ^ w) : pad w n < pad w m := by
  induction w generalizing n m with
  | zero => omega
  | succ w ih =>
    rw [Nat.pow_succ] at hm
    rcases Nat.lt_or_eq_of_le (Nat.div_le_div_right (c := 10) h.le) with hdiv | hdiv
    · exact append_lt_append_of_length_eq (by simp) (ih hdiv (by omega)) _ _
    · rw [pad, pad, hdiv]
      refine List.append_left_lt (List.cons_lt_cons_iff.mpr (.inl ?_))
      exact digit_lt_digit _ (Nat.mod_lt _ (by omega)) _ (Nat.mod_lt _ (by omega)) (by omega)

theorem pad_append_lt_iff {w n m : ℕ} {x y : List Char} (hn : n < 10 ^ w) (hm : m < 10 ^ w) :
    pad w n ++ x < pad w m ++ y ↔ n < m ∨ n = m ∧ x < y :=
  field_append_lt_iff (by simp) (pad_lt_pad · hm) (pad_lt_pad · hn)

theorem cons_lt_iff {c : Char} {x y : List Char} : c :: x < c :: y ↔ x < y := by
  simp

end FixedWidth
