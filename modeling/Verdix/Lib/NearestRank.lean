import Mathlib.Data.List.Sort
import Mathlib.Order.Bounds.Basic

/-!
# Percentiles by nearest rank

The percentile `p / q` of a list is its least element that is not exceeded by less than the part
`p / q` of the list (`IsPercentile`).  An element stands at position `k` of the sorted list when at
most `k` elements are below it and more than `k` are not above it (`getElem?_insertionSort_iff`), so
both notions come down to counting.  `isPercentile_floor_iff` compares them for the position that is
found by truncating `p * n / q` and going back one.
-/

namespace NearestRank

variable {α : Type*} [LinearOrder α] {xs : List α} {v w : α} {p q k : ℕ}

/-- How many elements are below `v`. -/
def below (xs : List α) (v : α) : ℕ := xs.countP (· < v)

/-- How many elements are not above `v`. -/
def upTo (xs : List α) (v : α) : ℕ := xs.countP (· ≤ v)

/-- The percentile `p / q` by nearest rank. -/
def IsPercentile (p q : ℕ) (xs : List α) (v : α) : Prop :=
  IsLeast {v | v ∈ xs ∧ p * xs.length ≤ q * upTo xs v} v

/-! ### Counting -/

theorem upTo_le_below (h : v < w) : upTo xs v ≤ below xs w :=
  List.countP_mono_left fun u _ hu => by
    simp only [decide_eq_true_eq] at hu ⊢
    exact hu.trans_lt h

theorem below_mono (h : v ≤ w) : below xs v ≤ below xs w :=
  List.countP_mono_left fun u _ hu => by
    simp only [decide_eq_true_eq] at hu ⊢
    exact hu.trans_le h

theorem mem_of_below_lt_upTo (h : below xs v < upTo xs v) : v ∈ xs := by
  by_contra hv
  have hsame : upTo xs v = below xs v := by
    apply List.countP_congr
    intro w hw
    have hne : w ≠ v := fun hwv => hv (hwv ▸ hw)
    simp [le_iff_lt_or_eq, hne]
  omega

/-! ### Positions in the sorted list -/

/-- In a sorted list a value stands at the places from its strict rank up to its rank. -/
theorem getElem?_iff_of_pairwise (h : xs.Pairwise (· ≤ ·)) :
    xs[k]? = some v ↔ below xs v ≤ k ∧ k < upTo xs v := by
  induction xs generalizing k with
  | nil => simp [below, upTo]
  | cons a xs ih =>
    obtain ⟨ha, hxs⟩ := List.pairwise_cons.mp h
    rcases lt_trichotomy a v with hav | rfl | hva
    · -- it is counted on both sides
      have hbelow : below (a :: xs) v = below xs v + 1 :=
        List.countP_cons_of_pos (by simpa using hav)
      have hupTo : upTo (a :: xs) v = upTo xs v + 1 :=
        List.countP_cons_of_pos (by simpa using hav.le)
      rw [hbelow, hupTo]
      cases k with
      | zero => simp [hav.ne]
      | succ k =>
        rw [List.getElem?_cons_succ, ih hxs]
        omega
    · -- nothing is below it
      have hnone : below (a :: xs) a = 0 := by
        apply List.countP_eq_zero.mpr
        intro b hb
        rcases List.mem_cons.mp hb with rfl | hb
        · simp
        · simpa using ha b hb
      have hupTo : upTo (a :: xs) a = upTo xs a + 1 := List.countP_cons_of_pos (by simp)
      have hrest : below xs a ≤ below (a :: xs) a := (List.sublist_cons_self a xs).countP_le
      rw [hnone, hupTo]
      cases k with
      | zero => simp
      | succ k =>
        rw [List.getElem?_cons_succ, ih hxs]
        omega
    · -- it and all after it are above
      have habove : ∀ b ∈ a :: xs, v < b := by
        intro b hb
        rcases List.mem_cons.mp hb with rfl | hb
        · exact hva
        · exact hva.trans_le (ha b hb)
      have hupTo : upTo (a :: xs) v = 0 := by
        apply List.countP_eq_zero.mpr
        intro b hb
        simpa using habove b hb
      rw [hupTo]
      constructor
      · intro hk
        exact absurd (habove v (List.mem_of_getElem? hk)) (lt_irrefl v)
      · intro hk
        omega

/-- Sorting puts it there. -/
theorem getElem?_insertionSort_iff :
    (xs.insertionSort (· ≤ ·))[k]? = some v ↔ below xs v ≤ k ∧ k < upTo xs v := by
  have hperm := List.perm_insertionSort (· ≤ ·) xs
  rw [getElem?_iff_of_pairwise (List.pairwise_insertionSort (· ≤ ·) xs), below, below, upTo, upTo,
    hperm.countP_eq, hperm.countP_eq]

theorem exists_getElem?_insertionSort (h : k < xs.length) :
    ∃ v, (xs.insertionSort (· ≤ ·))[k]? = some v := by
  rw [← List.length_insertionSort (· ≤ ·) xs] at h
  exact ⟨_, List.getElem?_eq_getElem h⟩

/-- Some element is the last one below `v`. -/
theorem exists_upTo_eq_below (h : 0 < below xs v) : ∃ w ∈ xs, w < v ∧ upTo xs w = below xs v := by
  have hlength : below xs v ≤ xs.length := List.countP_le_length
  have hlast : below xs v - 1 < xs.length := by omega
  obtain ⟨w, hw⟩ := exists_getElem?_insertionSort hlast
  rw [getElem?_insertionSort_iff] at hw
  have hlt : w < v := by
    by_contra hvw
    have hmono : below xs v ≤ below xs w := below_mono (not_lt.mp hvw)
    omega
  have hle : upTo xs w ≤ below xs v := upTo_le_below hlt
  exact ⟨w, mem_of_below_lt_upTo (by omega), hlt, by omega⟩

/-! ### The percentile -/

/-- A value is the percentile iff the wanted rank lies between its strict rank and its rank. -/
theorem isPercentile_iff (hpos : 0 < p * xs.length) :
    IsPercentile p q xs v ↔ q * below xs v < p * xs.length ∧ p * xs.length ≤ q * upTo xs v := by
  constructor
  · rintro ⟨⟨-, hcovers⟩, hleast⟩
    refine ⟨?_, hcovers⟩
    by_contra hbelow
    have hsome : 0 < below xs v := by
      by_contra hnone
      have hzero : below xs v = 0 := by omega
      rw [hzero, Nat.mul_zero] at hbelow
      omega
    obtain ⟨w, hw, hlt, hupTo⟩ := exists_upTo_eq_below hsome
    have hvw : v ≤ w := hleast ⟨hw, by rw [hupTo]; omega⟩
    exact absurd hlt (not_lt.mpr hvw)
  · rintro ⟨hbelow, hcovers⟩
    have hmem : v ∈ xs := mem_of_below_lt_upTo (Nat.lt_of_mul_lt_mul_left (a := q) (by omega))
    refine ⟨⟨hmem, hcovers⟩, ?_⟩
    rintro w ⟨-, hw⟩
    by_contra hlt
    have hle : upTo xs w ≤ below xs v := upTo_le_below (not_le.mp hlt)
    have hmul : q * upTo xs w ≤ q * below xs v := Nat.mul_le_mul_left q hle
    omega

/-- A product that is truncated covers one element more. -/
theorem le_mul_iff_div_lt {n u : ℕ} (hq : 0 < q) (hdvd : ¬q ∣ n) : n ≤ q * u ↔ n / q < u := by
  rw [Nat.div_lt_iff_lt_mul hq, Nat.mul_comm u q]
  have hne : n ≠ q * u := fun h => hdvd ⟨u, h⟩
  omega

/-- The element before position `⌊p * n / q⌋` is the percentile exactly when the product is not
truncated, when it is less than one, or when the next element in the order is no greater. -/
theorem isPercentile_floor_iff (hq : 0 < q) (hpos : 0 < p * xs.length)
    (hv : (xs.insertionSort (· ≤ ·))[p * xs.length / q - 1]? = some v) :
    IsPercentile p q xs v ↔ q ∣ p * xs.length ∨ p * xs.length < q ∨
      ∃ w, below xs w < p * xs.length / q ∧ p * xs.length / q < upTo xs w := by
  rw [isPercentile_iff hpos]
  obtain ⟨hbelow, hupTo⟩ := getElem?_insertionSort_iff.mp hv
  generalize hn : p * xs.length = n at *
  have hdiv : q * (n / q) ≤ n := Nat.mul_div_le n q
  have hfirst : q * below xs v < n := by
    rcases Nat.eq_zero_or_pos (n / q) with hzero | hsome
    · rw [show below xs v = 0 by omega]
      omega
    · have hstep : q * (below xs v + 1) ≤ q * (n / q) := Nat.mul_le_mul_left q (by omega)
      rw [Nat.mul_succ] at hstep
      omega
  by_cases hdvd : q ∣ n
  · have hexact : q * (n / q) = n := Nat.mul_div_cancel' hdvd
    have hsome : 0 < n / q := Nat.div_pos (Nat.le_of_dvd hpos hdvd) hq
    have hcovers : q * (n / q) ≤ q * upTo xs v := Nat.mul_le_mul_left q (by omega)
    exact iff_of_true ⟨hfirst, by omega⟩ (.inl hdvd)
  rw [le_mul_iff_div_lt hq hdvd]
  by_cases hless : n < q
  · rw [Nat.div_eq_of_lt hless] at hupTo ⊢
    exact iff_of_true ⟨hfirst, hupTo⟩ (.inr (.inl hless))
  have hsome : 0 < n / q := Nat.div_pos (by omega) hq
  constructor
  · rintro ⟨-, hnext⟩
    exact .inr (.inr ⟨v, by omega, hnext⟩)
  · rintro (h | h | ⟨w, hw, hnext⟩)
    · exact absurd h hdvd
    · exact absurd h hless
    · -- it stands at the same position
      have hsame : (xs.insertionSort (· ≤ ·))[n / q - 1]? = some w :=
        getElem?_insertionSort_iff.mpr ⟨by omega, by omega⟩
      obtain rfl : v = w := Option.some.inj (hv.symm.trans hsame)
      exact ⟨hfirst, hnext⟩

end NearestRank
