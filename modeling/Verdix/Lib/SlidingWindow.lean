import Mathlib.Algebra.Order.Monoid.Defs
import Mathlib.Data.List.DropRight
import Mathlib.Data.List.Induction
import Mathlib.Data.List.Pairwise
import Mathlib.Tactic.Push

/-!
# Sliding windows over sorted times

`inWindow p xs w` counts the times of `xs` in the half-open window from `w` to `w + p`.  Of a sorted
list no window holds more than `r` exactly when entries `r` places apart are at least `p` apart
(`forall_inWindow_le_iff`), so a bound on all windows is a bound on finitely many differences.
-/

namespace SlidingWindow

variable {K : Type*} [AddCommMonoid K] [LinearOrder K]

/-- The times of `xs` in the window of length `p` that starts at `w`. -/
def inWindow (p : K) (xs : List K) (w : K) : ℕ := xs.countP fun x => w ≤ x ∧ x < w + p

/-- Entries `r` places apart are at least `p` apart. -/
def Spaced (r : ℕ) (p : K) (xs : List K) : Prop :=
  ∀ i (h : i + r < xs.length), xs[i] + p ≤ xs[i + r]

variable {r : ℕ} {p : K} {xs : List K}

theorem spaced_nil : Spaced r p ([] : List K) := fun _ h => absurd h (Nat.not_lt_zero _)

theorem Spaced.of_cons {x : K} (h : Spaced r p (x :: xs)) : Spaced r p xs := by
  intro i hi
  have hstep := h (i + 1) (by rw [List.length_cons]; omega)
  simp only [Nat.add_right_comm i 1 r, List.getElem_cons_succ] at hstep
  exact hstep

theorem Spaced.of_append {ys : List K} (h : Spaced r p (xs ++ ys)) : Spaced r p xs := by
  intro i hi
  have hstep := h i (by rw [List.length_append]; omega)
  rwa [List.getElem_append_left (by omega), List.getElem_append_left (by omega)] at hstep

/-- Neighbours that are at least `p` apart. -/
theorem spaced_one_cons {x y : K} (hxy : x + p ≤ y) (h : Spaced 1 p (y :: xs)) :
    Spaced 1 p (x :: y :: xs) := by
  intro i hi
  cases i with
  | zero => exact hxy
  | succ i => exact h i (by simpa using hi)

/-- A list that is not spaced has a first entry that comes too early. -/
theorem exists_first_of_not_spaced (h : ¬ Spaced r p xs) :
    ∃ before x after, xs = before ++ x :: after ∧ Spaced r p before ∧
      ¬ Spaced r p (before ++ [x]) := by
  induction xs using List.reverseRecOn with
  | nil => exact absurd spaced_nil h
  | append_singleton xs x ih =>
    by_cases hxs : Spaced r p xs
    · exact ⟨xs, x, [], rfl, hxs, h⟩
    · obtain ⟨before, y, after, rfl, hbefore, hy⟩ := ih hxs
      exact ⟨before, y, after ++ [x], by simp, hbefore, hy⟩

/-- Only the last entry can be the one that comes too early. -/
theorem lt_of_not_spaced_snoc {x : K} (hxs : Spaced r p xs) (h : ¬ Spaced r p (xs ++ [x])) :
    ∃ (i : ℕ) (hi : i < (xs ++ [x]).length), i + r = xs.length ∧ x < (xs ++ [x])[i] + p := by
  unfold Spaced at h
  push Not at h
  obtain ⟨i, hi, hlt⟩ := h
  rw [List.length_append, List.length_singleton] at hi
  have hlast : i + r = xs.length := by
    by_contra hne
    have hle := hxs i (by omega)
    rw [List.getElem_append_left (by omega), List.getElem_append_left (by omega)] at hlt
    exact absurd hle (not_le.mpr hlt)
  refine ⟨i, by rw [List.length_append, List.length_singleton]; omega, hlast, ?_⟩
  have hx : (xs ++ [x])[i + r] = x := by
    simp only [hlast, List.getElem_concat_length]
  rwa [hx] at hlt

/-- An entry may follow if it comes late enough after all but the last `r` entries. -/
theorem Spaced.snoc {x : K} (hxs : Spaced (r + 1) p xs) (h : ∀ y ∈ xs.rdrop r, y + p ≤ x) :
    Spaced (r + 1) p (xs ++ [x]) := by
  by_contra hnot
  obtain ⟨i, hi, hlast, hlt⟩ := lt_of_not_spaced_snoc hxs hnot
  have hmem : (xs ++ [x])[i] ∈ xs.rdrop r := by
    rw [List.getElem_append_left (by omega)]
    exact List.mem_take_iff_getElem.mpr ⟨i, by omega, rfl⟩
  exact absurd (h _ hmem) (not_le.mpr hlt)

omit [AddCommMonoid K] in
theorem getElem_le_getElem (hs : xs.Pairwise (· ≤ ·)) {i j : ℕ} (hj : j < xs.length) (hij : i ≤ j) :
    xs[i] ≤ xs[j] := by
  rcases Nat.eq_or_lt_of_le hij with rfl | hlt
  · exact le_rfl
  · exact List.pairwise_iff_getElem.mp hs i j (by omega) hj hlt

omit [AddCommMonoid K] in
/-- The entries of a sorted list below a bound come first. -/
theorem getElem_lt_of_lt_countP {b : K} {k : ℕ} (hs : xs.Pairwise (· ≤ ·))
    (h : k < xs.countP fun x => x < b) (hk : k < xs.length) : xs[k] < b := by
  by_contra hge
  rw [not_lt] at hge
  have hdrop : (xs.drop k).countP (fun x => x < b) = 0 := by
    rw [List.countP_eq_zero]
    intro x hx
    obtain ⟨j, hj, rfl⟩ := List.mem_iff_getElem.mp hx
    rw [List.length_drop] at hj
    rw [List.getElem_drop, decide_eq_true_eq, not_lt]
    exact hge.trans (getElem_le_getElem hs (by omega) (by omega))
  have htake : (xs.take k).countP (fun x => x < b) ≤ k :=
    List.countP_le_length.trans (List.length_take_le k xs)
  rw [← List.take_append_drop k xs, List.countP_append, hdrop] at h
  omega

/-- A window that starts at an entry holds the `r` entries after it that are in reach. -/
theorem lt_inWindow (hs : xs.Pairwise (· ≤ ·)) {i : ℕ} (hi : i + r < xs.length)
    (h : xs[i + r] < xs[i] + p) : r < inWindow p xs xs[i] := by
  have hsub : ((xs.drop i).take (r + 1)).Sublist xs :=
    (List.take_sublist _ _).trans (List.drop_sublist _ _)
  have hall : ((xs.drop i).take (r + 1)).countP (fun x => xs[i] ≤ x ∧ x < xs[i] + p) = r + 1 := by
    have hlen : ((xs.drop i).take (r + 1)).length = r + 1 := by
      rw [List.length_take, List.length_drop]
      omega
    rw [← hlen, hlen, List.countP_eq_length.mpr, hlen]
    intro x hx
    obtain ⟨j, hj, rfl⟩ := List.mem_iff_getElem.mp hx
    rw [hlen] at hj
    rw [List.getElem_take, List.getElem_drop, decide_eq_true_eq]
    exact ⟨getElem_le_getElem hs (by omega) (by omega),
      lt_of_le_of_lt (getElem_le_getElem hs hi (by omega)) h⟩
  have hle := hsub.countP_le (p := fun x => decide (xs[i] ≤ x ∧ x < xs[i] + p))
  unfold inWindow
  omega

variable [IsOrderedAddMonoid K]

/-- Entries `q * r` places apart are at least `q • p` apart. -/
theorem Spaced.add_nsmul_le (h : Spaced r p xs) (q i : ℕ) (hi : i + q * r < xs.length) :
    xs[i] + q • p ≤ xs[i + q * r] := by
  induction q with
  | zero => simp
  | succ q ih =>
    have hidx : i + q * r + r = i + (q + 1) * r := by rw [Nat.succ_mul, Nat.add_assoc]
    have hstep := h (i + q * r) (by omega)
    simp only [hidx] at hstep
    calc xs[i] + (q + 1) • p = xs[i] + q • p + p := by rw [succ_nsmul, add_assoc]
      _ ≤ xs[i + q * r] + p := add_le_add_left (ih (by omega)) p
      _ ≤ xs[i + (q + 1) * r] := hstep

/-- No window of a spaced list holds more than `r` of its entries. -/
theorem Spaced.inWindow_le (hs : xs.Pairwise (· ≤ ·)) (h : Spaced r p xs) (w : K) :
    inWindow p xs w ≤ r := by
  induction xs with
  | nil => exact Nat.zero_le _
  | cons x xs ih =>
    obtain ⟨hx, hs⟩ := List.pairwise_cons.mp hs
    have hrest := ih hs h.of_cons
    unfold inWindow at hrest ⊢
    by_cases hin : w ≤ x ∧ x < w + p
    · rw [List.countP_cons_of_pos (by simpa using hin)]
      by_contra hmore
      -- the window holds `x` and `r` entries after it, so the one `r` places on as well
      have hcount : (xs.countP fun y => w ≤ y ∧ y < w + p) ≤ xs.countP fun y => y < w + p := by
        refine List.countP_mono_left fun y _ hy => ?_
        simp only [decide_eq_true_eq] at hy ⊢
        exact hy.2
      have hlength : (xs.countP fun y => y < w + p) ≤ xs.length := List.countP_le_length
      rcases Nat.eq_zero_or_pos r with rfl | hr
      · have h0 := h 0 (by simp)
        exact absurd (lt_of_lt_of_le hin.2 (add_le_add_left hin.1 p)) (not_lt.mpr h0)
      · have hlen : r - 1 < xs.length := by omega
        have hlt := getElem_lt_of_lt_countP (b := w + p) (k := r - 1) hs (by omega) hlen
        have hsp := h 0 (by rw [List.length_cons]; omega)
        have hlen' : 0 + r < (x :: xs).length := by
          rw [List.length_cons]
          omega
        have hidx : (x :: xs)[0 + r] = xs[r - 1] := by
          obtain ⟨r, rfl⟩ : ∃ r', r = r' + 1 := ⟨r - 1, by omega⟩
          simp
        rw [hidx] at hsp
        have hreach : w + p ≤ x + p := add_le_add_left hin.1 p
        exact absurd (lt_of_lt_of_le hlt (hreach.trans hsp)) (lt_irrefl _)
    · rw [List.countP_cons_of_neg (by simpa using hin)]
      exact hrest

/-- A bound on every window is a bound on the entries `r` places apart. -/
theorem forall_inWindow_le_iff (hs : xs.Pairwise (· ≤ ·)) :
    (∀ w, inWindow p xs w ≤ r) ↔ Spaced r p xs := by
  constructor
  · intro hall i hi
    by_contra hlt
    exact absurd (hall xs[i]) (not_le.mpr (lt_inWindow hs hi (not_le.mp hlt)))
  · exact fun h => h.inWindow_le hs

end SlidingWindow
