import Verdix.Lib.SlidingWindow
import Mathlib.Algebra.Order.Field.Basic
import Mathlib.Tactic.FieldSimp
import Mathlib.Tactic.Linarith
import Mathlib.Tactic.Ring

/-!
# Token buckets

A bucket holds at most `r` tokens and gains `r` of them in each time `p`, a fraction at a time.
Requests take one token each, in order; `serve` lists the times at which they get it.

`serve_spaced_iff`: a full bucket serves at most `r` requests in every window of length `p` exactly
when `r = 1` or no window holds more than `r` of the requests.  A bucket of two tokens or more never
slows a burst down enough: what it saved up and what it gains meanwhile fall into one window.

The proof follows the bucket back to the request `e` at which it was last full.  Since then it has
gained `(t - e) * (r / p)` tokens and given one to each request (`FullSince`), and requests that are
spaced by `p` in steps of `r` never ask for more.
-/

namespace TokenBucket

open SlidingWindow

variable {K : Type*} [Field K] [LinearOrder K]

/-- The tokens in a bucket, and when they were last counted. -/
structure Bucket (K : Type*) where
  tokens : K
  last : K

/-- The tokens at `t`. -/
def fill (r : ℕ) (p : K) (b : Bucket K) (t : K) : K := min r (b.tokens + (t - b.last) * (r / p))

/-- When a request made at `t` gets its token, and the bucket it leaves. -/
def take (r : ℕ) (p : K) (b : Bucket K) (t : K) : K × Bucket K :=
  if 1 ≤ fill r p b t then (t, ⟨fill r p b t - 1, t⟩)
  else (t + (1 - fill r p b t) * (p / r), ⟨0, t + (1 - fill r p b t) * (p / r)⟩)

/-- When each of the requests gets its token; one that comes before the request ahead of it is served
waits for that. -/
def serve (r : ℕ) (p : K) : Bucket K → List K → List K
  | _, [] => []
  | b, a :: as =>
    (take r p b (max a b.last)).1 :: serve r p (take r p b (max a b.last)).2 as

variable {r : ℕ} {p t : K} {b : Bucket K} {as done : List K}

@[simp]
theorem length_serve : (serve r p b as).length = as.length := by
  induction as generalizing b with
  | nil => rfl
  | cons a as ih => rw [serve, List.length_cons, List.length_cons, ih]

theorem take_last : (take r p b t).2.last = (take r p b t).1 := by
  unfold take
  split
  · rfl
  · rfl

variable [IsStrictOrderedRing K]

/-! ### The order of service -/

theorem le_take (hr : 1 ≤ r) (hp : 0 < p) : t ≤ (take r p b t).1 := by
  unfold take
  split
  · exact le_rfl
  · rename_i hlow
    have hr' : (0 : K) < r := by exact_mod_cast hr
    exact le_add_of_nonneg_right (mul_nonneg (sub_nonneg.mpr (not_le.mp hlow).le)
      (div_nonneg hp.le hr'.le))

theorem last_le_of_mem_serve (hr : 1 ≤ r) (hp : 0 < p) {g : K} (hg : g ∈ serve r p b as) :
    b.last ≤ g := by
  induction as generalizing b with
  | nil => contradiction
  | cons a as ih =>
    have hstep : b.last ≤ (take r p b (max a b.last)).1 := (le_max_right _ _).trans (le_take hr hp)
    rcases List.mem_cons.mp hg with rfl | hg
    · exact hstep
    · have hlater := ih hg
      rw [take_last] at hlater
      exact hstep.trans hlater

theorem serve_pairwise (hr : 1 ≤ r) (hp : 0 < p) (b : Bucket K) (as : List K) :
    (serve r p b as).Pairwise (· ≤ ·) := by
  induction as generalizing b with
  | nil => exact .nil
  | cons a as ih =>
    refine List.pairwise_cons.mpr ⟨fun g hg => ?_, ih _⟩
    have hlater := last_le_of_mem_serve hr hp hg
    rwa [take_last] at hlater

/-! ### Buckets that were full -/

/-- Each of the requests `done` was served at once, and the bucket was last full when entry `e` of
them came, or has been full since. -/
def FullSince (r : ℕ) (p : K) (done : List K) (b : Bucket K) : Prop :=
  ∃ e f, e ≤ done.length ∧ (∀ h : e < done.length, done[e] = f) ∧ f ≤ b.last ∧
    b.tokens = r + (b.last - f) * (r / p) - (done.length - e : ℕ)

omit [IsStrictOrderedRing K] in
theorem fullSince_nil (t : K) : FullSince r p [] ⟨r, t⟩ :=
  ⟨0, t, le_rfl, fun h => absurd h (Nat.not_lt_zero _), le_rfl, by simp⟩

/-- The tokens a new request finds. -/
theorem FullSince.fill_eq (h : FullSince r p done b) (hp : 0 < p) (ht : b.last ≤ t) :
    ∃ (e : ℕ) (he : e < (done ++ [t]).length), e ≤ done.length ∧
      fill r p b t = r + (t - (done ++ [t])[e]) * (r / p) - (done.length - e : ℕ) := by
  obtain ⟨e, f, he, hf, hle, htokens⟩ := h
  have hlen : (done ++ [t]).length = done.length + 1 := by simp
  have hrate : 0 ≤ (r : K) / p := div_nonneg (Nat.cast_nonneg r) hp.le
  have hsum : b.tokens + (t - b.last) * (r / p) =
      r + (t - f) * (r / p) - (done.length - e : ℕ) := by
    rw [htokens]
    ring
  have hfull : (done ++ [t])[done.length] = t := by simp
  unfold fill
  rw [hsum]
  rcases le_total (r : K) (r + (t - f) * (r / p) - (done.length - e : ℕ)) with hcap | hcap
  · -- the bucket is full now
    refine ⟨done.length, by omega, le_rfl, ?_⟩
    rw [min_eq_left hcap, hfull]
    simp
  · rcases Nat.eq_or_lt_of_le he with rfl | hlt
    · -- it has not been used since
      have hgain : 0 ≤ (t - f) * (r / p) := mul_nonneg (by linarith) hrate
      refine ⟨done.length, by omega, le_rfl, ?_⟩
      rw [hfull]
      simp only [Nat.sub_self, Nat.cast_zero, sub_zero, sub_self, zero_mul, add_zero] at hcap ⊢
      exact min_eq_left (by linarith)
    · refine ⟨e, by omega, he, ?_⟩
      rw [min_eq_right hcap, List.getElem_append_left hlt, hf hlt]

/-- A bucket that serves a request at once was full at one of the requests up to it. -/
theorem FullSince.snoc (h : FullSince r p done b) (hp : 0 < p) (ht : b.last ≤ t)
    (hsorted : (done ++ [t]).Pairwise (· ≤ ·)) :
    FullSince r p (done ++ [t]) ⟨fill r p b t - 1, t⟩ := by
  obtain ⟨e, he, hle, hfill⟩ := h.fill_eq hp ht
  have hlen : (done ++ [t]).length = done.length + 1 := by simp
  have hlast : (done ++ [t])[done.length] = t := by simp
  refine ⟨e, (done ++ [t])[e], he.le, fun _ => rfl, ?_, ?_⟩
  · have hmono := getElem_le_getElem hsorted (i := e) (j := done.length) (by omega) hle
    rwa [hlast] at hmono
  · have hcount : (done ++ [t]).length - e = (done.length - e) + 1 := by omega
    rw [hfill, hcount, Nat.cast_add, Nat.cast_one]
    ring

/-- As far as the requests are spaced, each finds a token. -/
theorem FullSince.one_le_fill (h : FullSince r p done b) (hr : 1 ≤ r) (hp : 0 < p)
    (ht : b.last ≤ t) (hsorted : (done ++ [t]).Pairwise (· ≤ ·))
    (hspaced : Spaced r p (done ++ [t])) : 1 ≤ fill r p b t := by
  obtain ⟨e, he, hle, hfill⟩ := h.fill_eq hp ht
  have hlen : (done ++ [t]).length = done.length + 1 := by simp
  have hlast : (done ++ [t])[done.length] = t := by simp
  -- the requests since `e` come in `q` rounds of `r` and `m` more
  obtain ⟨q, m, hm, hqm⟩ : ∃ q m, m < r ∧ done.length - e = q * r + m :=
    ⟨(done.length - e) / r, (done.length - e) % r, Nat.mod_lt _ hr, by
      rw [Nat.mul_comm]; exact (Nat.div_add_mod _ _).symm⟩
  have hround := hspaced.add_nsmul_le q e (by omega)
  have hmono := getElem_le_getElem hsorted (i := e + q * r) (j := done.length) (by omega) (by omega)
  rw [hlast] at hmono
  rw [nsmul_eq_mul] at hround
  have hgain : (q : K) * r ≤ (t - (done ++ [t])[e]) * (r / p) := by
    calc (q : K) * r = q * p * (r / p) := by field_simp
      _ ≤ (t - (done ++ [t])[e]) * (r / p) :=
        mul_le_mul_of_nonneg_right (by linarith) (div_nonneg (Nat.cast_nonneg r) hp.le)
  have hm' : (m : K) + 1 ≤ r := by exact_mod_cast hm
  rw [hfill, hqm]
  push_cast
  linarith

/-! ### Spaced requests -/

/-- Requests that are spaced are served when they come. -/
theorem serve_append (hr : 1 ≤ r) (hp : 0 < p) (h : FullSince r p done b)
    (hlast : (b.last :: as).Pairwise (· ≤ ·)) (hsorted : (done ++ as).Pairwise (· ≤ ·))
    (hspaced : Spaced r p (done ++ as)) :
    ∃ b', FullSince r p (done ++ as) b' ∧ b'.last ∈ b.last :: as ∧
      ∀ later, serve r p b (as ++ later) = as ++ serve r p b' later := by
  induction as generalizing done b with
  | nil => exact ⟨b, by simpa using h, by simp, fun later => rfl⟩
  | cons a as ih =>
    obtain ⟨hle, has⟩ := List.pairwise_cons.mp hlast
    have ha : b.last ≤ a := hle a List.mem_cons_self
    have hcons : done ++ a :: as = (done ++ [a]) ++ as := by simp
    rw [hcons] at hsorted hspaced ⊢
    have hsorted' := (List.pairwise_append.mp hsorted).1
    have hone := h.one_le_fill hr hp ha hsorted' hspaced.of_append
    obtain ⟨b', hfull, hmem, hserve⟩ := ih (h.snoc hp ha hsorted') has hsorted hspaced
    refine ⟨b', hfull, List.mem_cons_of_mem _ hmem, fun later => ?_⟩
    have htake : take r p b a = (a, ⟨fill r p b a - 1, a⟩) := if_pos hone
    rw [List.cons_append, serve, max_eq_left ha, htake, hserve later, List.cons_append]

/-! ### A request that comes too early -/

/-- It is served too early as well, if the bucket holds two tokens or more. -/
theorem FullSince.take_lt (h : FullSince r p done b) (hr : 2 ≤ r) (hp : 0 < p) (ht : b.last ≤ t)
    (hsorted : (done ++ [t]).Pairwise (· ≤ ·)) (hspaced : Spaced r p done) {i : ℕ}
    (hi : i + r = done.length) (hearly : t < done[i] + p) :
    (take r p b t).1 < done[i] + p := by
  unfold take
  split
  · exact hearly
  · rename_i hlow
    obtain ⟨e, he, hle, hfill⟩ := h.fill_eq hp ht
    have hr' : (0 : K) < r := by exact_mod_cast (by omega : 0 < r)
    have hlen : (done ++ [t]).length = done.length + 1 := by simp
    have hlast : (done ++ [t])[done.length] = t := by simp
    have het : (done ++ [t])[e] ≤ t := by
      have hmono := getElem_le_getElem hsorted (i := e) (j := done.length) (by omega) hle
      rwa [hlast] at hmono
    have hrate : 0 ≤ (r : K) / p := div_nonneg hr'.le hp.le
    -- fewer than `r` requests would have left a token
    have hei : e ≤ i := by
      by_contra hlt
      have hfew : ((done.length - e : ℕ) : K) + 1 ≤ r := by
        exact_mod_cast (by omega : done.length - e + 1 ≤ r)
      have hgain : 0 ≤ (t - (done ++ [t])[e]) * (r / p) := mul_nonneg (by linarith) hrate
      apply hlow
      rw [hfill]
      linarith
    have hdone : (done ++ [t])[e] = done[e] := List.getElem_append_left (by omega)
    have hsorted' := (List.pairwise_append.mp hsorted).1
    obtain ⟨q, m, hm, hqm⟩ : ∃ q m, m < r ∧ i - e = q * r + m :=
      ⟨(i - e) / r, (i - e) % r, Nat.mod_lt _ (by omega), by
        rw [Nat.mul_comm]; exact (Nat.div_add_mod _ _).symm⟩
    have hround := hspaced.add_nsmul_le q e (by omega)
    rw [nsmul_eq_mul] at hround
    have hcount : done.length - e = q * r + m + r := by omega
    have hserved : t + (1 - fill r p b t) * (p / r) = done[e] + q * p +
        (m + 1) * (p / r) := by
      rw [hfill, hdone, hcount]
      push_cast
      field_simp
      ring
    rw [hserved]
    rcases Nat.lt_or_ge (m + 1) r with hpart | hall
    · -- the round is not over yet
      have hmono := getElem_le_getElem hsorted' (i := e + q * r) (j := i) (by omega) (by omega)
      have hshare : ((m : K) + 1) * (p / r) < p := by
        have hlt : (m : K) + 1 < r := by exact_mod_cast hpart
        calc ((m : K) + 1) * (p / r) < r * (p / r) :=
              mul_lt_mul_of_pos_right hlt (div_pos hp hr')
          _ = p := by field_simp
      linarith
    · -- the round is over, and the request before `i` was not late
      have hprev := hspaced (i - 1) (by omega)
      have hmono := getElem_le_getElem hsorted' (i := e + q * r) (j := i - 1) (by omega) (by omega)
      have hbefore : done[i - 1 + r] ≤ t := by
        have hmono' := getElem_le_getElem hsorted (i := i - 1 + r) (j := done.length) (by omega)
          (by omega)
        rwa [hlast, List.getElem_append_left (by omega)] at hmono'
      have hshare : ((m : K) + 1) * (p / r) = p := by
        have heq : (m : K) + 1 = r := by exact_mod_cast (by omega : m + 1 = r)
        rw [heq]
        field_simp
      linarith

/-! ### One token -/

/-- An empty bucket of one token makes a request wait for all of `p`, and is empty again. -/
theorem take_one (hp : 0 < p) (hb : b.tokens = 0) :
    b.last + p ≤ (take 1 p b t).1 ∧ (take 1 p b t).2.tokens = 0 := by
  have hfill : fill 1 p b t = min 1 ((t - b.last) / p) := by
    rw [fill, hb, Nat.cast_one, zero_add, mul_one_div]
  unfold take
  rw [hfill]
  split
  · rename_i hone
    have hdiv : 1 ≤ (t - b.last) / p := hone.trans (min_le_right _ _)
    refine ⟨?_, ?_⟩
    · rw [one_le_div hp] at hdiv
      dsimp only
      linarith
    · dsimp only
      rw [min_eq_left hdiv, sub_self]
  · rename_i hlow
    rw [not_le, min_lt_iff] at hlow
    have hlt := hlow.resolve_left (lt_irrefl _)
    refine ⟨?_, rfl⟩
    dsimp only
    rw [min_eq_right hlt.le, Nat.cast_one, div_one, sub_mul, div_mul_cancel₀ _ hp.ne']
    linarith

/-- It serves one request in each time `p`. -/
theorem serve_spaced_one (hp : 0 < p) (hb : b.tokens = 0) :
    Spaced 1 p (b.last :: serve 1 p b as) := by
  induction as generalizing b with
  | nil => exact fun i hi => by simp [serve] at hi
  | cons a as ih =>
    obtain ⟨hle, hempty⟩ := take_one (t := max a b.last) hp hb
    have hrest := ih hempty
    rw [take_last] at hrest
    exact spaced_one_cons hle hrest

/-! ### The windows of a full bucket -/

theorem serve_spaced_full_one (hp : 0 < p) (t₀ : K) (as : List K) :
    Spaced 1 p (serve 1 p ⟨1, t₀⟩ as) := by
  cases as with
  | nil => exact spaced_nil
  | cons a as =>
    have hfill : fill 1 p ⟨1, t₀⟩ (max a t₀) = 1 := by
      have hgain : 0 ≤ (max a t₀ - t₀) * (1 / p) :=
        mul_nonneg (sub_nonneg.mpr (le_max_right _ _)) (by positivity)
      rw [fill, Nat.cast_one]
      exact min_eq_left (by linarith)
    have htake : take 1 p ⟨1, t₀⟩ (max a t₀) = (max a t₀, ⟨0, max a t₀⟩) := by
      rw [take, hfill, if_pos le_rfl, sub_self]
    rw [serve, htake]
    exact serve_spaced_one hp rfl

/-- A full bucket keeps its rate over every window exactly when it is one of a single token, or the
requests keep the rate themselves. -/
theorem serve_spaced_iff (hr : 1 ≤ r) (hp : 0 < p) {t₀ : K}
    (has : (t₀ :: as).Pairwise (· ≤ ·)) :
    Spaced r p (serve r p ⟨r, t₀⟩ as) ↔ r = 1 ∨ Spaced r p as := by
  have hsorted := (List.pairwise_cons.mp has).2
  constructor
  · intro h
    by_contra hnot
    rw [not_or] at hnot
    obtain ⟨hne, hfast⟩ := hnot
    obtain ⟨before, x, after, rfl, hspaced, hx⟩ := exists_first_of_not_spaced hfast
    have hcons : before ++ x :: after = (before ++ [x]) ++ after := by simp
    rw [hcons] at hsorted
    have hsorted' := (List.pairwise_append.mp hsorted).1
    obtain ⟨i, hi, hir, hearly⟩ := lt_of_not_spaced_snoc hspaced hx
    rw [List.getElem_append_left (by omega)] at hearly
    obtain ⟨b', hfull, hmem, hserve⟩ := serve_append hr hp (fullSince_nil t₀)
      (has.sublist (List.Sublist.cons_cons _ (List.sublist_append_left _ _)))
      (List.pairwise_append.mp hsorted').1 hspaced
    have hlast : b'.last ≤ x := by
      rcases List.mem_cons.mp hmem with heq | hmem
      · rw [heq]
        exact (List.pairwise_cons.mp has).1 x (by simp)
      · exact (List.pairwise_append.mp hsorted').2.2 _ hmem _ (List.mem_singleton_self x)
    have htake := hfull.take_lt (by omega) hp hlast hsorted' hspaced hir hearly
    -- the bucket has served the requests before `x` when they came, and `x` too early
    rw [hserve, serve, max_eq_left hlast] at h
    have hstep := h i (by simp; omega)
    rw [List.getElem_append_left (by omega)] at hstep
    have hbound : i + r <
        (before ++ (take r p b' x).1 :: serve r p (take r p b' x).2 after).length := by
      rw [List.length_append, List.length_cons]
      omega
    have hidx : (before ++ (take r p b' x).1 :: serve r p (take r p b' x).2 after)[i + r] =
        (take r p b' x).1 := by
      rw [List.getElem_append_right (by omega)]
      simp only [hir, Nat.sub_self, List.getElem_cons_zero]
    rw [hidx] at hstep
    exact absurd hstep (not_le.mpr htake)
  · rintro (rfl | hspaced)
    · have hone := serve_spaced_full_one hp t₀ as
      rwa [← Nat.cast_one (R := K)] at hone
    · obtain ⟨b', -, -, hserve⟩ := serve_append hr hp (fullSince_nil t₀) has hsorted hspaced
      have hall := hserve []
      rw [List.append_nil, serve, List.append_nil] at hall
      rwa [hall]

end TokenBucket
