import Verdix.Lib.JsonLoads
import Verdix.Lib.JsonValue
import Verdix.Lib.Except
import Mathlib.Algebra.BigOperators.Group.List.Basic
import Mathlib.Algebra.Order.BigOperators.Group.List
import Mathlib.Algebra.Order.Group.Int
import Mathlib.Algebra.Ring.Int.Defs
import Mathlib.Data.List.Induction

/-!
# Python's arithmetic on parsed numbers

`+`, `sum`, `>` and the text of numbers that come from a JSON document.  Integers are exact.  Floats
are literals, and what is computed with them is a parameter, `FloatArith`; which operations raise
depends on the integers alone: one too large for a float cannot be added to one, and one of more than
4300 digits has no text.
-/

/-- Float arithmetic on literals. -/
structure FloatArith where
  /-- `a + b`, one of them a float. -/
  add : Json → Json → String
  /-- `sum(values)`, one of them a float. -/
  sum : List Json → String
  /-- `n < x`. -/
  lt : ℤ → String → Bool
  /-- `n <= x`. -/
  le : ℤ → String → Bool

namespace Json

variable (fl : FloatArith)

/-- The integers that `float(n)` does not round up to infinity. -/
def FitsFloat (n : ℤ) : Prop := n.natAbs < 2 ^ 1024 - 2 ^ 970

instance (n : ℤ) : Decidable (FitsFloat n) :=
  inferInstanceAs (Decidable (n.natAbs < 2 ^ 1024 - 2 ^ 970))

/-- An integer that meets a float, with the literal of their sum. -/
def addToFloat (n : ℤ) (literal : String) : Except PyError Json :=
  if FitsFloat n then .ok (.float literal) else .error .overflowError

/-- `a + b` for numbers. -/
def addNumber (a b : Json) : Except PyError Json :=
  match a, b with
  | .float _, .float _ => .ok (.float (fl.add a b))
  | .float _, _ =>
    match b.intValue? with
    | some n => addToFloat n (fl.add a b)
    | none => .error .typeError
  | _, .float _ =>
    match a.intValue? with
    | some m => addToFloat m (fl.add a b)
    | none => .error .typeError
  | _, _ =>
    match a.intValue?, b.intValue? with
    | some m, some n => .ok (.int (m + n))
    | _, _ => .error .typeError

/-- `sum(values)`.  Once a float is met the rest is added up as floats. -/
def sumNumbers (values : List Json) : Except PyError Json := do
  match ← values.foldlM (addNumber fl) (.int 0) with
  | .float _ => return .float (fl.sum values)
  | total => return total

/-- `v > n`. -/
def gtInt (n : ℤ) (v : Json) : Except PyError Bool :=
  match v.intValue? with
  | some m => .ok (n < m)
  | none =>
    match v with
    | .float l => .ok (fl.lt n l)
    | _ => .error .typeError

/-- `v >= n`. -/
def geInt (n : ℤ) (v : Json) : Except PyError Bool :=
  match v.intValue? with
  | some m => .ok (n ≤ m)
  | none =>
    match v with
    | .float l => .ok (fl.le n l)
    | _ => .error .typeError

/-- An integer that `str` writes. -/
def Writable (n : ℤ) : Prop := n.natAbs < 10 ^ maxStrDigits

instance (n : ℤ) : Decidable (Writable n) :=
  inferInstanceAs (Decidable (n.natAbs < 10 ^ maxStrDigits))

theorem Writable.mono {m n : ℤ} (hn : Writable n) (h : m.natAbs ≤ n.natAbs) : Writable m := by
  unfold Writable at hn ⊢
  exact Nat.lt_of_le_of_lt h hn

/-- `str(v)` for a number. -/
def numberText : Json → Except PyError String
  | .bool b => .ok (if b then "True" else "False")
  | .int n => if Writable n then .ok (toString n) else .error .valueError
  | .float l => .ok l
  | _ => .error .typeError

theorem numberText_int (n : ℤ) :
    (Json.int n).numberText = if Writable n then .ok (toString n) else .error .valueError := rfl

/-! ### Comparing -/

theorem gtInt_int (m n : ℤ) : gtInt fl n (.int m) = .ok (decide (n < m)) := rfl

theorem gtInt_float (n : ℤ) (l : String) : gtInt fl n (.float l) = .ok (fl.lt n l) := rfl

/-! ### What raises -/

variable {fl} {a b c v : Json} {values : List Json} {e : PyError}

def IsFloat (v : Json) : Prop := ∃ l, v = .float l

/-- A number; `True` and `False` are integers. -/
def IsNumber (v : Json) : Prop := v.IsFloat ∨ ∃ n, v.intValue? = some n

theorem intValue?_of_isFloat (h : v.IsFloat) : v.intValue? = none := by
  obtain ⟨l, rfl⟩ := h
  rfl

theorem not_isFloat_of_intValue? {n : ℤ} (h : v.intValue? = some n) : ¬ v.IsFloat := by
  intro hf
  rw [intValue?_of_isFloat hf] at h
  contradiction

/-- A float is added to an integer too large for one. -/
def AddOverflows (a b : Json) : Prop :=
  (a.IsFloat ∧ ∃ n, b.intValue? = some n ∧ ¬ FitsFloat n) ∨
    (b.IsFloat ∧ ∃ n, a.intValue? = some n ∧ ¬ FitsFloat n)

theorem addToFloat_eq (n : ℤ) (l : String) :
    addToFloat n l = .ok (.float l) ∧ FitsFloat n ∨
      addToFloat n l = .error .overflowError ∧ ¬ FitsFloat n := by
  unfold addToFloat
  by_cases hn : FitsFloat n
  · exact .inl ⟨if_pos hn, hn⟩
  · exact .inr ⟨if_neg hn, hn⟩

/-- What `a + b` is for numbers. -/
theorem addNumber_cases (fl : FloatArith) (ha : a.IsNumber) (hb : b.IsNumber) :
    (addNumber fl a b = .error .overflowError ∧ AddOverflows a b) ∨
      ¬ AddOverflows a b ∧
        ((∃ l, addNumber fl a b = .ok (.float l) ∧ (a.IsFloat ∨ b.IsFloat)) ∨
          ∃ m n, a.intValue? = some m ∧ b.intValue? = some n ∧
            addNumber fl a b = .ok (.int (m + n))) := by
  rcases ha with ⟨l, rfl⟩ | ⟨m, hm⟩
  · rcases hb with ⟨l', rfl⟩ | ⟨n, hn⟩
    · refine .inr ⟨?_, .inl ⟨_, rfl, .inl ⟨l, rfl⟩⟩⟩
      simp [AddOverflows, intValue?]
    · -- the integer is turned into a float first
      have hadd : addNumber fl (.float l) b = addToFloat n (fl.add (.float l) b) := by
        cases b <;> simp_all [addNumber, intValue?]
      have hb' := not_isFloat_of_intValue? hn
      rw [hadd]
      rcases addToFloat_eq n (fl.add (.float l) b) with ⟨heq, hfit⟩ | ⟨heq, hfit⟩
      · refine .inr ⟨?_, .inl ⟨_, heq, .inl ⟨l, rfl⟩⟩⟩
        rintro (⟨-, n', hn', hbig⟩ | ⟨hf, -⟩)
        · rw [hn] at hn'
          exact hbig (Option.some.inj hn' ▸ hfit)
        · exact hb' hf
      · exact .inl ⟨heq, .inl ⟨⟨l, rfl⟩, n, hn, hfit⟩⟩
  · have ha' := not_isFloat_of_intValue? hm
    rcases hb with ⟨l', rfl⟩ | ⟨n, hn⟩
    · have hadd : addNumber fl a (.float l') = addToFloat m (fl.add a (.float l')) := by
        cases a <;> simp_all [addNumber, intValue?]
      rw [hadd]
      rcases addToFloat_eq m (fl.add a (.float l')) with ⟨heq, hfit⟩ | ⟨heq, hfit⟩
      · refine .inr ⟨?_, .inl ⟨_, heq, .inr ⟨l', rfl⟩⟩⟩
        rintro (⟨hf, -⟩ | ⟨-, m', hm', hbig⟩)
        · exact ha' hf
        · rw [hm] at hm'
          exact hbig (Option.some.inj hm' ▸ hfit)
      · exact .inl ⟨heq, .inr ⟨⟨l', rfl⟩, m, hm, hfit⟩⟩
    · have hadd : addNumber fl a b = .ok (.int (m + n)) := by
        cases a <;> cases b <;> simp_all [addNumber, intValue?]
      refine .inr ⟨?_, .inr ⟨m, n, hm, hn, hadd⟩⟩
      rintro (⟨hf, -⟩ | ⟨hf, -⟩)
      · exact ha' hf
      · exact not_isFloat_of_intValue? hn hf

/-- Only numbers are added. -/
theorem isNumber_of_addNumber (h : addNumber fl a b ≠ .error .typeError) :
    a.IsNumber ∧ b.IsNumber := by
  cases a <;> cases b <;> simp_all [addNumber, intValue?, IsNumber, IsFloat]

/-- An addition raises `TypeError` or `OverflowError`. -/
theorem addNumber_error (h : addNumber fl a b = .error e) :
    e = .typeError ∨ e = .overflowError := by
  by_cases htype : addNumber fl a b = .error .typeError
  · rw [htype] at h
    exact .inl (Except.error.inj h).symm
  · obtain ⟨ha, hb⟩ := isNumber_of_addNumber htype
    rcases addNumber_cases fl ha hb with ⟨herr, -⟩ | ⟨-, ⟨l, hl, -⟩ | ⟨m, n, -, -, hadd⟩⟩
    · rw [herr] at h
      exact .inr (Except.error.inj h).symm
    · rw [hl] at h
      contradiction
    · rw [hadd] at h
      contradiction

/-- The sum of the integers among the values. -/
def intSum (values : List Json) : ℤ := (values.filterMap intValue?).sum

/-- As the values are added up, a float meets an integer too large for one. -/
def SumOverflows (values : List Json) : Prop :=
  ∃ before v after, values = before ++ v :: after ∧ (∀ u ∈ before, u.IsNumber) ∧
    ((v.IsFloat ∧ (∀ u ∈ before, ¬ u.IsFloat) ∧ ¬ FitsFloat (intSum before)) ∨
      (∃ u ∈ before, u.IsFloat) ∧ ∃ n, v.intValue? = some n ∧ ¬ FitsFloat n)

/-- What the values added up so far are. -/
structure SumSoFar (values : List Json) (acc : Json) : Prop where
  numbers : ∀ v ∈ values, v.IsNumber
  float : (∃ v ∈ values, v.IsFloat) → acc.IsFloat
  int : (∀ v ∈ values, ¬ v.IsFloat) → acc = .int (intSum values)

theorem SumSoFar.isNumber (h : SumSoFar values a) : a.IsNumber := by
  by_cases hf : ∃ v ∈ values, v.IsFloat
  · exact .inl (h.float hf)
  · push Not at hf
    rw [h.int hf]
    exact .inr ⟨_, rfl⟩

/-- What has been added up so far is a number, and a float from the first float on. -/
theorem sumSoFar (h : values.foldlM (addNumber fl) (.int 0) = .ok a) : SumSoFar values a := by
  induction values using List.reverseRecOn generalizing a with
  | nil =>
    obtain rfl := Except.ok.inj h
    exact ⟨by simp, by simp, fun _ => rfl⟩
  | append_singleton vs v ih =>
    rw [List.foldlM_append, Except.bind_eq_ok] at h
    obtain ⟨b, hb, h⟩ := h
    rw [List.foldlM_cons, Except.bind_eq_ok] at h
    obtain ⟨c, hc, hlast⟩ := h
    obtain rfl := Except.ok.inj hlast
    have hvs := ih hb
    have hne : addNumber fl b v ≠ .error .typeError := by simp [hc]
    obtain ⟨hbnum, hv⟩ := isNumber_of_addNumber hne
    refine ⟨?_, ?_, ?_⟩
    · rw [List.forall_mem_append, List.forall_mem_singleton]
      exact ⟨hvs.numbers, hv⟩
    · rintro ⟨u, hu, hf⟩
      -- two integers have an integer sum, so one of the two is a float
      rcases addNumber_cases fl hbnum hv with ⟨herr, -⟩ | ⟨-, ⟨l, hl, -⟩ | ⟨m, n, hm, hn, -⟩⟩
      · rw [hc] at herr
        contradiction
      · rw [hc] at hl
        exact ⟨l, Except.ok.inj hl⟩
      · rcases List.mem_append.mp hu with hu | hu
        · exact absurd (hvs.float ⟨u, hu, hf⟩) (not_isFloat_of_intValue? hm)
        · rw [List.mem_singleton.mp hu] at hf
          exact absurd hf (not_isFloat_of_intValue? hn)
    · intro hint
      rw [List.forall_mem_append, List.forall_mem_singleton] at hint
      -- without a float the sum so far is an integer
      obtain ⟨n, hn⟩ := hv.resolve_left hint.2
      rw [hvs.int hint.1] at hc hbnum
      rcases addNumber_cases fl hbnum hv with
        ⟨herr, -⟩ | ⟨-, ⟨l, hl, hf | hf⟩ | ⟨m, n', hm, hn', hadd⟩⟩
      · rw [hc] at herr
        contradiction
      · obtain ⟨l', hl'⟩ := hf
        contradiction
      · exact absurd hf hint.2
      · rw [hc] at hadd
        rw [Except.ok.inj hadd]
        rw [hn] at hn'
        obtain rfl := Option.some.inj hn'
        obtain rfl : intSum vs = m := Option.some.inj hm
        simp [intSum, List.filterMap_append, hn]

/-- Numbers are added up unless they overflow. -/
theorem foldlM_addNumber_error (hvalues : ∀ v ∈ values, v.IsNumber)
    (h : values.foldlM (addNumber fl) (.int 0) = .error e) : e = .overflowError := by
  obtain ⟨before, v, after, t, rfl, hbefore, hv⟩ := Except.foldlM_eq_error.mp h
  have hvnum := hvalues v (List.mem_append_right _ List.mem_cons_self)
  rcases addNumber_cases fl (sumSoFar hbefore).isNumber hvnum with
    ⟨herr, -⟩ | ⟨-, ⟨l, hl, -⟩ | ⟨m, n, -, -, hadd⟩⟩
  · rw [hv] at herr
    exact Except.error.inj herr
  · rw [hv] at hl
    contradiction
  · rw [hv] at hadd
    contradiction

/-- What the values so far add to an overflow. -/
theorem SumSoFar.addOverflows_iff (h : SumSoFar values a) :
    AddOverflows a v ↔
      (v.IsFloat ∧ (∀ u ∈ values, ¬ u.IsFloat) ∧ ¬ FitsFloat (intSum values)) ∨
        (∃ u ∈ values, u.IsFloat) ∧ ∃ n, v.intValue? = some n ∧ ¬ FitsFloat n := by
  unfold AddOverflows
  by_cases hf : ∃ u ∈ values, u.IsFloat
  · have ha := h.float hf
    have hnone := intValue?_of_isFloat ha
    have hnot : ¬ ∀ u ∈ values, ¬ u.IsFloat := by
      push Not
      exact hf
    simp [ha, hnone, hf, hnot]
  · have hnot : ∀ u ∈ values, ¬ u.IsFloat := by
      push Not at hf
      exact hf
    rw [h.int hnot]
    constructor
    · rintro (⟨⟨l, hl⟩, -⟩ | ⟨hv, n, hn, hbig⟩)
      · contradiction
      · obtain rfl := Option.some.inj hn
        exact .inl ⟨hv, hnot, hbig⟩
    · rintro (⟨hv, -, hbig⟩ | ⟨hfloat, -⟩)
      · exact .inr ⟨hv, _, rfl, hbig⟩
      · exact absurd hfloat hf

/-- The sum overflows iff an integer that does not fit meets a float. -/
theorem foldlM_addNumber_eq_overflow :
    values.foldlM (addNumber fl) (.int 0) = .error .overflowError ↔ SumOverflows values := by
  constructor
  · intro h
    obtain ⟨before, v, after, t, rfl, hbefore, hv⟩ := Except.foldlM_eq_error.mp h
    -- the values before the one that overflows have been added up
    have hsum := sumSoFar hbefore
    refine ⟨before, v, after, rfl, hsum.numbers, hsum.addOverflows_iff.mp ?_⟩
    have hne : addNumber fl t v ≠ .error .typeError := by simp [hv]
    obtain ⟨ht, hvnum⟩ := isNumber_of_addNumber hne
    rcases addNumber_cases fl ht hvnum with ⟨-, hover⟩ | ⟨-, ⟨l, hl, -⟩ | ⟨m, n, -, -, hadd⟩⟩
    · exact hover
    · rw [hv] at hl
      contradiction
    · rw [hv] at hadd
      contradiction
  · rintro ⟨before, v, after, rfl, hnum, hover⟩
    rw [List.foldlM_append, Except.bind_eq_error]
    cases hbefore : before.foldlM (addNumber fl) (.int 0) with
    | error e =>
      rw [foldlM_addNumber_error hnum hbefore]
      exact .inl rfl
    | ok t =>
      have hsum := sumSoFar hbefore
      have hadd := hsum.addOverflows_iff.mpr hover
      have hvnum : v.IsNumber := by
        rcases hover with ⟨hf, -⟩ | ⟨-, n, hn, -⟩
        · exact .inl hf
        · exact .inr ⟨n, hn⟩
      refine .inr ⟨t, rfl, ?_⟩
      rw [List.foldlM_cons, Except.bind_eq_error]
      rcases addNumber_cases fl hsum.isNumber hvnum with ⟨herr, -⟩ | ⟨hnot, -⟩
      · exact .inl herr
      · exact absurd hadd hnot

/-- The three ways `sum(values)` can end. -/
theorem sumNumbers_cases (fl : FloatArith) (values : List Json) :
    (sumNumbers fl values = .error .overflowError ∧ SumOverflows values) ∨
      (sumNumbers fl values = .error .typeError ∧ ¬ SumOverflows values ∧
        ∃ v ∈ values, ¬ v.IsNumber) ∨
      ¬ SumOverflows values ∧ (∀ v ∈ values, v.IsNumber) ∧
        (((∃ v ∈ values, v.IsFloat) ∧ sumNumbers fl values = .ok (.float (fl.sum values))) ∨
          (∀ v ∈ values, ¬ v.IsFloat) ∧ sumNumbers fl values = .ok (.int (intSum values))) := by
  unfold sumNumbers
  cases hfold : values.foldlM (addNumber fl) (.int 0) with
  | error e =>
    by_cases hover : SumOverflows values
    · rw [foldlM_addNumber_eq_overflow.mpr hover] at hfold
      obtain rfl := Except.error.inj hfold
      exact .inl ⟨rfl, hover⟩
    · refine .inr (.inl ⟨?_, hover, ?_⟩)
      · obtain ⟨before, v, after, t, -, -, hv⟩ := Except.foldlM_eq_error.mp hfold
        rcases addNumber_error hv with rfl | rfl
        · rfl
        · exact absurd (foldlM_addNumber_eq_overflow.mp hfold) hover
      · by_contra hall
        push Not at hall
        rw [foldlM_addNumber_error hall hfold] at hfold
        exact hover (foldlM_addNumber_eq_overflow.mp hfold)
  | ok t =>
    have hsum := sumSoFar hfold
    refine .inr (.inr ⟨?_, hsum.numbers, ?_⟩)
    · intro hover
      rw [foldlM_addNumber_eq_overflow.mpr hover] at hfold
      contradiction
    · by_cases hf : ∃ v ∈ values, v.IsFloat
      · obtain ⟨l, rfl⟩ := hsum.float hf
        exact .inl ⟨hf, rfl⟩
      · push Not at hf
        rw [hsum.int hf]
        exact .inr ⟨hf, rfl⟩

/-! ### Integers under any name -/

theorem addNumber_of_int {m n : ℤ} (ha : a.intValue? = some m) (hb : b.intValue? = some n) :
    addNumber fl a b = .ok (.int (m + n)) := by
  cases a <;> cases b <;> simp_all [addNumber, intValue?]

theorem gtInt_of_int {m : ℤ} (ha : a.intValue? = some m) (n : ℤ) :
    gtInt fl n a = .ok (decide (n < m)) := by
  unfold gtInt
  rw [ha]

theorem geInt_of_int {m : ℤ} (ha : a.intValue? = some m) (n : ℤ) :
    geInt fl n a = .ok (decide (n ≤ m)) := by
  unfold geInt
  rw [ha]

/-- Integers and booleans add up to their integer sum. -/
theorem sumNumbers_of_int (h : ∀ v ∈ values, ∃ n, v.intValue? = some n) :
    sumNumbers fl values = .ok (.int (intSum values)) := by
  have hint : ∀ v ∈ values, ¬ v.IsFloat := fun v hv =>
    not_isFloat_of_intValue? (h v hv).choose_spec
  rcases sumNumbers_cases fl values with
    ⟨-, before, v, after, rfl, -, ⟨hv, -⟩ | ⟨⟨u, hu, hf⟩, -⟩⟩ | ⟨-, -, v, hv, hnot⟩ |
      ⟨-, -, ⟨⟨v, hv, hf⟩, -⟩ | ⟨-, heq⟩⟩
  · exact absurd hv (hint v (List.mem_append_right _ List.mem_cons_self))
  · exact absurd hf (hint u (List.mem_append_left _ hu))
  · exact absurd (.inr (h v hv)) hnot
  · exact absurd hf (hint v hv)
  · exact heq

/-- No integer of a nonnegative list exceeds their sum. -/
theorem le_intSum {n : ℤ} (h : ∀ v ∈ values, ∀ m, v.intValue? = some m → 0 ≤ m) (hv : v ∈ values)
    (hn : v.intValue? = some n) : n ≤ intSum values := by
  refine List.single_le_sum ?_ n (List.mem_filterMap.mpr ⟨v, hv, hn⟩)
  intro m hm
  obtain ⟨u, hu, hum⟩ := List.mem_filterMap.mp hm
  exact h u hu m hum

end Json
