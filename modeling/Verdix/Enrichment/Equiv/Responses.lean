import Verdix.Enrichment.Equiv.Virustotal

/-!
# The responses that a lookup reads without raising

`_parse_vt_response` catches `KeyError` and `TypeError`: a missing or misplaced layer of a response
is a failure.  It does not catch the `AttributeError` of a `.get` on something that is no object, nor
what numbers that are too large raise.  `Readable` is what is left (`readable_iff`).  The cache is
asked before the `try` and written after it, and raises for a name that cannot be encoded and for a
response that cannot be written.  A client never raises exactly when it meets neither and every
response it is given is readable (`never_raises_iff`).
-/

open TransitionSystem

namespace Verdix.Virustotal

variable {fl : FloatArith} {lower : String → String} {cfg : Config} {c : Client}
  {tr : List (Move Client Act)} {s : Client} {raw : Json} {stats : List (String × Json)}

/-! ### Responses -/

/-- A count of the analysis stats, `0` when it is missing. -/
def count (stats : List (String × Json)) (key : String) : Json :=
  (Json.lookup stats key).getD (.int 0)

/-- The counts are too large to be added up. -/
def CountsOverflow (stats : List (String × Json)) : Prop :=
  Json.SumOverflows (stats.map Prod.snd) ∨
    (∀ v ∈ stats.map Prod.snd, v.IsNumber) ∧
      Json.AddOverflows (count stats "malicious") (count stats "suspicious")

/-- The counts are positive integers, or positive with a float among them. -/
def Positive (fl : FloatArith) (values : List Json) : Prop :=
  (∃ v ∈ values, v.IsFloat) ∧ fl.lt 0 (fl.sum values) = true ∨
    (∀ v ∈ values, ¬ v.IsFloat) ∧ 0 < Json.intSum values

/-- The integers of the summary line have few enough digits. -/
def SummaryWritable (stats : List (String × Json)) : Prop :=
  (∀ m n, (count stats "malicious").intValue? = some m →
      (count stats "suspicious").intValue? = some n → Json.Writable (m + n)) ∧
    ((∀ v ∈ stats.map Prod.snd, ¬ v.IsFloat) → Json.Writable (Json.intSum (stats.map Prod.snd)))

/-- The counts add up, and can be written where the summary line has them. -/
def Countable (fl : FloatArith) (stats : List (String × Json)) : Prop :=
  ¬ CountsOverflow stats ∧
    ((∀ v ∈ stats.map Prod.snd, v.IsNumber) → Positive fl (stats.map Prod.snd) →
      SummaryWritable stats)

/-- The attributes are an object, and so are the stats if they are there. -/
def ReadableAttributes (fl : FloatArith) (attrs : Json) : Prop :=
  ∃ fields stats, attrs = .obj fields ∧
    (Json.lookup fields "last_analysis_stats").getD (.obj []) = .obj stats ∧ Countable fl stats

/-- An object that says that the name is unknown, or whose attributes can be read if it has any. -/
def Readable (fl : FloatArith) (raw : Json) : Prop :=
  ∃ members, raw = .obj members ∧
    ((Json.member members "_not_found").truthy = false →
      ∀ attrs, (raw.item "data" >>= fun data => data.item "attributes") = .ok attrs →
        ReadableAttributes fl attrs)

/-! ### What the `except` lets through -/

/-- It returns, or raises what `_parse_vt_response` catches. -/
def Caught {α : Type} (x : Except PyError α) : Prop :=
  (∃ a, x = .ok a) ∨ x = .error .keyError ∨ x = .error .typeError

theorem caught_ok {α : Type} (a : α) : Caught (.ok a : Except PyError α) := .inl ⟨a, rfl⟩

theorem caught_of_ok {α : Type} {x : Except PyError α} {a : α} (h : x = .ok a) : Caught x :=
  .inl ⟨a, h⟩

theorem caught_bind {α β : Type} {x : Except PyError α} {f : α → Except PyError β} :
    Caught (x >>= f) ↔ Caught x ∧ ∀ a, x = .ok a → Caught (f a) := by
  cases x with
  | ok a => simp [Caught, bind, Except.bind]
  | error e => simp [Caught, bind, Except.bind]

theorem caught_item (d : Json) (key : String) : Caught (d.item key) := by
  unfold Json.item
  split
  · split
    · exact caught_ok _
    · exact .inr (.inl rfl)
  · exact .inr (.inr rfl)

theorem caught_gtInt (n : ℤ) (v : Json) : Caught (Json.gtInt fl n v) := by
  unfold Json.gtInt
  split
  · exact caught_ok _
  · split
    · exact caught_ok _
    · exact .inr (.inr rfl)

/-- The texts of sums: only a long integer has none. -/
theorem numberText_cases {v : Json} (hv : v.IsFloat ∨ ∃ n, v = .int n) :
    (∃ t, v.numberText = .ok t) ∧ (∀ n, v = .int n → Json.Writable n) ∨
      v.numberText = .error .valueError ∧ ∃ n, v = .int n ∧ ¬ Json.Writable n := by
  rcases hv with ⟨l, rfl⟩ | ⟨n, rfl⟩
  · exact .inl ⟨⟨l, rfl⟩, by simp⟩
  · by_cases hn : Json.Writable n
    · refine .inl ⟨⟨toString n, ?_⟩, ?_⟩
      · rw [Json.numberText_int, if_pos hn]
      · intro m hm
        rwa [← Json.int.inj hm]
    · refine .inr ⟨?_, n, rfl, hn⟩
      rw [Json.numberText_int, if_neg hn]

/-- The line of two sums. -/
theorem caught_line {v w : Json} (hv : v.IsFloat ∨ ∃ n, v = .int n)
    (hw : w.IsFloat ∨ ∃ n, w = .int n) (f : String → String → String) :
    Caught (do return f (← v.numberText) (← w.numberText)) ↔
      (∀ n, v = .int n → Json.Writable n) ∧ ∀ n, w = .int n → Json.Writable n := by
  rcases numberText_cases hv with ⟨⟨t, ht⟩, hall⟩ | ⟨ht, n, hn, hlong⟩
  · rw [ht, and_iff_right hall]
    show Caught (w.numberText >>= fun u => .ok (f t u)) ↔ _
    rcases numberText_cases hw with ⟨⟨u, hu⟩, hall'⟩ | ⟨hu, m, hm, hlong⟩
    · rw [hu]
      exact iff_of_true (caught_ok _) hall'
    · rw [hu]
      exact iff_of_false (by simp [Caught, bind, Except.bind]) fun h => hlong (h m hm)
  · rw [ht]
    exact iff_of_false (by simp [Caught, bind, Except.bind]) fun h => hlong (h.1 n hn)

/-! ### Counts -/

/-- A count is a number when the stats are numbers. -/
theorem isNumber_count (hnum : ∀ v ∈ stats.map Prod.snd, v.IsNumber) (key : String) :
    (count stats key).IsNumber := by
  unfold count
  cases hlook : Json.lookup stats key with
  | none => exact .inr ⟨0, rfl⟩
  | some v => exact hnum v (List.mem_map_of_mem (Json.mem_of_lookup hlook))

theorem caught_addNumber {a b : Json} (ha : a.IsNumber) (hb : b.IsNumber) :
    Caught (Json.addNumber fl a b) ↔ ¬ Json.AddOverflows a b := by
  rcases Json.addNumber_cases fl ha hb with ⟨heq, hover⟩ | ⟨hnot, ⟨l, heq, -⟩ | ⟨m, n, -, -, heq⟩⟩
  · rw [heq]
    exact iff_of_false (by simp [Caught]) (not_not_intro hover)
  · rw [heq]
    exact iff_of_true (caught_ok _) hnot
  · rw [heq]
    exact iff_of_true (caught_ok _) hnot

/-- The integer of a sum that is one. -/
theorem addNumber_eq_int (fl : FloatArith) {a b : Json} (ha : a.IsNumber) (hb : b.IsNumber) {k : ℤ} :
    Json.addNumber fl a b = .ok (.int k) ↔
      ∃ m n, a.intValue? = some m ∧ b.intValue? = some n ∧ m + n = k := by
  rcases Json.addNumber_cases fl ha hb with
    ⟨heq, hf | hf⟩ | ⟨-, ⟨l, heq, hf | hf⟩ | ⟨m, n, hm, hn, heq⟩⟩
  · simp [heq, Json.intValue?_of_isFloat hf.1]
  · simp [heq, Json.intValue?_of_isFloat hf.1]
  · simp [heq, Json.intValue?_of_isFloat hf]
  · simp [heq, Json.intValue?_of_isFloat hf]
  · simp [heq, hm, hn]

theorem isSum_addNumber {a b v : Json} (ha : a.IsNumber) (hb : b.IsNumber)
    (h : Json.addNumber fl a b = .ok v) : v.IsFloat ∨ ∃ n, v = .int n := by
  rcases Json.addNumber_cases fl ha hb with ⟨heq, -⟩ | ⟨-, ⟨l, heq, -⟩ | ⟨m, n, -, -, heq⟩⟩
  · rw [h] at heq
    contradiction
  · rw [h] at heq
    exact .inl ⟨l, Except.ok.inj heq⟩
  · rw [h] at heq
    exact .inr ⟨m + n, Except.ok.inj heq⟩

theorem caught_summaryLine {m n total : Json} (hm : m.IsNumber) (hn : n.IsNumber)
    (htotal : total.IsFloat ∨ ∃ k, total = .int k) :
    Caught (summaryLine fl m n total) ↔
      ¬ Json.AddOverflows m n ∧ (Json.gtInt fl 0 total = .ok true →
        (∀ i j, m.intValue? = some i → n.intValue? = some j → Json.Writable (i + j)) ∧
          ∀ k, total = .int k → Json.Writable k) := by
  unfold summaryLine
  rw [caught_bind, caught_addNumber hm hn]
  refine and_congr_right fun hover => ?_
  obtain ⟨flagged, hflagged⟩ : ∃ v, Json.addNumber fl m n = .ok v := by
    rcases Json.addNumber_cases fl hm hn with ⟨-, h⟩ | ⟨-, ⟨l, heq, -⟩ | ⟨i, j, -, -, heq⟩⟩
    · contradiction
    · exact ⟨_, heq⟩
    · exact ⟨_, heq⟩
  -- the number of vendors can be written iff every integer it can be is
  have hwritable : (∀ i j, m.intValue? = some i → n.intValue? = some j → Json.Writable (i + j)) ↔
      ∀ k, flagged = .int k → Json.Writable k := by
    constructor
    · rintro h k rfl
      obtain ⟨i, j, hi, hj, rfl⟩ := (addNumber_eq_int fl hm hn).mp hflagged
      exact h i j hi hj
    · intro h i j hi hj
      have hsum := (addNumber_eq_int fl hm hn).mpr ⟨i, j, hi, hj, rfl⟩
      rw [hflagged] at hsum
      exact h _ (Except.ok.inj hsum)
  rw [hwritable]
  simp only [hflagged, Except.ok.injEq, forall_eq']
  rw [caught_bind, and_iff_right (caught_gtInt 0 total)]
  have hline := caught_line (isSum_addNumber hm hn hflagged) htotal
    fun t u => t ++ "/" ++ u ++ " vendors flagged"
  constructor
  · intro h hpos
    exact hline.mp (h true hpos)
  · intro h pos hpos
    cases pos with
    | false => exact caught_ok _
    | true => exact hline.mpr (h hpos)

/-- The stats that are counted without raising anything that is not caught. -/
theorem caught_counts :
    Caught (Json.sumNumbers fl (stats.map Prod.snd) >>= fun total =>
      summaryLine fl (count stats "malicious") (count stats "suspicious") total) ↔
      Countable fl stats := by
  rw [caught_bind]
  unfold Countable CountsOverflow
  -- the sum overflows, meets what is no number, or is a number
  rcases Json.sumNumbers_cases fl (stats.map Prod.snd) with
    ⟨heq, hover⟩ | ⟨heq, hover, v, hv, hnot⟩ | ⟨hover, hnum, hsum⟩
  · rw [heq]
    exact iff_of_false (by simp [Caught]) fun h => h.1 (.inl hover)
  · rw [heq]
    refine iff_of_true ⟨.inr (.inr rfl), by simp⟩ ⟨?_, fun h => absurd (h v hv) hnot⟩
    rintro (h | ⟨h, -⟩)
    · exact hover h
    · exact hnot (h v hv)
  · rw [or_iff_right hover, and_iff_right hnum, imp_iff_right hnum]
    have hm := isNumber_count hnum "malicious"
    have hn := isNumber_count hnum "suspicious"
    rcases hsum with ⟨hfloat, heq⟩ | ⟨hint, heq⟩
    · -- a float is compared as one
      have hpos : Positive fl (stats.map Prod.snd) ↔
          fl.lt 0 (fl.sum (stats.map Prod.snd)) = true := by
        refine ⟨fun h => ?_, fun h => .inl ⟨hfloat, h⟩⟩
        rcases h with ⟨-, h⟩ | ⟨h, -⟩
        · exact h
        · obtain ⟨v, hv, hf⟩ := hfloat
          exact absurd hf (h v hv)
      have hnot : ¬ ∀ v ∈ stats.map Prod.snd, ¬ v.IsFloat := by
        push Not
        exact hfloat
      simp only [heq, caught_ok, true_and, Except.ok.injEq, forall_eq']
      rw [caught_summaryLine hm hn (.inl ⟨_, rfl⟩), Json.gtInt_float, hpos, Except.ok.injEq]
      simp only [SummaryWritable, hnot, false_implies, and_true, reduceCtorEq, implies_true]
    · have hpos : Positive fl (stats.map Prod.snd) ↔ 0 < Json.intSum (stats.map Prod.snd) := by
        refine ⟨fun h => ?_, fun h => .inr ⟨hint, h⟩⟩
        rcases h with ⟨⟨v, hv, hf⟩, -⟩ | ⟨-, h⟩
        · exact absurd hf (hint v hv)
        · exact h
      simp only [heq, caught_ok, true_and, Except.ok.injEq, forall_eq']
      rw [caught_summaryLine hm hn (.inr ⟨_, rfl⟩), Json.gtInt_int, hpos, Except.ok.injEq,
        decide_eq_true_eq, SummaryWritable, imp_iff_right hint]
      simp only [Json.int.injEq, forall_eq']

theorem total_obj (stats : List (String × Json)) :
    total fl (.obj stats) = Json.sumNumbers fl (stats.map Prod.snd) := by
  cases stats with
  | nil => rfl
  | cons m ms => rfl

/-- Attributes that are an object are read through their stats. -/
theorem readAttributes_obj {fields : List (String × Json)}
    (hstats : (Json.lookup fields "last_analysis_stats").getD (.obj []) = .obj stats) :
    readAttributes fl (.obj fields) =
      Json.sumNumbers fl (stats.map Prod.snd) >>= fun total =>
        summaryLine fl (count stats "malicious") (count stats "suspicious") total >>= fun line =>
          .ok ([("malicious_count", count stats "malicious"),
            ("suspicious_count", count stats "suspicious"), ("total_engines", total),
            ("reputation", Json.member fields "reputation"),
            ("last_analysis_stats", .obj stats)], line) := by
  unfold readAttributes
  rw [Json.getD_obj, hstats, ← total_obj]
  rfl

/-- The attributes that are read without raising anything that is not caught. -/
theorem caught_readAttributes {attrs : Json} :
    Caught (readAttributes fl attrs) ↔ ReadableAttributes fl attrs := by
  unfold ReadableAttributes
  cases attrs with
  | obj fields =>
    cases hstats : (Json.lookup fields "last_analysis_stats").getD (.obj []) with
    | obj stats =>
      have hreadable : (∃ fields' stats', Json.obj fields = .obj fields' ∧
          (Json.lookup fields' "last_analysis_stats").getD (.obj []) = .obj stats' ∧
            Countable fl stats') ↔ Countable fl stats := by
        simp [hstats]
      rw [readAttributes_obj hstats, hreadable, ← caught_counts, caught_bind, caught_bind]
      simp only [caught_bind (x := summaryLine _ _ _ _), caught_ok, implies_true, and_true]
    | _ =>
      have hread : readAttributes fl (.obj fields) = .error .attributeError := by
        unfold readAttributes
        rw [Json.getD_obj, hstats]
        rfl
      simp [hread, Caught, hstats]
  | _ => simp [readAttributes, Json.getD, Caught, bind, Except.bind]

theorem caught_parseAttributes :
    Caught (parseAttributes fl raw) ↔
      ∀ attrs, (raw.item "data" >>= fun data => data.item "attributes") = .ok attrs →
        ReadableAttributes fl attrs := by
  unfold parseAttributes
  rw [caught_bind, and_iff_right (caught_item raw "data")]
  simp only [Except.bind_eq_ok]
  constructor
  · rintro h attrs ⟨data, hdata, hattrs⟩
    exact caught_readAttributes.mp ((caught_bind.mp (h data hdata)).2 attrs hattrs)
  · intro h data hdata
    rw [caught_bind]
    refine ⟨caught_item data "attributes", fun attrs hattrs => ?_⟩
    exact caught_readAttributes.mpr (h attrs ⟨data, hdata, hattrs⟩)

/-- The readable responses are those that parse. -/
theorem readable_iff {now : Datetime} {cached : Bool} {seconds : Option ℤ} :
    (∃ r, parseVtResponse fl now raw cached seconds = .ok r) ↔ Readable fl raw := by
  cases raw with
  | obj members =>
    have hreadable : Readable fl (.obj members) ↔
        ((Json.member members "_not_found").truthy = false →
          Caught (parseAttributes fl (.obj members))) := by
      rw [caught_parseAttributes]
      simp only [Readable, Json.obj.injEq, exists_eq_left']
    rw [hreadable, parseVtResponse, Json.get_obj_bind]
    cases (Json.member members "_not_found").truthy with
    | true => simp [pure, Except.pure]
    | false =>
      rw [if_neg Bool.false_ne_true, imp_iff_right rfl, Caught]
      cases parseAttributes fl (.obj members) with
      | ok d => simp [pure, Except.pure]
      | error e => cases e <;> simp [pure, Except.pure, throw, throwThe, MonadExceptOf.throw]
  | _ => simp [Readable, parseVtResponse, Json.get, Json.getD, bind, Except.bind]

/-! ### Runs -/

/-- Every response in the cache can be read. -/
def CacheReadable (fl : FloatArith) (c : Client) : Prop :=
  ∀ k e, c.cache.store k = some e → Readable fl e.1.response

/-- Nothing in a lookup raises: its name can be encoded, and the response it is given can be written
and read. -/
structure Harmless (fl : FloatArith) (cfg : Config) (c : Client) (q : Query) : Prop where
  named : Named cfg q
  written : ∀ raw, returned cfg c q = some raw → dumpsError? cfg.maxDepth raw = none
  readable : ∀ raw, returned cfg c q = some raw → Readable fl raw

theorem fetched_eq_some {q : Query} (h : fetched cfg c q = some raw) :
    returned cfg c q = some raw ∧ dumpsError? cfg.maxDepth raw = none := by
  rw [fetched, Option.filter_eq_some_iff, Option.isNone_iff_eq_none] at h
  exact h

/-- Over a cache that can be read, a lookup returns exactly when it is harmless. -/
theorem lookup_ok_iff {q : Query} (hI : CacheReadable fl c) :
    (∃ r, (lookup fl lower cfg c q).1 = .ok r) ↔ Harmless fl cfg c q := by
  have hans := lookup_answer fl lower cfg c q
  generalize lookup fl lower cfg c q = res at hans
  cases hans with
  | direct _ _ hquiet =>
    exact iff_of_true ⟨_, rfl⟩ ⟨hquiet.1, by simp [hquiet.2], by simp [hquiet.2]⟩
  | replay _ _ hquiet _ hstore =>
    exact iff_of_true (readable_iff.mpr (hI _ _ hstore))
      ⟨hquiet.1, by simp [hquiet.2], by simp [hquiet.2]⟩
  | @fresh raw c₁ hfetched _ hname =>
    obtain ⟨hreturned, hwritten⟩ := fetched_eq_some hfetched
    have honly : ∀ raw', returned cfg c q = some raw' → raw' = raw := fun raw' hraw' =>
      Option.some.inj (hraw'.symm.trans hreturned)
    refine readable_iff.trans ⟨fun hraw => ⟨hname, ?_, ?_⟩, fun h => h.readable raw hreturned⟩
    · intro raw' hraw'
      rwa [honly raw' hraw']
    · intro raw' hraw'
      rwa [honly raw' hraw']
  | raised _ _ hwhy =>
    refine iff_of_false (fun h => by simp at h) fun h => ?_
    rcases hwhy with hname | ⟨raw, hreturned, hraw⟩
    · exact hname h.named
    · rw [h.written raw hreturned] at hraw
      contradiction

theorem CacheReadable.next {s s' : Client} {a : Act} (hI : CacheReadable fl s)
    (hstep : step fl lower cfg s a = some s')
    (hharmless : ∀ q, a = .lookup q → Harmless fl cfg s q) : CacheReadable fl s' := by
  cases a with
  | restart =>
    obtain rfl := step_restart hstep
    exact hI
  | lookup q =>
    have hs' := step_lookup hstep
    have hans := lookup_answer fl lower cfg s q
    intro k e hstore
    generalize lookup fl lower cfg s q = res at hans hs'
    rw [hs'] at hstore
    cases hans with
    | direct _ hkept | replay _ hkept | raised _ hkept => exact hI k e (hkept.entries k e hstore)
    | @fresh raw c₁ hfetched hkept =>
      rcases store_stored hstore with ⟨-, hraw⟩ | ⟨-, hold⟩
      · rw [hraw]
        exact (hharmless q rfl).readable raw (fetched_eq_some hfetched).1
      · exact hI k e (hkept.entries k e hold)

/-- What the cache replays was stored earlier in the run, by a lookup that was harmless. -/
theorem cacheReadable_pre (h : Run (step fl lower cfg) init tr s)
    (hall : ∀ m ∈ tr, ∀ q, m.act = .lookup q → CacheReadable fl m.pre → Harmless fl cfg m.pre q)
    {m : Move Client Act} (hm : m ∈ tr) : CacheReadable fl m.pre := by
  obtain ⟨tr₁, tr₂, rfl⟩ := List.append_of_mem hm
  refine h.split.1.invariant_of_moves (I := CacheReadable fl)
    (G := fun m => ∀ q, m.act = .lookup q → CacheReadable fl m.pre → Harmless fl cfg m.pre q)
    ?_ ?_ fun m' hm' => hall m' (List.mem_append_left _ hm')
  · intro k e hstore
    contradiction
  · intro s a s' _ hI hstep hG
    exact hI.next hstep fun q hact => hG q hact hI

/-- A lookup answered with `null` for the stats. -/
def nullQuery : Query := sampleQuery 0 (sampleBody .null)

/-- The same lookup a minute later, which the cache answers. -/
def laterQuery : Query := sampleQuery 60 (sampleBody .null)

-- a name with a lone surrogate raises, and so does a readable response that is nested too deeply
example : (lookup noFloats id sampleConfig init
    { nullQuery with indicator := ⟨.domain, "\uFFFD.example"⟩ }).1 = .error .unicodeEncodeError := rfl

example : (lookup noFloats id { sampleConfig with maxDepth := 3 } init
    (sampleQuery 0 (sampleBody (.obj [])))).1 = .error .recursionError := rfl

end Verdix.Virustotal
