import Verdix.Enrichment.Equiv.Responses
import Verdix.Llm.PromptBuilder
import Mathlib.Tactic.IntervalCases

/-!
# The label of the prompt and the summary of the ledger

Both are made from the analysis stats of one response.  The summary counts the engines that call the
name malicious or suspicious, the label those that call it malicious.  `agree_iff`: they agree except
for the names that engines call suspicious and none calls malicious.
-/

namespace Verdix.PromptBuilder

open Virustotal

variable {fl : FloatArith} {lower : String → String} {raw : Json} {stats : List (String × Json)}
  {now : Datetime} {cached : Bool} {seconds : Option ℤ} {r : EnrichmentResult}
  {ind : TextIndicator}

/-! ### The stats of a response -/

/-- The analysis stats of a response that has attributes, `{}` when they are missing. -/
def analysisStats (raw : Json) : Option (List (String × Json)) :=
  match raw with
  | .obj members =>
    if (Json.member members "_not_found").truthy then none
    else
      match raw.item "data" >>= fun data => data.item "attributes" with
      | .ok (.obj fields) =>
        match (Json.lookup fields "last_analysis_stats").getD (.obj []) with
        | .obj stats => some stats
        | _ => none
      | _ => none
  | _ => none

/-- The stats are nonnegative integers, as `_vt_label` takes them; booleans count as `0` and `1`. -/
def NonnegativeStats (raw : Json) : Prop :=
  ∀ stats, analysisStats raw = some stats →
    ∀ v ∈ stats.map Prod.snd, ∃ n : ℕ, v.intValue? = some (n : ℤ)

/-- Engines call the name suspicious and none calls it malicious. -/
def OnlySuspicious (raw : Json) : Prop :=
  ∃ stats, analysisStats raw = some stats ∧ (count stats "malicious").intValue? = some 0 ∧
    ∃ n : ℕ, 0 < n ∧ (count stats "suspicious").intValue? = some (n : ℤ)

/-! ### Texts -/

theorem toString_eq_zero {n : ℕ} (h : toString n = "0") : n = 0 := by
  have hrepr : n.repr = "0" := h
  have hlt : n < 10 := by
    by_contra hge
    have hlen : n.repr.length ≤ 1 := by
      rw [hrepr]
      exact le_refl 1
    rw [Nat.length_repr_le_iff (by decide)] at hlen
    omega
  interval_cases n
  · rfl
  all_goals contradiction

/-- The text of a count that can be written. -/
theorem numberText_of_int {v : Json} {n : ℤ} (hv : v.intValue? = some n) (hn : Json.Writable n) :
    ∃ t, v.numberText = .ok t := by
  cases v with
  | bool b => exact ⟨_, rfl⟩
  | int m =>
    obtain rfl := Option.some.inj hv
    rw [Json.numberText_int, if_pos hn]
    exact ⟨_, rfl⟩
  | _ => cases hv

/-! ### The result -/

/-- The result of a response with stats that are nonnegative integers. -/
structure CountedBy (stats : List (String × Json)) (m s n : ℕ) : Prop where
  malicious : (count stats "malicious").intValue? = some (m : ℤ)
  suspicious : (count stats "suspicious").intValue? = some (s : ℤ)
  total : Json.intSum (stats.map Prod.snd) = (n : ℤ)
  ints : ∀ v ∈ stats.map Prod.snd, ∃ k, v.intValue? = some k
  suspicious_le : s ≤ n

theorem exists_countedBy (h : ∀ v ∈ stats.map Prod.snd, ∃ n : ℕ, v.intValue? = some (n : ℤ)) :
    ∃ m s n, CountedBy stats m s n := by
  have hcount : ∀ key, ∃ n : ℕ, (count stats key).intValue? = some (n : ℤ) := by
    intro key
    unfold count
    cases hlook : Json.lookup stats key with
    | none => exact ⟨0, rfl⟩
    | some v => exact h v (List.mem_map_of_mem (Json.mem_of_lookup hlook))
  have hnonneg : ∀ v ∈ stats.map Prod.snd, ∀ m, v.intValue? = some m → 0 ≤ m := by
    intro v hv m hm
    obtain ⟨n, hn⟩ := h v hv
    rw [hm] at hn
    have := Option.some.inj hn
    omega
  have hsum : 0 ≤ Json.intSum (stats.map Prod.snd) := by
    refine List.sum_nonneg ?_
    intro m hm
    obtain ⟨v, hv, hvm⟩ := List.mem_filterMap.mp hm
    exact hnonneg v hv m hvm
  obtain ⟨a, ha⟩ := hcount "malicious"
  obtain ⟨b, hb⟩ := hcount "suspicious"
  refine ⟨a, b, (Json.intSum (stats.map Prod.snd)).toNat, ha, hb, (Int.toNat_of_nonneg hsum).symm,
    ?_, ?_⟩
  · intro v hv
    obtain ⟨n, hn⟩ := h v hv
    exact ⟨n, hn⟩
  · -- a missing count is `0`, and another is one of the summands
    unfold count at hb
    cases hlook : Json.lookup stats "suspicious" with
    | none =>
      rw [hlook] at hb
      have : (0 : ℤ) = b := Option.some.inj hb
      omega
    | some v =>
      rw [hlook] at hb
      have hle := Json.le_intSum hnonneg (List.mem_map_of_mem (Json.mem_of_lookup hlook)) hb
      omega

theorem analysisStats_eq_some :
    analysisStats raw = some stats ↔ ∃ members fields, raw = .obj members ∧
      (Json.member members "_not_found").truthy = false ∧
      (raw.item "data" >>= fun data => data.item "attributes") = .ok (.obj fields) ∧
      (Json.lookup fields "last_analysis_stats").getD (.obj []) = .obj stats := by
  constructor
  · intro h
    unfold analysisStats at h
    split at h
    · rename_i members
      split at h
      · contradiction
      · rename_i hfound
        split at h
        · rename_i fields hnav
          split at h
          · rename_i stats' hstats
            obtain rfl := Option.some.inj h
            exact ⟨members, fields, rfl, by simpa using hfound, hnav, hstats⟩
          · contradiction
        · contradiction
    · contradiction
  · rintro ⟨members, fields, rfl, hfound, hnav, hstats⟩
    unfold analysisStats
    simp only [hfound, hnav, hstats, Bool.false_eq_true, if_false]

/-- The summary line of integers: it is as expected, or one of them is too long. -/
theorem summaryLine_of_int (fl : FloatArith) {m s : Json} {i j : ℤ} (hm : m.intValue? = some i)
    (hs : s.intValue? = some j) (n : ℤ) :
    (∃ line, summaryLine fl m s (.int n) = .ok line ∧
      (0 < n → line = toString (i + j) ++ "/" ++ toString n ++ " vendors flagged" ∧
        Json.Writable (i + j) ∧ Json.Writable n) ∧
      (¬ 0 < n → line = "No detections")) ∨
    summaryLine fl m s (.int n) = .error .valueError := by
  unfold summaryLine
  rw [Json.addNumber_of_int hm hs, Json.gtInt_int]
  simp only [bind, Except.bind, pure, Except.pure, decide_eq_true_eq, Json.numberText_int]
  by_cases hn : 0 < n
  · rw [if_pos hn]
    by_cases hflagged : Json.Writable (i + j)
    · by_cases htotal : Json.Writable n
      · rw [if_pos hflagged, if_pos htotal]
        exact .inl ⟨_, rfl, fun _ => ⟨rfl, hflagged, htotal⟩, fun h => absurd hn h⟩
      · rw [if_pos hflagged, if_neg htotal]
        exact .inr rfl
    · rw [if_neg hflagged]
      exact .inr rfl
  · rw [if_neg hn]
    exact .inl ⟨_, rfl, fun h => absurd h hn, fun _ => rfl⟩

/-- The data of a response with stats. -/
def countedData (stats : List (String × Json)) (n : ℕ) (reputation : Json) :
    List (String × Json) :=
  [("malicious_count", count stats "malicious"), ("suspicious_count", count stats "suspicious"),
    ("total_engines", .int n), ("reputation", reputation), ("last_analysis_stats", .obj stats)]

/-- The result of a response with stats, as far as it has one: its counts can be written. -/
theorem result_of_stats {m s n : ℕ} (hstats : analysisStats raw = some stats)
    (hcounts : CountedBy stats m s n) (hparse : parseVtResponse fl now raw cached seconds = .ok r) :
    ∃ reputation line, r = .contributed now Virustotal.source (countedData stats n reputation) line
        cached seconds ∧
      (0 < n → line = toString (m + s) ++ "/" ++ toString n ++ " vendors flagged" ∧
        Json.Writable ((m + s : ℕ) : ℤ) ∧ Json.Writable (n : ℤ)) ∧
      (n = 0 → line = "No detections") := by
  obtain ⟨members, fields, rfl, hfound, hnav, hfields⟩ := analysisStats_eq_some.mp hstats
  obtain ⟨data, hdata, hattrs⟩ := Except.bind_eq_ok.mp hnav
  have hread : parseAttributes fl (.obj members) = readAttributes fl (.obj fields) := by
    unfold parseAttributes
    rw [hdata]
    show (data.item "attributes" >>= readAttributes fl) = _
    rw [hattrs]
    rfl
  rw [parseVtResponse, Json.get_obj_bind, hfound, if_neg Bool.false_ne_true, hread,
    readAttributes_obj hfields, Json.sumNumbers_of_int hcounts.ints, hcounts.total] at hparse
  rcases summaryLine_of_int fl hcounts.malicious hcounts.suspicious n with
    ⟨line, hline, hpos, hzero⟩ | hline
  · refine ⟨Json.member fields "reputation", line, ?_, ?_, ?_⟩
    · simp only [bind, Except.bind, hline] at hparse
      exact (Except.ok.inj hparse).symm
    · intro hn
      have := hpos (by omega)
      exact_mod_cast this
    · intro hn
      exact hzero (by omega)
  · simp only [bind, Except.bind, hline] at hparse
    contradiction

/-- The result of a response without stats. -/
theorem result_of_no_stats (hstats : analysisStats raw = none)
    (hparse : parseVtResponse fl now raw cached seconds = .ok r) :
    r.status = .failing ∨ r = .contributed now Virustotal.source
      [("malicious_count", .int 0), ("total_engines", .int 0), ("not_in_database", .bool true)]
      "Not in VT database" cached seconds := by
  cases raw with
  | obj members =>
    rw [parseVtResponse, Json.get_obj_bind] at hparse
    split at hparse
    · exact .inr (Except.ok.inj hparse).symm
    · rename_i hfound
      split at hparse
      · rename_i data summary hattrs
        have hattributes := caught_parseAttributes.mp (caught_of_ok hattrs)
        obtain ⟨d, hd, hrest⟩ := Except.bind_eq_ok.mp hattrs
        obtain ⟨attrs, ha, -⟩ := Except.bind_eq_ok.mp hrest
        have hnav : ((Json.obj members).item "data" >>= fun data => data.item "attributes") =
            .ok attrs := Except.bind_eq_ok.mpr ⟨d, hd, ha⟩
        obtain ⟨fields, stats, rfl, hfields, -⟩ := hattributes attrs hnav
        have hsome := analysisStats_eq_some.mpr
          ⟨members, fields, rfl, by simpa using hfound, hnav, hfields⟩
        rw [hstats] at hsome
        contradiction
      · exact .inl (by rw [← Except.ok.inj hparse]; rfl)
      · exact .inl (by rw [← Except.ok.inj hparse]; rfl)
      · contradiction
  | _ =>
    contradiction

/-! ### The label -/

/-- The label and the summary say the same of the engines. -/
structure Agree (fl : FloatArith) (r : EnrichmentResult) (fields : VtFields) : Prop where
  /-- A name is called clean only if no engine of those asked has flagged it. -/
  clean : ∀ n : String, fields.label = some ("Clean — 0/" ++ n ++ " vendors, no detections") →
    ∃ k : ℕ, 0 < k ∧ n = toString k ∧ r.summary = some ("0/" ++ n ++ " vendors flagged")
  /-- Where no engine was asked nothing is a count. -/
  noCount : fields.vtTotal = .int 0 →
    fields.label = none ∧ (∀ line, r.summary = some line → '/' ∉ line.toList) ∧
      ∀ text, renderVirustotal fl r.cached fields = .ok text → '/' ∉ text.toList

theorem clean_injective {s t : String}
    (h : "Clean — 0/" ++ s ++ " vendors, no detections" =
      "Clean — 0/" ++ t ++ " vendors, no detections") : s = t :=
  (String.append_right_inj _).mp ((String.append_left_inj _).mp h)

theorem confirmed_ne_clean (s t : String) : "Confirmed malicious — " ++ s ≠ "Clean — 0/" ++ t := by
  intro h
  have hchars := congrArg String.toList h
  simp only [String.toList_append] at hchars
  simp at hchars

theorem suspicious_ne_clean (s t : String) : "Suspicious — " ++ s ≠ "Clean — 0/" ++ t := by
  intro h
  have hchars := congrArg String.toList h
  simp only [String.toList_append] at hchars
  simp at hchars

/-- The label of counts that can be written: it is clean when none is malicious. -/
theorem vtLabel_of_int (fl : FloatArith) {m : Json} {i n : ℕ} (hm : m.intValue? = some (i : ℤ))
    (hi : Json.Writable i) (hn : Json.Writable n) :
    ∃ label, vtLabel fl m (.int n) = .ok label ∧
      (i = 0 → label = "Clean — 0/" ++ toString n ++ " vendors, no detections") ∧
      (0 < i → ∀ t, label ≠ "Clean — 0/" ++ t ++ " vendors, no detections") := by
  obtain ⟨t, ht⟩ := numberText_of_int hm hi
  unfold vtLabel
  rw [Json.geInt_of_int hm, Json.gtInt_of_int hm, Json.numberText_int, if_pos hn, ht]
  simp only [bind, Except.bind, pure, Except.pure, decide_eq_true_eq]
  by_cases hten : 10 ≤ (i : ℤ)
  · rw [if_pos hten]
    refine ⟨_, rfl, by omega, fun _ u h => ?_⟩
    rw [String.append_assoc, String.append_assoc, String.append_assoc, String.append_assoc] at h
    exact confirmed_ne_clean _ _ h
  · rw [if_neg hten]
    by_cases hpos : 0 < (i : ℤ)
    · rw [if_pos hpos]
      refine ⟨_, rfl, by omega, fun _ u h => ?_⟩
      rw [String.append_assoc, String.append_assoc, String.append_assoc, String.append_assoc] at h
      exact suspicious_ne_clean _ _ h
    · rw [if_neg hpos]
      exact ⟨_, rfl, fun _ => rfl, by omega⟩

/-- A result without analysis gets no label. -/
theorem agree_of_noAnalysis {fields : VtFields} {data : List (String × Json)} {line : String}
    (htotal : fields.vtTotal = .int 0) (hlabel : fields.label = none)
    (htext : fields.vtNoAnalysisText = some (vtNoAnalysisText data)) (hline : r.summary = some line)
    (hslash : '/' ∉ line.toList) : Agree fl r fields where
  clean n h := by
    rw [hlabel] at h
    contradiction
  noCount _ := by
    refine ⟨hlabel, ?_, ?_⟩
    · intro line' hline'
      rw [hline] at hline'
      rwa [← Option.some.inj hline']
    · intro text h
      rw [renderVirustotal, htotal, Json.gtInt_int, htext] at h
      obtain rfl := Except.ok.inj h
      simp only [Option.getD_some, String.toList_append, vtNoAnalysisText]
      split
      · decide
      · decide

theorem build_of_virustotal {fields : VtFields} (hlower : lower "virustotal" = "virustotal")
    (hstatus : r.status = .contributed) (hsource : r.source = Virustotal.source)
    (hfields : formatVirustotalFields fl r = .ok fields) (ind : TextIndicator) :
    ∃ item, buildEnrichmentContext fl lower [(ind, r)] = .ok [item] ∧ item.vt = some fields := by
  have hsource' : lower r.source = "virustotal" := by rw [hsource, Virustotal.source, hlower]
  refine ⟨{
    type := ind.type.text
    indicator := ind.value
    source := sourceDisplay lower r.source
    status := r.status
    summary := r.summary
    cached := r.cached
    cacheAgeSeconds := r.cacheAgeSeconds
    vt := some fields }, ?_, rfl⟩
  unfold buildEnrichmentContext
  rw [List.filter_cons_of_pos (by simpa using hstatus), List.filter_nil, List.mapM_cons,
    List.mapM_nil, contextItem, if_pos hsource', hfields]
  rfl

theorem build_of_failing (hstatus : r.status = .failing) (ind : TextIndicator) :
    buildEnrichmentContext fl lower [(ind, r)] = .ok [] := by
  unfold buildEnrichmentContext
  rw [List.filter_cons_of_neg (by simp [hstatus])]
  rfl

/-- The fields of a result without engines. -/
theorem format_of_zero (fl : FloatArith) {data : List (String × Json)} (hdata : r.data = some data)
    (htotal : (Json.lookup data "total_engines").getD (.int 0) = .int 0) :
    ∃ fields, formatVirustotalFields fl r = .ok fields ∧ fields.vtTotal = .int 0 ∧
      fields.label = none ∧ fields.vtNoAnalysisText = some (vtNoAnalysisText data) := by
  unfold formatVirustotalFields
  simp only [hdata, Option.getD_some, htotal, Json.gtInt_int]
  exact ⟨_, rfl, rfl, rfl, rfl⟩

/-- A result without engines renders to no count. -/
theorem build_of_zero (fl : FloatArith) {data : List (String × Json)} {line : String}
    (hlower : lower "virustotal" = "virustotal") (hstatus : r.status = .contributed)
    (hsource : r.source = Virustotal.source) (hdata : r.data = some data)
    (htotal : (Json.lookup data "total_engines").getD (.int 0) = .int 0)
    (hline : r.summary = some line) (hslash : '/' ∉ line.toList) (ind : TextIndicator) :
    ∃ items, buildEnrichmentContext fl lower [(ind, r)] = .ok items ∧
      ∀ item ∈ items, ∃ fields, item.vt = some fields ∧ Agree fl r fields := by
  obtain ⟨fields, hfields, htot, hlabel, htext⟩ := format_of_zero fl hdata htotal
  obtain ⟨item, hitems, hvt⟩ := build_of_virustotal hlower hstatus hsource hfields ind
  refine ⟨[item], hitems, ?_⟩
  rw [List.forall_mem_singleton]
  exact ⟨fields, hvt, agree_of_noAnalysis htot hlabel htext hline hslash⟩

/-- The fields of a result with engines, of which `m` say malicious. -/
theorem format_of_pos (fl : FloatArith) {m s n : ℕ} {reputation : Json}
    (hdata : r.data = some (countedData stats n reputation)) (hcounts : CountedBy stats m s n)
    (hn : 0 < n) (hflagged : Json.Writable ((m + s : ℕ) : ℤ)) (htotal : Json.Writable (n : ℤ)) :
    ∃ fields label, formatVirustotalFields fl r = .ok fields ∧ fields.label = some label ∧
      fields.vtTotal = .int n ∧
      (m = 0 → label = "Clean — 0/" ++ toString n ++ " vendors, no detections") ∧
      (0 < m → ∀ t, label ≠ "Clean — 0/" ++ t ++ " vendors, no detections") := by
  have hm : Json.Writable (m : ℤ) := hflagged.mono (by omega)
  obtain ⟨label, hlabel, hclean⟩ := vtLabel_of_int fl hcounts.malicious hm htotal
  have hmalicious : (Json.lookup (countedData stats n reputation) "malicious_count").getD (.int 0) =
      count stats "malicious" := rfl
  have htot : (Json.lookup (countedData stats n reputation) "total_engines").getD (.int 0) =
      .int n := rfl
  have hpos : Json.gtInt fl 0 (.int n) = .ok true := by
    rw [Json.gtInt_int, decide_eq_true (by omega)]
  unfold formatVirustotalFields
  simp only [hdata, Option.getD_some, hmalicious, htot, hpos, hlabel]
  exact ⟨_, label, rfl, rfl, rfl, hclean⟩

/-- With engines the two disagree only about a name that is suspicious to some. -/
theorem agree_of_pos (fl : FloatArith) {fields : VtFields} {label : String} {m s n : ℕ} (hn : 0 < n)
    (hlabel : fields.label = some label) (htotal : fields.vtTotal = .int n)
    (hclean : m = 0 → label = "Clean — 0/" ++ toString n ++ " vendors, no detections")
    (hother : 0 < m → ∀ t, label ≠ "Clean — 0/" ++ t ++ " vendors, no detections")
    (hsummary : r.summary = some (toString (m + s) ++ "/" ++ toString n ++ " vendors flagged")) :
    Agree fl r fields ↔ ¬ (m = 0 ∧ 0 < s) := by
  constructor
  · rintro hagree ⟨rfl, hs⟩
    obtain ⟨k, -, -, hline⟩ := hagree.clean (toString n) (by rw [hlabel, hclean rfl])
    rw [hsummary] at hline
    have hflagged : toString (0 + s) ++ "/" = "0" ++ "/" :=
      (String.append_left_inj _).mp ((String.append_left_inj _).mp (Option.some.inj hline))
    have hzero := toString_eq_zero ((String.append_left_inj _).mp hflagged)
    omega
  · intro hnot
    refine ⟨?_, ?_⟩
    · intro t ht
      rw [hlabel] at ht
      have ht := Option.some.inj ht
      rcases Nat.eq_zero_or_pos m with rfl | hm
      · obtain rfl : s = 0 := by omega
        rw [hclean rfl] at ht
        obtain rfl := clean_injective ht
        exact ⟨n, hn, rfl, hsummary⟩
      · exact absurd ht (hother hm t)
    · intro hzero
      rw [htotal] at hzero
      have : (n : ℤ) = 0 := Json.int.inj hzero
      omega

/-- In every nonnegative response the label and the summary agree, unless engines call the name
suspicious and none calls it malicious. -/
theorem agree_iff (hlower : lower "virustotal" = "virustotal") (hstats : NonnegativeStats raw)
    (hparse : parseVtResponse fl now raw cached seconds = .ok r) :
    ∃ items, buildEnrichmentContext fl lower [(ind, r)] = .ok items ∧
      ((∀ item ∈ items, ∃ fields, item.vt = some fields ∧ Agree fl r fields) ↔
        ¬ OnlySuspicious raw) := by
  cases hraw : analysisStats raw with
  | none =>
    have hnot : ¬ OnlySuspicious raw := by
      rintro ⟨stats, hsome, -⟩
      rw [hraw] at hsome
      contradiction
    -- no stats: the lookup failed, or the name is not known
    rcases result_of_no_stats hraw hparse with hfailing | hr
    · exact ⟨[], build_of_failing hfailing ind, iff_of_true (by simp) hnot⟩
    · have hline : r.summary = some "Not in VT database" := by rw [hr]; rfl
      obtain ⟨items, hitems, hagree⟩ := build_of_zero fl hlower (by rw [hr]; rfl)
        (by rw [hr]; rfl) (by rw [hr]; rfl) rfl hline (by decide) ind
      exact ⟨items, hitems, iff_of_true hagree hnot⟩
  | some stats =>
    obtain ⟨m, s, n, hcounts⟩ := exists_countedBy (hstats stats hraw)
    obtain ⟨reputation, line, hr, hpos, hzero⟩ := result_of_stats hraw hcounts hparse
    -- with the counts, the condition is one on two numbers
    have honly : OnlySuspicious raw ↔ m = 0 ∧ 0 < s := by
      constructor
      · rintro ⟨stats', hsome, hm, k, hk, hs⟩
        rw [hraw] at hsome
        obtain rfl := Option.some.inj hsome
        rw [hcounts.malicious] at hm
        rw [hcounts.suspicious] at hs
        have hm' := Option.some.inj hm
        have hs' := Option.some.inj hs
        omega
      · rintro ⟨rfl, hs⟩
        exact ⟨stats, hraw, hcounts.malicious, s, hs, hcounts.suspicious⟩
    have hsummary : r.summary = some line := by rw [hr]; rfl
    rw [honly]
    rcases Nat.eq_zero_or_pos n with rfl | hn
    · -- no engine has an opinion
      have hs := hcounts.suspicious_le
      rw [hzero rfl] at hsummary
      obtain ⟨items, hitems, hagree⟩ := build_of_zero fl hlower (by rw [hr]; rfl)
        (by rw [hr]; rfl) (by rw [hr]; rfl) rfl hsummary (by decide) ind
      exact ⟨items, hitems, iff_of_true hagree (by omega)⟩
    · obtain ⟨hline, hflagged, htotal⟩ := hpos hn
      rw [hline] at hsummary
      have hdata : r.data = some (countedData stats n reputation) := by rw [hr]; rfl
      obtain ⟨fields, label, hfields, hlabel, htot, hclean, hother⟩ :=
        format_of_pos fl hdata hcounts hn hflagged htotal
      have hstatus : r.status = .contributed := by rw [hr]; rfl
      have hsource : r.source = Virustotal.source := by rw [hr]; rfl
      obtain ⟨item, hitems, hvt⟩ := build_of_virustotal hlower hstatus hsource hfields ind
      refine ⟨[item], hitems, ?_⟩
      rw [List.forall_mem_singleton, hvt,
        ← agree_of_pos fl hn hlabel htot hclean hother hsummary]
      constructor
      · rintro ⟨fields', hf, hagree⟩
        rwa [Option.some.inj hf]
      · intro hagree
        exact ⟨fields, rfl, hagree⟩

/-- A response in which engines call the name suspicious and none calls it malicious. -/
def suspiciousBody : Json :=
  sampleBody (.obj [("malicious", .int 0), ("suspicious", .int 2), ("harmless", .int 85)])

/-- A response in which engines call the name malicious. -/
def maliciousBody : Json := sampleBody (.obj [("malicious", .int 3), ("harmless", .int 60)])

/-- The result of a response just fetched. -/
def resultOf (body : Json) : Except PyError EnrichmentResult :=
  parseVtResponse noFloats .yearOne body false none

theorem agree_malicious :
    ∃ r, resultOf maliciousBody = .ok r ∧
      ∃ items, buildEnrichmentContext noFloats id [(⟨.ip, "198.51.100.7"⟩, r)] = .ok items ∧
        ((∀ item ∈ items, ∃ fields, item.vt = some fields ∧ Agree noFloats r fields) ↔
          ¬ OnlySuspicious maliciousBody) := by
  have hstats : NonnegativeStats maliciousBody := by
    intro stats hsome v hv
    obtain rfl : _ = stats := Option.some.inj hsome
    simp only [List.map_cons, List.map_nil, List.mem_cons, List.not_mem_nil, or_false] at hv
    rcases hv with rfl | rfl
    · exact ⟨3, rfl⟩
    · exact ⟨60, rfl⟩
  have hok : (resultOf maliciousBody).isOk = true := by decide +kernel
  cases hparse : resultOf maliciousBody with
  | ok r => exact ⟨r, rfl, agree_iff rfl hstats hparse⟩
  | error e =>
    rw [hparse] at hok
    contradiction

/-- The summary of the ledger and the labels of the prompt for a response. -/
def rendered (body : Json) : Except PyError (Option String × List (Option String)) := do
  let r ← resultOf body
  let items ← buildEnrichmentContext noFloats id [(⟨.ip, "198.51.100.7"⟩, r)]
  return (r.summary, items.map fun item => item.vt.bind VtFields.label)

theorem rendered_suspicious : (rendered suspiciousBody).toOption =
    some (some "2/87 vendors flagged", [some "Clean — 0/87 vendors, no detections"]) := by
  decide +kernel

/-- The prompt calls the name clean where the ledger says that two engines flagged it. -/
theorem clean_but_flagged :
    ∃ r items, resultOf suspiciousBody = .ok r ∧
      buildEnrichmentContext noFloats id [(⟨.ip, "198.51.100.7"⟩, r)] = .ok items ∧
      ¬ ∀ item ∈ items, ∃ fields, item.vt = some fields ∧ Agree noFloats r fields := by
  cases hrun : rendered suspiciousBody with
  | error e =>
    have h := rendered_suspicious
    rw [hrun] at h
    cases h
  | ok lines =>
    have hlines := rendered_suspicious
    rw [hrun] at hlines
    obtain rfl := Option.some.inj hlines
    obtain ⟨r, hr, hrest⟩ := Except.bind_eq_ok.mp hrun
    obtain ⟨items, hitems, hpair⟩ := Except.bind_eq_ok.mp hrest
    obtain ⟨hsummary, hlabels⟩ := Prod.mk.inj (Except.ok.inj hpair)
    refine ⟨r, items, hr, hitems, fun hall => ?_⟩
    obtain ⟨item, hitem, hlabel⟩ := List.mem_map.mp (hlabels ▸ List.mem_singleton_self _)
    obtain ⟨fields, hvt, hagree⟩ := hall item hitem
    rw [hvt] at hlabel
    obtain ⟨k, -, -, hline⟩ := hagree.clean "87" hlabel
    rw [hsummary] at hline
    have hne : "2/87 vendors flagged" ≠ "0/" ++ "87" ++ " vendors flagged" := by decide
    exact hne (Option.some.inj hline)

end Verdix.PromptBuilder
