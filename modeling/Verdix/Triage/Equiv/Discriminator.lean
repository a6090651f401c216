import Verdix.Enrichment.Equiv.Virustotal
import Verdix.Llm.VerdictV6
import Verdix.Triage.Equiv.Inheritance

/-!
# The filter on inherited verdicts tells the two kinds of row apart

`inheritedFilter_iff`: the pattern of `find_recent_verdict_for_group` matches every row of the
inheritance path, and no row written for a prompt that the template rendered.

A match ends in `om` and a quote.  Inside the prompt every quote has a backslash before it, the prompt
ends in a brace whatever the alert holds (`verdictPrompt_eq_ok`), and the schema after it is fixed.
-/

namespace Verdix.Worker

/-! ### Texts without a match -/

/-- No quote of `text` comes after the letters `o` and `m`; `b` and `a` are the characters before
`text`. -/
def clear : Char → Char → List Char → Bool
  | _, _, [] => true
  | b, a, c :: text => !(b.toLower == 'o' && a.toLower == 'm' && c == '"') && clear a c text

/-- A text that is clear after every two characters. -/
def Clear (text : List Char) : Prop := ∀ b a, clear b a text = true

theorem clear_cons_of_ne {c : Char} (hc : c ≠ '"') (b a : Char) (text : List Char) :
    clear b a (c :: text) = clear a c text := by
  simp [clear, hc]

theorem clear_quote {a : Char} (ha : a.toLower ≠ 'm') (b : Char) (text : List Char) :
    clear b a ('"' :: text) = clear a '"' text := by
  simp [clear, ha]

/-- A text with a match is not clear. -/
theorem clear_eq_false {x y : Char} (hx : x.toLower = 'o') (hy : y.toLower = 'm')
    (before after : List Char) (b a : Char) :
    clear b a (before ++ x :: y :: '"' :: after) = false := by
  induction before generalizing b a with
  | nil => simp [clear, hx, hy]
  | cons c before ih =>
    show (_ && clear a c (before ++ x :: y :: '"' :: after)) = false
    rw [ih, Bool.and_false]

theorem Clear.append {s rest : List Char} (hs : '"' ∉ s) (h : Clear rest) : Clear (s ++ rest) := by
  induction s with
  | nil => exact h
  | cons c s ih =>
    intro b a
    have hc : c ≠ '"' := fun hc => hs (hc ▸ List.mem_cons_self)
    rw [List.cons_append, clear_cons_of_ne hc]
    exact ih (fun hmem => hs (List.mem_cons_of_mem _ hmem)) a c

theorem hexDigit_ne_quote : ∀ d < 16, Json.hexDigit d ≠ '"' := by decide

theorem quote_notMem_unicodeEscape (n : ℕ) : '"' ∉ Json.unicodeEscape n := by
  have h : ∀ m, '"' ≠ Json.hexDigit (m % 16) := fun m =>
    (hexDigit_ne_quote _ (Nat.mod_lt m (by decide))).symm
  simp [Json.unicodeEscape, h]

theorem quote_notMem_escape {c : Char} (hc : c ≠ '"') : '"' ∉ Json.escape c := by
  unfold Json.escape
  rw [if_neg hc]
  split_ifs
  all_goals simp [quote_notMem_unicodeEscape, hc.symm]

/-- An escaped text keeps a clear text clear: a quote in it comes after its backslash. -/
theorem Clear.escape (s : List Char) {rest : List Char} (h : Clear rest) :
    Clear (s.flatMap Json.escape ++ rest) := by
  induction s with
  | nil => exact h
  | cons c s ih =>
    rw [List.flatMap_cons, List.append_assoc]
    by_cases hc : c = '"'
    · intro b a
      subst hc
      show clear b a ('\\' :: '"' :: _) = true
      rw [clear_cons_of_ne (by decide), clear_quote (by decide)]
      exact ih _ _
    · exact ih.append (quote_notMem_escape hc)

/-- The quote is no letter's lower case. -/
theorem eq_quote_of_toLower {c : Char} (h : c.toLower = '"') : c = '"' := by
  by_cases hupper : c.val ≥ 'A'.val ∧ c.val ≤ 'Z'.val
  · have hlower : c.toLower.val = c.val + ('a'.val - 'A'.val) := congrArg Char.val (dif_pos hupper)
    have hval : c.val + ('a'.val - 'A'.val) = '"'.val := by
      rw [← hlower, h]
    have hc : c.val = '"'.val - ('a'.val - 'A'.val) := by
      rw [← hval]
      simp
    have hle := hupper.1
    rw [hc] at hle
    exact absurd hle (by decide)
  · have hlower : c.toLower = c := dif_neg hupper
    rw [← hlower, h]

/-- A clear text is not matched by the pattern of the query. -/
theorem like_eq_false_of_clear {text : List Char} {b a : Char} (h : clear b a text = true) :
    Like.like EventStore.inheritedPattern.toList text = false := by
  by_contra hlike
  rw [Bool.not_eq_false] at hlike
  have hp : '%' ∉ Json.quote "inherited_from" := by decide
  have hlike' : Like.like ('%' :: (Json.quote "inherited_from" ++ ['%'])) text = true := hlike
  obtain ⟨before, part, after, rfl, hpart⟩ := (Like.like_contains_iff hp text).mp hlike'
  -- the last three characters of the part
  have hend : List.Forall₂ Like.Similar ['o', 'm', '"'] (part.drop 13) :=
    List.forall₂_drop 13 hpart
  rw [← List.take_append_drop 13 part] at h
  generalize part.take 13 = init at h
  generalize part.drop 13 = last at h hend
  cases hend with
  | cons hx hend =>
  cases hend with
  | cons hy hend =>
  cases hend with
  | cons hz hend =>
  cases hend
  obtain rfl := eq_quote_of_toLower (hz.resolve_left (by decide)).symm
  have hclear := clear_eq_false (hx.resolve_left (by decide)).symm (hy.resolve_left (by decide)).symm
    (before ++ init) after b a
  simp only [List.append_assoc, List.cons_append, List.nil_append] at h hclear
  rw [hclear] at h
  contradiction

/-! ### The two kinds of row -/

/-- The closing text is the last of every prompt. -/
theorem verdictPrompt_eq_ok {jinja : Jinja} {fl : FloatArith} {lower : String → String}
    {rawEve : Json} {correlatedEvents : List Json}
    {enrichmentPairs : List (TextIndicator × EnrichmentResult)}
    {srcHostname dstHostname : Option String} {prompt : String}
    (h : PromptBuilder.verdictPrompt jinja fl lower rawEve correlatedEvents enrichmentPairs
      srcHostname dstHostname = .ok prompt) :
    ∃ front, prompt = front ++ PromptBuilder.closing := by
  obtain ⟨context, -, hbuild⟩ := Except.bind_eq_ok.mp h
  obtain ⟨alertText, -, h1⟩ := Except.bind_eq_ok.mp hbuild
  obtain ⟨enrichment, -, h2⟩ := Except.bind_eq_ok.mp h1
  obtain ⟨correlated, -, h3⟩ := Except.bind_eq_ok.mp h2
  exact ⟨_, (Except.ok.inj h3).symm⟩

/-- The closing text ends in a brace. -/
theorem closing_eq : ∃ init, PromptBuilder.closing.toList = init ++ ['}'] := by
  have hbrace : "\x7d".toList = ['}'] := by decide
  unfold PromptBuilder.closing
  rw [String.toList_append, hbrace]
  exact ⟨_, rfl⟩

/-- What comes after the prompt's last character. -/
def afterPrompt : List Char :=
  '}' :: '"' :: ',' :: ' ' :: (Json.quote "output_schema" ++
    ':' :: ' ' :: (OllamaClient.outputSchema.dumpsChars ++ ['}']))

theorem clear_afterPrompt : Clear afterPrompt := by
  intro b a
  unfold afterPrompt
  rw [clear_cons_of_ne (by decide), clear_quote (by decide)]
  decide +kernel

/-- The inputs of a verdict whose prompt ends in a brace. -/
theorem complete_llmInputs (model promptVersion : String) (latencyMs : ℤ) (output : VerdictOutput)
    {prompt : String} {s : List Char} (hprompt : prompt.toList = s ++ ['}']) :
    (Json.dumps (OllamaClient.complete model promptVersion prompt latencyMs output).llmInputs).toList =
      '{' :: (Json.quote "prompt" ++ ':' :: ' ' :: '"' :: (s.flatMap Json.escape ++ afterPrompt)) := by
  have hbrace : Json.escape '}' = ['}'] := by decide
  simp [OllamaClient.complete, Json.dumps, Json.dumpsChars, Json.dumpsMembers, afterPrompt,
    Json.quote, hprompt, hbrace]

theorem like_complete {jinja : Jinja} {fl : FloatArith} {lower : String → String}
    {rawEve : Json} {correlatedEvents : List Json}
    {enrichmentPairs : List (TextIndicator × EnrichmentResult)}
    {srcHostname dstHostname : Option String} {prompt : String}
    (h : PromptBuilder.verdictPrompt jinja fl lower rawEve correlatedEvents enrichmentPairs
      srcHostname dstHostname = .ok prompt)
    (model promptVersion : String) (latencyMs : ℤ) (output : VerdictOutput) :
    Like.like EventStore.inheritedPattern.toList
      (Json.dumps (OllamaClient.complete model promptVersion prompt latencyMs output).llmInputs).toList
      = false := by
  obtain ⟨front, rfl⟩ := verdictPrompt_eq_ok h
  obtain ⟨init, hinit⟩ := closing_eq
  have hprompt : (front ++ PromptBuilder.closing).toList = (front.toList ++ init) ++ ['}'] := by
    rw [String.toList_append, hinit, List.append_assoc]
  rw [complete_llmInputs _ _ _ _ hprompt]
  have hclear := clear_afterPrompt.escape (front.toList ++ init) ' ' '"'
  generalize (front.toList ++ init).flatMap Json.escape ++ afterPrompt = rest at hclear ⊢
  apply like_eq_false_of_clear (b := ' ') (a := ' ')
  exact hclear

/-- The filter of the query refuses every inherited row and no produced one, whatever the alert, the
events and the enrichment results hold. -/
theorem inheritedFilter_separates (jinja : Jinja) (fl : FloatArith) (lower : String → String) :
    (∀ (rawEve : Json) (correlatedEvents : List Json)
        (enrichmentPairs : List (TextIndicator × EnrichmentResult))
        (srcHostname dstHostname : Option String) (prompt : String),
      PromptBuilder.verdictPrompt jinja fl lower rawEve correlatedEvents enrichmentPairs
        srcHostname dstHostname = .ok prompt →
      ∀ (verdictId alertId model promptVersion : String) (latencyMs : ℤ) (output : VerdictOutput)
        (evidenceChain : Json) (now : Datetime),
        Like.like EventStore.inheritedPattern.toList
          (producedVerdict verdictId alertId
            (OllamaClient.complete model promptVersion prompt latencyMs output)
            evidenceChain now).llmInputs.toList = false) ∧
    ∀ (verdictId alertId sourceVerdictId : String) (source : Verdict) (now : Datetime),
      Like.like EventStore.inheritedPattern.toList
        (inheritedVerdict verdictId alertId sourceVerdictId source now).llmInputs.toList = true := by
  constructor
  · intro _ _ _ _ _ prompt h _ _ model promptVersion latencyMs output _ _
    exact like_complete h model promptVersion latencyMs output
  · intro verdictId alertId sourceVerdictId source now
    exact like_inheritedInputs sourceVerdictId

/-- Texts of strings and integers. -/
def sampleJinja : Jinja where
  text v := match v with
    | .str s => .ok s
    | v => .ok (Json.dumps v)
  tojson v := .ok (Json.dumps v)
  upper s := String.ofList (s.toList.map Char.toUpper)

/-- An alert whose signature is the text that the query looks for. -/
def sampleEve : Json :=
  .obj [("alert", .obj [("signature", .str "\"inherited_from\""), ("signature_id", .int 1),
      ("severity", .int 2), ("category", .str "\"inherited_from")]),
    ("proto", .str "TCP"), ("src_ip", .str "10.0.0.1"), ("dest_ip", .str "192.0.2.1")]

/-- The prompt for that alert. -/
def samplePrompt : Except PyError String :=
  PromptBuilder.verdictPrompt sampleJinja Virustotal.noFloats PyStr.lowerAscii sampleEve [] []
    none none

/-- The verdict on an alert with the text in its signature is not taken for an inherited one. -/
theorem inheritedFilter_separates_sample :
    ∃ prompt, samplePrompt = .ok prompt ∧
      Like.like EventStore.inheritedPattern.toList
        (producedVerdict "v" "a" (OllamaClient.complete "m" "verdict_v6" prompt 0
          ⟨"likely_fp", "0.5", "", []⟩) .null (App.sampleTime 0 11 0)).llmInputs.toList = false := by
  obtain ⟨prompt, h⟩ : ∃ prompt, samplePrompt = .ok prompt := ⟨_, rfl⟩
  refine ⟨prompt, h, ?_⟩
  exact (inheritedFilter_separates _ _ _).1 _ _ _ _ _ _ h _ _ _ _ _ _ _ _

end Verdix.Worker
