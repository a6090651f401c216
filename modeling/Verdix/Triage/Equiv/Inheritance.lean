import Verdix.Triage.Equiv.Verdicts

/-!
# Inherited verdicts are one hop from a produced one

`inherited_one_hop`: in every history of `_process_alert` runs, the source of an inherited verdict
is a stored verdict that is itself not inherited, was linked to an analyzed alert of the same group
within the window, and has been copied.

The query tells the two kinds apart with `LIKE` on the serialized inputs.  Every inherited verdict
matches (`like_inheritedInputs`), so what the query returns is not one; and a produced verdict never
reads as inherited (`dumps_complete_ne`), since its inputs start with another key.
-/

open TransitionSystem

namespace Verdix

namespace Worker

/-! ### The discriminator -/

theorem inheritedInputs_toList (v : String) : (inheritedInputs v).toList =
    '{' :: (Json.quote "inherited_from" ++ ':' :: ' ' :: (Json.quote v ++ ['}'])) := by
  simp [inheritedInputs, Json.dumps, Json.dumpsChars, Json.dumpsMembers]

theorem inheritedInputs_injective {v w : String} (h : inheritedInputs v = inheritedInputs w) :
    v = w := by
  have h' := congrArg String.toList h
  rw [inheritedInputs_toList, inheritedInputs_toList] at h'
  have h2 := (Json.quote_injective (List.cons.inj h').2).2
  exact (Json.quote_injective (List.cons.inj (List.cons.inj h2).2).2).1

/-- The pattern of the query matches every inherited verdict. -/
theorem like_inheritedInputs (v : String) :
    Like.like EventStore.inheritedPattern.toList (inheritedInputs v).toList = true := by
  have hkey : Like.like (Json.quote "inherited_from") (Json.quote "inherited_from") = true := by
    decide +kernel
  have h := Like.like_contains hkey ['{'] (':' :: ' ' :: (Json.quote v ++ ['}']))
  rw [inheritedInputs_toList]
  exact h

/-- The inputs of a produced verdict do not read as inherited. -/
theorem dumps_complete_ne (model promptVersion prompt : String) (latencyMs : ℤ)
    (output : VerdictOutput) (v : String) :
    Json.dumps (OllamaClient.complete model promptVersion prompt latencyMs output).llmInputs ≠
      inheritedInputs v := by
  intro h
  have h' := congrArg String.toList h
  rw [inheritedInputs_toList] at h'
  simp only [OllamaClient.complete, Json.dumps, Json.dumpsChars, Json.dumpsMembers,
    String.toList_ofList, List.append_assoc] at h'
  have hkey := (Json.quote_injective (List.cons.inj h').2).1
  exact absurd hkey (by decide)

end Worker

namespace Runs

/-! ### Sources -/

/-- At some step of the run, `v` was the linked verdict of an analyzed alert in the group of `a`,
ingested within the hour up to the ingestion of `a`. -/
def SourcedBy (tr : List (Move Runs Act)) (a : Alert) (v : String) : Prop :=
  a.signatureId ≠ .null ∧ a.srcIp ≠ .null ∧ a.dstIp ≠ .null ∧
    ∃ m ∈ tr, ∃ r ∈ m.pre.db.alerts.rows, r.status = .analyzed ∧ r.verdictId = some v ∧
      r.signatureId = a.signatureId ∧ r.srcIp = a.srcIp ∧ r.dstIp = a.dstIp ∧
      a.ingestTimestamp.micros ≤ r.ingestTimestamp.micros + usPerHour ∧
      r.ingestTimestamp ≤ a.ingestTimestamp

/-- A verdict that no inherited verdict reads like. -/
def Produced (w : Verdict) : Prop := ∀ v, w.llmInputs ≠ Worker.inheritedInputs v

/-- The columns that an inherited verdict takes over from its source. -/
def copied (w : Verdict) : String × String × String × String × String :=
  (w.verdictCategory, w.confidenceScore, w.reasoning, w.contributingFacts, w.evidenceChain)

/-- If `w` is inherited from `v`, then `v` is produced, `w` copies it, and the alert of `w` is
stored and was sourced by `v`. -/
def OneHop (tr : List (Move Runs Act)) (db : Db) (w : Verdict) : Prop :=
  ∀ v, w.llmInputs = Worker.inheritedInputs v →
    (∃ source ∈ db.verdicts.rows, source.verdictId = v ∧ Produced source ∧
      copied w = copied source) ∧
    ∃ a ∈ db.alerts.rows, a.alertId = w.alertId ∧ SourcedBy tr a v

variable {cap : ℕ} {resetHour : Fin 24} {s s' : Runs} {tr : List (Move Runs Act)} {db db' : Db}

theorem SourcedBy.snoc {a : Alert} {v : String} (h : SourcedBy tr a v) (m : Move Runs Act) :
    SourcedBy (tr ++ [m]) a v := by
  obtain ⟨h1, h2, h3, n, hn, hprop⟩ := h
  exact ⟨h1, h2, h3, n, List.mem_append_left _ hn, hprop⟩

theorem SourcedBy.of_facts {a b : Alert} {v : String} (h : SourcedBy tr a v)
    (hab : b.facts = a.facts) : SourcedBy tr b v := by
  obtain ⟨h1, h2, h3⟩ := Alert.group_of_facts hab
  unfold SourcedBy
  rw [h1, h2, h3, Alert.ingestTimestamp_of_facts hab]
  exact h

/-- What a step may do to the tables: alerts keep their facts, verdicts all but `is_current`. -/
structure Keeps (db db' : Db) : Prop where
  alerts : ∀ a ∈ db.alerts.rows, ∃ b ∈ db'.alerts.rows, b.facts = a.facts
  verdicts : ∀ w ∈ db.verdicts.rows, ∃ u ∈ db'.verdicts.rows,
    u.verdictId = w.verdictId ∧ u.llmInputs = w.llmInputs ∧ copied u = copied w

theorem Keeps.refl (db : Db) : Keeps db db :=
  ⟨fun a ha => ⟨a, ha, rfl⟩, fun w hw => ⟨w, hw, rfl, rfl, rfl⟩⟩

theorem OneHop.mono {w : Verdict} (h : OneHop tr db w) (hK : Keeps db db') (m : Move Runs Act) :
    OneHop (tr ++ [m]) db' w := by
  intro v hv
  obtain ⟨⟨source, hsource, hid, hprod, hcopy⟩, a, ha, halert, hsrc⟩ := h v hv
  obtain ⟨u, hu, hu1, hu2, hu3⟩ := hK.verdicts source hsource
  obtain ⟨b, hb, hfacts⟩ := hK.alerts a ha
  refine ⟨⟨u, hu, hu1.trans hid, ?_, hcopy.trans hu3.symm⟩, b, hb,
    (Alert.alertId_of_facts hfacts).trans halert, (hsrc.of_facts hfacts).snoc m⟩
  intro x
  rw [hu2]
  exact hprod x

theorem keeps_worker {now : Datetime} {w w' : Worker.Stage} (h : Worker.Move now db w db' w') :
    Keeps db db' := by
  refine ⟨fun a ha => ?_, fun u hu => ?_⟩
  · obtain ⟨b, hb, hfacts, -⟩ := h.exists_mem ha
    exact ⟨b, hb, hfacts⟩
  · obtain ⟨b, hb⟩ := h.exists_verdict hu
    exact ⟨_, hb, rfl, rfl, rfl⟩

/-! ### The invariant -/

/-- Every stored verdict, the draft in hand and the source being fetched are one hop from a
produced verdict. -/
structure HopInv (tr : List (Move Runs Act)) (s : Runs) : Prop where
  rows : ∀ w ∈ s.db.verdicts.rows, OneHop tr s.db w
  inHand : ∀ a, s.worker.alert? = some a → ∃ r ∈ s.db.alerts.rows, r.facts = a.facts
  sourcing : ∀ a v, s.worker = .sourcing a v → SourcedBy tr a v ∧
    ∃ source ∈ s.db.verdicts.rows, source.verdictId = v ∧ Produced source
  superseding : ∀ a w, s.worker = .superseding a w → OneHop tr s.db w
  recording : ∀ a w, s.worker = .recording a w → OneHop tr s.db w

theorem hopInv_init (now : Datetime) : HopInv [] (init now) where
  rows w hw := by simp [init, Db.empty] at hw
  inHand a ha := by contradiction
  sourcing a v h := by contradiction
  superseding a w h := by contradiction
  recording a w h := by contradiction

/-- What the query returned is sourced, by the step that ran it. -/
theorem sourced_of_find {m : Move Runs Act} {order : ScanOrder Alert} {a : Alert} {v : String}
    (h : EventStore.findRecentVerdictForGroup m.pre.db order a.signatureId a.srcIp a.dstIp
      a.ingestTimestamp = .ok (some v)) :
    SourcedBy (tr ++ [m]) a v ∧
      ∃ source ∈ m.pre.db.verdicts.rows, source.verdictId = v ∧ Produced source := by
  obtain ⟨r, hr, w, hw, hrv, hwv, hA, h1, h2, h3, n1, n2, n3, hlo, hhi, hlike⟩ :=
    EventStore.findRecentVerdictForGroup_eq_some h
  refine ⟨⟨n1, n2, n3, m, List.mem_append_right _ (List.mem_singleton.mpr rfl), r, hr, hA, hrv, h1,
    h2, h3, hlo, hhi⟩, w, hw, hwv, fun u hu => ?_⟩
  rw [hu, Worker.like_inheritedInputs] at hlike
  contradiction

/-- The row built from a source is one hop from it. -/
theorem oneHop_inherited (hH : HopInv tr s) {a : Alert} {v uuid : String} {source : Verdict}
    {now : Datetime} (hw : s.worker = .sourcing a v)
    (hget : OperationalStore.getVerdict s.db v = some source) :
    OneHop tr s.db (Worker.inheritedVerdict uuid a.alertId v source now) := by
  intro x hx
  obtain rfl := Worker.inheritedInputs_injective hx
  obtain ⟨hsrc, u, hu, hid, hprod⟩ := hH.sourcing a v hw
  obtain ⟨hsource, hsid⟩ := Table.find?_eq_some_iff.mp hget
  obtain rfl := s.db.verdicts.eq_of_key_eq hu hsource (hid.trans hsid.symm)
  obtain ⟨r, hr, hfacts⟩ := hH.inHand a (by rw [hw]; rfl)
  exact ⟨⟨u, hu, hid, hprod, rfl⟩, r, hr, Alert.alertId_of_facts hfacts, hsrc.of_facts hfacts⟩

theorem HopInv.worker (hH : HopInv tr s) {act : Act} (hnow : s'.now = s.now)
    (h : Worker.Move s.now s.db s.worker s'.db s'.worker) :
    HopInv (tr ++ [⟨s, act, s'⟩]) s' := by
  have hK := keeps_worker h
  have hrows : ∀ w ∈ s.db.verdicts.rows, OneHop (tr ++ [⟨s, act, s'⟩]) s'.db w :=
    fun w hw => (hH.rows w hw).mono hK _
  have hhand : ∀ a, s'.worker.alert? = some a → ∃ r ∈ s'.db.alerts.rows, r.facts = a.facts := by
    intro a ha
    rcases h.alert?_cases ha with ha | ⟨-, -, hdb, order, hnext⟩
    · obtain ⟨r, hr, hfacts⟩ := hH.inHand a ha
      obtain ⟨b, hb, hb', -⟩ := h.exists_mem hr
      exact ⟨b, hb, hb'.trans hfacts⟩
    · rw [hdb]
      exact ⟨a, (Worker.nextQueued_eq_some hnext).1, rfl⟩
  obtain ⟨now, db, w⟩ := s
  obtain ⟨now', db', w'⟩ := s'
  dsimp only at hnow h hK hrows hhand
  subst hnow
  cases h with
  | leave hs =>
    refine ⟨hrows, hhand, fun a v hw => ?_, fun a u hw => ?_, fun a u hw => ?_⟩
    all_goals
      rw [show w' = _ from hw] at hs
      contradiction
  | prepare hw hw' hfind =>
    refine ⟨hrows, hhand, fun b v hs => ?_, fun b u hs => ?_, fun b u hs => ?_⟩
    · obtain rfl : w' = .sourcing b v := hs
      obtain rfl := Option.some.inj hw'
      -- the verdict was found by the filter that leaves inherited ones out
      obtain ⟨order, hord⟩ := hfind v rfl
      exact sourced_of_find hord
    all_goals
      rw [show w' = _ from hs] at hw'
      contradiction
  | inherit uuid hget =>
    refine ⟨hrows, hhand, by rintro b v ⟨⟩, fun b u hs => ?_, by rintro b u ⟨⟩⟩
    obtain ⟨-, rfl⟩ := Worker.Stage.superseding.inj hs
    exact (oneHop_inherited hH rfl hget).mono hK _
  | produce uuid r =>
    refine ⟨hrows, hhand, by rintro b v ⟨⟩, fun b u hs => ?_, by rintro b u ⟨⟩⟩
    obtain ⟨-, rfl⟩ := Worker.Stage.superseding.inj hs
    intro v hv
    -- the inputs of a prompt are no inherited ones
    exact absurd hv (Worker.dumps_complete_ne _ _ _ _ _ _)
  | supersede =>
    refine ⟨fun u hu => ?_, hhand, by rintro b v ⟨⟩, by rintro b u ⟨⟩, fun b u hs => ?_⟩
    · obtain ⟨v, hv, rfl⟩ := OperationalStore.mem_markPreviousVerdictsSuperseded.mp hu
      have hone := hrows v hv
      split_ifs
      · exact hone
      · exact hone
    · obtain ⟨-, rfl⟩ := Worker.Stage.recording.inj hs
      exact (hH.superseding _ _ rfl).mono hK _
  | record hrec =>
    refine ⟨fun u hu => ?_, hhand, by rintro b v ⟨⟩, by rintro b u ⟨⟩, by rintro b u ⟨⟩⟩
    rw [(OperationalStore.recordVerdict_eq_ok hrec).2.1, List.mem_append, List.mem_singleton] at hu
    rcases hu with hu | rfl
    · exact hrows u hu
    · exact (hH.recording _ _ rfl).mono hK _
  | _ =>
    exact ⟨hrows, hhand, by rintro b v ⟨⟩, by rintro b u ⟨⟩, by rintro b u ⟨⟩⟩

/-- A step that leaves the worker and the verdicts alone. -/
theorem HopInv.frame (hH : HopInv tr s) (m : Move Runs Act) (hK : Keeps s.db s'.db)
    (hverdicts : s'.db.verdicts = s.db.verdicts) (hworker : s'.worker = s.worker) :
    HopInv (tr ++ [m]) s' := by
  refine ⟨fun w hw => ?_, fun a ha => ?_, fun a v hw => ?_, fun a w hw => ?_, fun a w hw => ?_⟩
  · exact (hH.rows w (hverdicts ▸ hw)).mono hK m
  · obtain ⟨r, hr, hfacts⟩ := hH.inHand a (hworker ▸ ha)
    obtain ⟨b, hb, hb'⟩ := hK.alerts r hr
    exact ⟨b, hb, hb'.trans hfacts⟩
  · obtain ⟨hsrc, hex⟩ := hH.sourcing a v (hworker ▸ hw)
    exact ⟨hsrc.snoc m, hverdicts ▸ hex⟩
  · exact (hH.superseding a w (hworker ▸ hw)).mono hK m
  · exact (hH.recording a w (hworker ▸ hw)).mono hK m

theorem HopInv.step (hH : HopInv tr s) {act : Act} (h : Runs.step cap resetHour s act = some s') :
    HopInv (tr ++ [⟨s, act, s'⟩]) s' := by
  cases act with
  | tick t =>
    obtain rfl := step_tick h
    exact hH.frame _ (.refl _) rfl rfl
  | arrive row =>
    obtain ⟨-, db, hrow, rfl⟩ := step_arrive h
    obtain ⟨-, hrows, hverdicts⟩ := EventStore.insertRow_eq_ok hrow
    refine hH.frame _ ⟨fun a ha => ⟨a, ?_, rfl⟩, fun w hw => ⟨w, ?_, rfl, rfl, rfl⟩⟩ hverdicts rfl
    · exact hrows ▸ List.mem_append_left _ ha
    · exact hverdicts ▸ hw
  | begin alertId =>
    obtain ⟨a, ha, rfl⟩ := step_begin h
    refine ⟨fun w hw => (hH.rows w hw).mono (.refl _) _, fun b hb => ?_, by rintro b v ⟨⟩,
      by rintro b u ⟨⟩, by rintro b u ⟨⟩⟩
    obtain rfl := Option.some.inj hb
    exact ⟨a, ha, rfl⟩
  | worker a =>
    obtain ⟨hstep, hnow⟩ := step_worker h
    exact hH.worker hnow (Worker.move_of_step hstep)

theorem hopInv_of_run {now : Datetime} (h : Run (step cap resetHour) (init now) tr s) :
    HopInv tr s :=
  h.history (hopInv_init now) fun _ _ _ _ _ hH hstep => hH.step hstep

/-- Every inherited verdict is one hop from a produced one. -/
theorem inherited_one_hop {now : Datetime} (h : Run (step cap resetHour) (init now) tr s) :
    ∀ w ∈ s.db.verdicts.rows, ∀ v, w.llmInputs = Worker.inheritedInputs v →
      (∃ source ∈ s.db.verdicts.rows, source.verdictId = v ∧ Produced source ∧
        copied w = copied source) ∧
      ∃ a ∈ s.db.alerts.rows, a.alertId = w.alertId ∧ SourcedBy tr a v :=
  (hopInv_of_run h).rows

/-- The later alert of a group inherits the verdict of the earlier one. -/
theorem inherited_one_hop_two :
    let r := runFrom (step 5 0) (init (App.sampleTime 0 11 0)) (sampleActs ++ analyse "a" "v1" ++
      [.worker (.proceed (.rowid Alert) "u"), .begin "b"] ++
      List.replicate 7 (.worker (.proceed (.rowid Alert) "v2")))
    ∃ w ∈ r.2.db.verdicts.rows, w.llmInputs = Worker.inheritedInputs "v1" ∧
      ∃ source ∈ r.2.db.verdicts.rows, source.verdictId = "v1" ∧ Produced source ∧
        copied w = copied source := by
  intro r
  have hrow : (r.2.db.verdicts.rows[1]?.map Verdict.llmInputs) = some (Worker.inheritedInputs "v1") := by
    decide +kernel
  obtain ⟨w, hw, hv⟩ := Option.map_eq_some_iff.mp hrow
  have hw := List.mem_of_getElem? hw
  have hrun : Run (step 5 0) _ r.1 r.2 := run_runFrom _ _
  exact ⟨w, hw, hv, (inherited_one_hop hrun w hw "v1" hv).1⟩

end Runs

end Verdix
