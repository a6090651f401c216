import Verdix.App
import Verdix.Triage.Equiv.Worker
import Verdix.Triage.Runs

/-!
# Current and linked verdicts

Supersede, record and link are three transactions, and a run of `_process_alert` can end after each
of them.  `verdicts_consistent`: whatever runs were cut off where, no alert has two current
verdicts, and an analyzed alert is linked to its current one.

The invariant `VerdictInv` says what the worker owes between the transactions: from the first
status update to the link its alert is not `analyzed`, after the supersede call the alert has no
current verdict, and after the record call it has the recorded one.
-/

open TransitionSystem

namespace Verdix

namespace Worker

/-- The alert, from the first status update to the link. -/
def Stage.marked? : Stage → Option Alert
  | correlating a | assigning a | deduping a | sourcing a _ | analysing a
  | superseding a _ | recording a _ | linking a _ => some a
  | _ => none

/-- The alert and the verdict row built for it. -/
def Stage.draft? : Stage → Option (Alert × Verdict)
  | superseding a w | recording a w | linking a w => some (a, w)
  | _ => none

theorem Stage.marked?_of_preparing? {s : Stage} {a : Alert} (h : s.preparing? = some a) :
    s.marked? = some a := by
  cases s <;> first | exact h | contradiction

theorem Stage.draft?_of_preparing? {s : Stage} {a : Alert} (h : s.preparing? = some a) :
    s.draft? = none := by
  cases s <;> first | rfl | contradiction

theorem Stage.marked?_of_alert? {s : Stage} (h : s.alert? = none) : s.marked? = none := by
  cases s <;> first | rfl | contradiction

theorem Stage.draft?_of_alert? {s : Stage} (h : s.alert? = none) : s.draft? = none := by
  cases s <;> first | rfl | contradiction

end Worker

namespace Runs

theorem countP_le_one {α : Type*} {l : List α} {p : α → Bool} (hl : l.Nodup)
    (h : ∀ a ∈ l, ∀ b ∈ l, p a → p b → a = b) : l.countP p ≤ 1 := by
  rw [List.countP_eq_length_filter]
  have hnodup := hl.filter p
  match hf : l.filter p with
  | [] => simp
  | [a] => simp
  | a :: b :: rest =>
    have hmem : ∀ c, c ∈ l.filter p → c ∈ l ∧ p c := fun c hc => by simpa using hc
    obtain ⟨ha, hpa⟩ := hmem a (by rw [hf]; simp)
    obtain ⟨hb, hpb⟩ := hmem b (by rw [hf]; simp)
    rw [hf, h a ha b hb hpa hpb] at hnodup
    simp at hnodup

/-- What holds between the transactions. -/
structure VerdictInv (s : Runs) : Prop where
  current : ∀ v ∈ s.db.verdicts.rows, ∀ w ∈ s.db.verdicts.rows, v.isCurrent → w.isCurrent →
    v.alertId = w.alertId → v = w
  linked : ∀ a ∈ s.db.alerts.rows, a.status = .analyzed → ∃ v ∈ s.db.verdicts.rows,
    a.verdictId = some v.verdictId ∧ v.alertId = a.alertId ∧ v.isCurrent
  marked : ∀ a, s.worker.marked? = some a → ∀ r ∈ s.db.alerts.rows, r.alertId = a.alertId →
    r.status ≠ .analyzed
  draft : ∀ a w, s.worker.draft? = some (a, w) → w.alertId = a.alertId ∧ w.isCurrent
  recording : ∀ a w, s.worker = .recording a w → ∀ v ∈ s.db.verdicts.rows,
    v.alertId = a.alertId → v.isCurrent = false
  linking : ∀ a w, s.worker = .linking a w → w ∈ s.db.verdicts.rows

variable {cap : ℕ} {resetHour : Fin 24} {s s' : Runs}

theorem verdictInv_init (now : Datetime) : VerdictInv (init now) where
  current v hv := by simp [init, Db.empty] at hv
  linked a ha := by simp [init, Db.empty] at ha
  marked a ha := by contradiction
  draft a w h := by contradiction
  recording a w h := by contradiction
  linking a w h := by contradiction

/-- A new alert has no verdict, and the invariant is kept. -/
theorem VerdictInv.arrive (hV : s.VerdictInv) {row : Alert} {db : Db}
    (hrow : EventStore.insertRow s.db row = .ok db) (hst : row.status ≠ .analyzed) :
    VerdictInv { s with db := db } := by
  obtain ⟨-, hrows, hverdicts⟩ := EventStore.insertRow_eq_ok hrow
  constructor
  · exact hverdicts ▸ hV.current
  · intro a ha hA
    dsimp only at ha ⊢
    rw [hverdicts]
    rw [hrows, List.mem_append, List.mem_singleton] at ha
    rcases ha with ha | rfl
    · exact hV.linked a ha hA
    · exact absurd hA hst
  · intro a ha r hr hid
    dsimp only at hr
    rw [hrows, List.mem_append, List.mem_singleton] at hr
    rcases hr with hr | rfl
    · exact hV.marked a ha r hr hid
    · exact hst
  · exact hV.draft
  · exact hverdicts ▸ hV.recording
  · exact hverdicts ▸ hV.linking

/-- A status update of one alert's rows to a status other than `analyzed`. -/
theorem linked_updateAlertStatus (hV : s.VerdictInv) {alertId : String} {status : Status}
    (hst : status ≠ .analyzed) {a : Alert}
    (ha : a ∈ (EventStore.updateAlertStatus s.db alertId status).alerts.rows)
    (hA : a.status = .analyzed) : ∃ v ∈ s.db.verdicts.rows,
      a.verdictId = some v.verdictId ∧ v.alertId = a.alertId ∧ v.isCurrent := by
  obtain ⟨r, hr, rfl⟩ := EventStore.mem_updateAlertStatus.mp ha
  split_ifs at hA ⊢
  · exact absurd hA hst
  · exact hV.linked r hr hA

/-- The write that supersedes the older verdicts keeps the invariant. -/
theorem VerdictInv.supersede (hV : s.VerdictInv) {a : Alert} {w : Verdict} {now : Datetime}
    (hw : s.worker = .superseding a w) : VerdictInv {
      now := s.now
      db := OperationalStore.markPreviousVerdictsSuperseded s.db a.alertId
      worker := .recording a { w with createdAt := now } } := by
  -- a current row after the call was current before it and belongs to another alert
  have hcur : ∀ v ∈ (OperationalStore.markPreviousVerdictsSuperseded s.db a.alertId).verdicts.rows,
      v.isCurrent → v ∈ s.db.verdicts.rows ∧ v.alertId ≠ a.alertId := by
    intro v hv hc
    obtain ⟨u, hu, rfl⟩ := OperationalStore.mem_markPreviousVerdictsSuperseded.mp hv
    split_ifs at hc ⊢ with hcond
    exact ⟨hu, fun hid => hcond ⟨hid, hc⟩⟩
  constructor
  · intro v hv u hu hvc huc
    exact hV.current v (hcur v hv hvc).1 u (hcur u hu huc).1 hvc huc
  · intro r hr hA
    obtain ⟨v, hv, h1, h2, h3⟩ := hV.linked r hr hA
    refine ⟨v, OperationalStore.mem_markPreviousVerdictsSuperseded.mpr ⟨v, hv, ?_⟩, h1, h2, h3⟩
    rw [if_neg]
    rintro ⟨hid, -⟩
    exact hV.marked a (by rw [hw]; rfl) r hr (h2.symm.trans hid) hA
  · intro b hb r hr hid
    exact hV.marked b (by rw [hw]; exact hb) r hr hid
  · intro b u hu
    obtain ⟨rfl, rfl⟩ := Prod.mk.inj (Option.some.inj hu)
    exact hV.draft a w (by rw [hw]; rfl)
  · intro b u hu v hv hid
    obtain ⟨rfl, -⟩ := Worker.Stage.recording.inj hu
    rw [Bool.eq_false_iff]
    exact fun hc => (hcur v hv hc).2 hid
  · intro b u hu
    contradiction

/-- So does the one that records the new verdict. -/
theorem VerdictInv.record (hV : s.VerdictInv) {a : Alert} {w : Verdict} {db : Db}
    (hw : s.worker = .recording a w) (hrec : OperationalStore.recordVerdict s.db w = .ok db) :
    VerdictInv { s with db := db, worker := .linking a w } := by
  obtain ⟨-, hrows, halerts⟩ := OperationalStore.recordVerdict_eq_ok hrec
  have hdraft := hV.draft a w (by rw [hw]; rfl)
  have hnone := hV.recording a w hw
  constructor
  · intro v hv u hu hvc huc hid
    dsimp only at hv hu
    rw [hrows, List.mem_append, List.mem_singleton] at hv hu
    rcases hv with hv | rfl <;> rcases hu with hu | rfl
    · exact hV.current v hv u hu hvc huc hid
    · rw [hnone v hv (hid.trans hdraft.1)] at hvc
      contradiction
    · rw [hnone u hu (hid.symm.trans hdraft.1)] at huc
      contradiction
    · rfl
  · intro r hr hA
    dsimp only at hr ⊢
    rw [halerts] at hr
    obtain ⟨v, hv, hprop⟩ := hV.linked r hr hA
    exact ⟨v, hrows ▸ List.mem_append_left _ hv, hprop⟩
  · intro b hb r hr hid
    dsimp only at hr
    rw [halerts] at hr
    exact hV.marked b (by rw [hw]; exact hb) r hr hid
  · intro b u hu
    obtain ⟨rfl, rfl⟩ := Prod.mk.inj (Option.some.inj hu)
    exact hdraft
  · intro b u hu
    contradiction
  · intro b u hu
    obtain ⟨-, rfl⟩ := Worker.Stage.linking.inj hu
    dsimp only
    rw [hrows]
    exact List.mem_append_right _ (List.mem_singleton.mpr rfl)

/-- And the one that links the alert to it. -/
theorem VerdictInv.link (hV : s.VerdictInv) {a : Alert} {w : Verdict}
    (hw : s.worker = .linking a w) : VerdictInv {
      now := s.now
      db := OperationalStore.linkVerdictToAlert s.db a.alertId w.verdictId
      worker := .idle } := by
  obtain ⟨hid, hcur⟩ := hV.draft a w (by rw [hw]; rfl)
  refine ⟨hV.current, fun b hb hA => ?_, fun b hb => ?_, fun b u hu => ?_, fun b u hu => ?_,
    fun b u hu => ?_⟩
  · obtain ⟨r, hr, rfl⟩ := OperationalStore.mem_linkVerdictToAlert.mp hb
    split_ifs at hA ⊢ with hr'
    · exact ⟨w, hV.linking a w hw, rfl, hid.trans hr'.symm, hcur⟩
    · exact hV.linked r hr hA
  all_goals contradiction

/-- Every step of the worker keeps the invariant. -/
theorem VerdictInv.worker (hV : s.VerdictInv) (hnow : s'.now = s.now)
    (h : Worker.Move s.now s.db s.worker s'.db s'.worker) : s'.VerdictInv := by
  obtain ⟨now, db, w⟩ := s
  obtain ⟨now', db', w'⟩ := s'
  dsimp only at hnow h
  subst hnow
  cases h with
  | leave hs =>
    refine ⟨hV.current, hV.linked, fun a ha => ?_, fun a u hu => ?_, fun a u hu => ?_,
      fun a u hu => ?_⟩
    · rw [Worker.Stage.marked?_of_alert? hs] at ha
      contradiction
    · rw [Worker.Stage.draft?_of_alert? hs] at hu
      contradiction
    · rw [show w' = _ from hu] at hs
      contradiction
    · rw [show w' = _ from hu] at hs
      contradiction
  | dequeue order hnext =>
    exact ⟨hV.current, hV.linked, by rintro a ⟨⟩, by rintro a u ⟨⟩, by rintro a u ⟨⟩,
      by rintro a u ⟨⟩⟩
  | @mark a =>
    refine ⟨hV.current, fun b hb hA => linked_updateAlertStatus hV (by decide) hb hA,
      fun b hb r hr hid => ?_, by rintro a u ⟨⟩, by rintro a u ⟨⟩, by rintro a u ⟨⟩⟩
    obtain rfl := Option.some.inj hb
    -- the row of the alert in hand is the marked one
    obtain ⟨q, hq, rfl⟩ := EventStore.mem_updateAlertStatus.mp hr
    split_ifs at hid ⊢ with hq'
    · simp
    · exact absurd hid hq'
  | prepare hw hw' _ =>
    refine ⟨hV.current, hV.linked, fun b hb => ?_, fun b u hu => ?_, fun b u hu => ?_,
      fun b u hu => ?_⟩
    · rw [Worker.Stage.marked?_of_preparing? hw'] at hb
      exact hV.marked b ((Worker.Stage.marked?_of_preparing? hw).trans hb)
    · rw [Worker.Stage.draft?_of_preparing? hw'] at hu
      contradiction
    · rw [show w' = _ from hu] at hw'
      contradiction
    · rw [show w' = _ from hu] at hw'
      contradiction
  | inherit _ _ =>
    refine ⟨hV.current, hV.linked, hV.marked, fun b u hu => ?_, by rintro a u ⟨⟩,
      by rintro a u ⟨⟩⟩
    -- the draft is a current verdict of the alert in hand
    obtain ⟨rfl, rfl⟩ := Prod.mk.inj (Option.some.inj hu)
    exact ⟨rfl, rfl⟩
  | produce _ _ =>
    refine ⟨hV.current, hV.linked, hV.marked, fun b u hu => ?_, by rintro a u ⟨⟩,
      by rintro a u ⟨⟩⟩
    obtain ⟨rfl, rfl⟩ := Prod.mk.inj (Option.some.inj hu)
    exact ⟨rfl, rfl⟩
  | supersede => exact hV.supersede rfl
  | record hrec => exact hV.record rfl hrec
  | link => exact hV.link rfl
  | fail _ _ =>
    exact ⟨hV.current, hV.linked, by rintro a ⟨⟩, by rintro a u ⟨⟩, by rintro a u ⟨⟩,
      by rintro a u ⟨⟩⟩
  | markFailed =>
    exact ⟨hV.current, fun b hb hA => linked_updateAlertStatus hV (by decide) hb hA,
      by rintro a ⟨⟩, by rintro a u ⟨⟩, by rintro a u ⟨⟩, by rintro a u ⟨⟩⟩

/-- Every step of the system keeps the invariant. -/
theorem VerdictInv.step (hV : s.VerdictInv) {act : Act}
    (h : Runs.step cap resetHour s act = some s') : s'.VerdictInv := by
  cases act with
  | tick t =>
    rw [step_tick h]
    exact ⟨hV.current, hV.linked, hV.marked, hV.draft, hV.recording, hV.linking⟩
  | arrive row =>
    obtain ⟨hst, db, hrow, rfl⟩ := step_arrive h
    exact hV.arrive hrow hst
  | begin alertId =>
    obtain ⟨a, ha, rfl⟩ := step_begin h
    exact ⟨hV.current, hV.linked, by rintro a ⟨⟩, by rintro a u ⟨⟩, by rintro a u ⟨⟩,
      by rintro a u ⟨⟩⟩
  | worker a =>
    obtain ⟨hstep, hnow⟩ := step_worker h
    exact hV.worker hnow (Worker.move_of_step hstep)

theorem verdictInv_of_reachable {now : Datetime}
    (h : Reachable (step cap resetHour) (init now) s) : s.VerdictInv :=
  h.invariant (verdictInv_init now) fun _ _ _ hV hstep => hV.step hstep

/-- No alert has two current verdicts, and an analyzed alert is linked to its current verdict. -/
theorem verdicts_consistent {now : Datetime} (h : Reachable (step cap resetHour) (init now) s) :
    (∀ alertId, (s.db.verdicts.rows.countP fun v => v.alertId = alertId && v.isCurrent) ≤ 1) ∧
      ∀ a ∈ s.db.alerts.rows, a.status = .analyzed → ∃ v ∈ s.db.verdicts.rows,
        a.verdictId = some v.verdictId ∧ v.alertId = a.alertId ∧
          OperationalStore.getCurrentVerdictForAlert s.db a.alertId = some v := by
  have hV := verdictInv_of_reachable h
  constructor
  · intro alertId
    refine countP_le_one (List.Nodup.of_map _ s.db.verdicts.nodup) fun v hv w hw hpv hpw => ?_
    simp only [Bool.and_eq_true, decide_eq_true_eq] at hpv hpw
    exact hV.current v hv w hw hpv.2 hpw.2 (hpv.1.trans hpw.1.symm)
  · intro a ha hA
    obtain ⟨v, hv, hid, halert, hcur⟩ := hV.linked a ha hA
    refine ⟨v, hv, hid, halert, ?_⟩
    -- the first current row found is the linked one, since there is only one
    match hfind : OperationalStore.getCurrentVerdictForAlert s.db a.alertId with
    | none =>
      have := List.find?_eq_none.mp hfind v hv
      simp [halert, hcur] at this
    | some w =>
      have hw := List.find?_some hfind
      simp only [Bool.and_eq_true, decide_eq_true_eq] at hw
      rw [hV.current w (List.mem_of_find?_eq_some hfind) v hv hw.2 hcur (hw.1.trans halert.symm)]

/-- A row as `insert_alert` writes it. -/
def sampleRow (alertId : String) (ingestTimestamp : Datetime) : Alert :=
  ⟨alertId, 1, .integer 7, .text "10.0.0.1", .text "1.1.1.1", ingestTimestamp, .queued, false, none⟩

/-- `_process_alert` on one alert, up to its link, with a verdict the model produces. -/
def analyse (alertId verdictId : String) : List Act :=
  .begin alertId :: (List.replicate 4 (.worker (.proceed (.rowid Alert) "u")) ++
    [.worker (.answered verdictId App.sampleAnalysis)] ++
    List.replicate 2 (.worker (.proceed (.rowid Alert) "u")))

/-- Two alerts of one group, half an hour apart, and a started worker. -/
def sampleActs : List Act :=
  [.arrive (sampleRow "a" (App.sampleTime 0 10 0)), .arrive (sampleRow "b" (App.sampleTime 0 10 30)),
    .worker .start]

/-- The later alert is analyzed first, and the run of the other one is cut off before its link. -/
theorem verdicts_consistent_cut_off :
    let s := (runFrom (step 5 0) (init (App.sampleTime 0 11 0)) (sampleActs ++ analyse "b" "v1" ++
      [.worker (.proceed (.rowid Alert) "u")] ++ analyse "a" "v2" ++ [.worker .cancel])).2
    s.db.alerts.rows.map Alert.status = [.analyzing, .analyzed] ∧
      s.db.verdicts.rows.map Verdict.verdictId = ["v1", "v2"] ∧
      ∀ a ∈ s.db.alerts.rows, a.status = .analyzed → ∃ v ∈ s.db.verdicts.rows,
        a.verdictId = some v.verdictId ∧ v.alertId = a.alertId ∧
          OperationalStore.getCurrentVerdictForAlert s.db a.alertId = some v :=
  ⟨by decide +kernel, by decide +kernel, (verdicts_consistent (reachable_runFrom _ _)).2⟩

end Runs

end Verdix
