import Verdix.Equiv.DailyCap
import Verdix.Triage.Equiv.Verdicts

/-!
# Verdicts of failed alerts

Whatever raises, the handler of `_process_alert` rewrites the status and nothing else.  Up to the
record call its alert has no verdict row at all (`Fresh.unrecorded`), so `failed` is the whole
truth; after it, the recorded row stays current.  `failed_clean_iff`: along a run the failed alerts
have no current verdict exactly when the handler never runs to its end for a failed link.

The application refines `Runs`, which gives the invariant of the verdict rows
(`verdictInv_of_reachable`).
-/

open TransitionSystem

namespace Verdix

namespace Worker

/-- The alert, in the stages between its first status update and its record call and in the
handler of what these raise. -/
def Stage.unrecorded? : Stage → Option Alert
  | correlating a | assigning a | deduping a | sourcing a _ | analysing a
  | superseding a _ | recording a _ => some a
  | failing a c => if c = .linkVerdictToAlert then none else some a
  | _ => none

theorem Stage.unrecorded?_of_preparing? {s : Stage} {a : Alert} (h : s.preparing? = some a) :
    s.unrecorded? = some a := by
  cases s <;> first | exact h | contradiction

theorem Stage.alert?_of_unrecorded? {s : Stage} {a : Alert} (h : s.unrecorded? = some a) :
    s.alert? = some a := by
  cases s with
  | failing b c =>
    simp only [unrecorded?] at h
    split_ifs at h
    exact h
  | _ => first | exact h | contradiction

end Worker

namespace App

variable {cap : ℕ} {resetHour : Fin 24} {now : Datetime} {s s' : App} {act : Act}
  {tr : List (Move App Act)}

/-! ### The application refines the runs of `_process_alert` -/

/-- The state without the dispatcher. -/
def toRuns (s : App) : Runs := ⟨s.now, s.db, s.worker⟩

/-- An insert is an arrival; every other step of the dispatcher is invisible. -/
theorem toRuns_step (hI : s.Inv) (h : step cap resetHour s act = some s') :
    s'.toRuns = s.toRuns ∨ ∃ b, Runs.step cap resetHour s.toRuns b = some s'.toRuns := by
  cases act with
  | tick t =>
    obtain ⟨hle, rfl⟩ := step_tick h
    exact .inr ⟨.tick t, if_pos hle⟩
  | worker a =>
    refine .inr ⟨.worker a, ?_⟩
    obtain ⟨⟨db, w⟩, hw, rfl⟩ := Option.map_eq_some_iff.mp h
    exact Option.map_eq_some_iff.mpr ⟨(db, w), hw, rfl⟩
  | dispatcher a =>
    obtain ⟨hstep, hnow, hworker⟩ := step_dispatcher h
    obtain ⟨hmove, -⟩ := Dispatcher.move_of_step hI.lock hstep
    clear h hstep
    obtain ⟨now, db, d, w⟩ := s
    obtain ⟨now', db', d', w'⟩ := s'
    dsimp only at hnow hworker hmove
    subst hnow hworker
    cases hmove with
    | @commit _ _ row _ _ hin hrow _ =>
      have hst := hI.committing _ _ _ hin
      refine .inr ⟨.arrive row, ?_⟩
      have hA : row.status ≠ .analyzed := fun hA => by
        have := hst.status
        rw [hA] at this
        contradiction
      simp only [Runs.step, toRuns, hst.verdict, ne_eq, hA, not_false_eq_true, and_self, if_true,
        hrow]
    | _ => exact .inl rfl

theorem reachable_toRuns (h : Reachable (step cap resetHour) (init now) s) :
    Reachable (Runs.step cap resetHour) (Runs.init now) s.toRuns :=
  h.simulate toRuns fun _ _ _ hreach hstep => toRuns_step (Inv.of_reachable hreach) hstep

theorem verdictInv_of_reachable (h : Reachable (step cap resetHour) (init now) s) :
    s.toRuns.VerdictInv :=
  Runs.verdictInv_of_reachable (reachable_toRuns h)

/-! ### Which alerts have verdict rows -/

/-- No failed alert has a current verdict. -/
def FailedClean (s : App) : Prop :=
  ∀ a ∈ s.db.alerts.rows, a.status = .failed →
    OperationalStore.getCurrentVerdictForAlert s.db a.alertId = none

/-- The handler writes `failed` after a failed link. -/
def FailsLinked (m : Move App Act) : Prop :=
  ∃ a order uuid, m.pre.worker = .failing a .linkVerdictToAlert ∧
    m.act = .worker (.proceed order uuid)

/-- No verdict row belongs to the alert. -/
def Unjudged (db : Db) (alertId : String) : Prop := ∀ v ∈ db.verdicts.rows, v.alertId ≠ alertId

/-- The alerts without verdict rows. -/
structure Fresh (s : App) : Prop where
  owned : ∀ v ∈ s.db.verdicts.rows, ∃ a ∈ s.db.alerts.rows, a.alertId = v.alertId
  untaken : ∀ a ∈ s.db.alerts.rows, a.status.taken = false → Unjudged s.db a.alertId
  unrecorded : ∀ a, s.worker.unrecorded? = some a → Unjudged s.db a.alertId
  failed : ∀ a ∈ s.db.alerts.rows, a.status = .failed → Unjudged s.db a.alertId

theorem Fresh.failedClean (hF : Fresh s) : FailedClean s := by
  intro a ha hst
  refine List.find?_eq_none.mpr fun v hv => ?_
  simp [hF.failed a ha hst v hv]

theorem fresh_init (now : Datetime) : Fresh (init now) where
  owned v hv := by simp [init, Db.empty] at hv
  untaken a ha := by simp [init, Db.empty] at ha
  unrecorded a ha := by contradiction
  failed a ha := by simp [init, Db.empty] at ha

theorem Fresh.dispatcher (hF : Fresh s) (hI : s.Inv) {a : Dispatcher.Act}
    (hworker : s'.worker = s.worker)
    (h : Dispatcher.Move cap resetHour s.now s.db s.dispatcher a s'.db s'.dispatcher) :
    Fresh s' := by
  obtain ⟨now, db, d, w⟩ := s
  obtain ⟨now', db', d', w'⟩ := s'
  dsimp only at hworker h
  subst hworker
  cases h with
  | @commit _ _ row _ _ hin hrow _ =>
    obtain ⟨hnew, hrows, hverdicts⟩ := EventStore.insertRow_eq_ok hrow
    -- a verdict of the new alert would belong to an alert that is in the table already
    have hfresh : Unjudged db row.alertId := by
      intro v hv hid
      obtain ⟨b, hb, hbid⟩ := hF.owned v hv
      exact hnew (List.mem_map.mpr ⟨b, hb, hbid.trans hid⟩)
    refine ⟨fun v hv => ?_, fun b hb hst => ?_, fun b hb => ?_, fun b hb hst => ?_⟩
    · dsimp only at hv ⊢
      rw [hverdicts] at hv
      obtain ⟨b, hb, hid⟩ := hF.owned v hv
      exact ⟨b, hrows ▸ List.mem_append_left _ hb, hid⟩
    · dsimp only at hb ⊢
      rw [Unjudged, hverdicts]
      rw [hrows, List.mem_append, List.mem_singleton] at hb
      rcases hb with hb | rfl
      · exact hF.untaken b hb hst
      · exact hfresh
    · rw [Unjudged, hverdicts]
      exact hF.unrecorded b hb
    · dsimp only at hb ⊢
      rw [Unjudged, hverdicts]
      rw [hrows, List.mem_append, List.mem_singleton] at hb
      rcases hb with hb | rfl
      · exact hF.failed b hb hst
      · exact hfresh
  | _ => exact ⟨hF.owned, hF.untaken, hF.unrecorded, hF.failed⟩

/-! ### The worker's steps -/

/-- A step that writes nothing and puts the alert down. -/
theorem Fresh.leave (hF : Fresh s) (hdb : s'.db = s.db) (hw : s'.worker.alert? = none) :
    Fresh s' := by
  refine ⟨hdb ▸ hF.owned, hdb ▸ hF.untaken, fun a ha => ?_, hdb ▸ hF.failed⟩
  rw [Worker.Stage.alert?_of_unrecorded? ha] at hw
  contradiction

/-- A step that writes no verdict row of another alert: what is left are the alert in hand and the
failed alerts. -/
theorem Fresh.keep (hF : Fresh s) (h : Worker.Move s.now s.db s.worker s'.db s'.worker)
    (hV : ∀ v ∈ s'.db.verdicts.rows, ∃ u ∈ s.db.verdicts.rows, u.alertId = v.alertId)
    (hU : ∀ a, s'.worker.unrecorded? = some a → Unjudged s.db a.alertId)
    (hfailed : ∀ b ∈ s'.db.alerts.rows, b.status = .failed → Unjudged s.db b.alertId) :
    Fresh s' := by
  have hback : ∀ id, Unjudged s.db id → Unjudged s'.db id := by
    intro id hid v hv
    obtain ⟨u, hu, huv⟩ := hV v hv
    exact huv ▸ hid u hu
  refine ⟨fun v hv => ?_, fun b hb hst => ?_, fun a ha => hback _ (hU a ha),
    fun b hb hst => hback _ (hfailed b hb hst)⟩
  · obtain ⟨u, hu, huv⟩ := hV v hv
    obtain ⟨r, hr, hid⟩ := hF.owned u hu
    obtain ⟨b, hb, hfacts, -⟩ := h.exists_mem hr
    exact ⟨b, hb, (Alert.alertId_of_facts hfacts).trans (hid.trans huv)⟩
  · obtain ⟨r, hr, -, hrb⟩ := h.exists_of_mem hb
    rcases hrb with rfl | ht
    · exact hback _ (hF.untaken r hr hst)
    · rw [hst] at ht
      contradiction

/-- The alert about to be marked has no verdict rows, for it is still in the queue. -/
theorem Fresh.starting (hF : Fresh s) (hI : s.Inv) {a : Alert} (hw : s.worker = .starting a) :
    Unjudged s.db a.alertId := by
  obtain ⟨r, hr, hfacts, hst⟩ := hI.inHand a .queued (by rw [hw]; rfl)
  rw [← Alert.alertId_of_facts hfacts]
  exact hF.untaken r hr (by rw [hst]; rfl)

/-- The failed alerts after a status update are the failed ones before it, unless the update writes
`failed`. -/
theorem Fresh.failed_of_update (hF : Fresh s) {alertId : String} {status : Status}
    (h : status = .failed → Unjudged s.db alertId) {b : Alert}
    (hb : b ∈ (EventStore.updateAlertStatus s.db alertId status).alerts.rows)
    (hst : b.status = .failed) : Unjudged s.db b.alertId := by
  obtain ⟨r, hr, rfl⟩ := EventStore.mem_updateAlertStatus.mp hb
  split_ifs at hst ⊢ with hid
  · exact hid ▸ h hst
  · exact hF.failed r hr hst

theorem Fresh.record (hF : Fresh s) (hI : s.Inv) {a : Alert} {w : Verdict} {db : Db}
    (hw : s.worker = .recording a w) (hid : w.alertId = a.alertId)
    (hrec : OperationalStore.recordVerdict s.db w = .ok db) :
    Fresh { s with db := db, worker := .linking a w } := by
  obtain ⟨-, hrows, halerts⟩ := OperationalStore.recordVerdict_eq_ok hrec
  -- the rows of the alert in hand are `analyzing`, so the new verdict belongs to no other
  have hother : ∀ b ∈ s.db.alerts.rows, b.status ≠ .analyzing → Unjudged s.db b.alertId →
      Unjudged db b.alertId := by
    intro b hb hst hU v hv
    rw [hrows, List.mem_append, List.mem_singleton] at hv
    rcases hv with hv | rfl
    · exact hU v hv
    · intro heq
      exact hst (hI.row_in_hand (by rw [hw]; rfl) hb (heq.symm.trans hid)).2
  refine ⟨fun v hv => ?_, fun b hb hst => ?_, by rintro b ⟨⟩, fun b hb hst => ?_⟩
  · dsimp only at hv ⊢
    rw [hrows, List.mem_append, List.mem_singleton] at hv
    rw [halerts]
    rcases hv with hv | rfl
    · exact hF.owned v hv
    · obtain ⟨r, hr, hfacts, -⟩ := hI.inHand a .analyzing (by rw [hw]; rfl)
      exact ⟨r, hr, (Alert.alertId_of_facts hfacts).trans hid.symm⟩
  · dsimp only at hb
    rw [halerts] at hb
    refine hother b hb (fun hA => ?_) (hF.untaken b hb hst)
    rw [hA] at hst
    contradiction
  · dsimp only at hb
    rw [halerts] at hb
    exact hother b hb (by rw [hst]; decide) (hF.failed b hb hst)

theorem Fresh.worker (hF : Fresh s) (hI : s.Inv) (hV : s.toRuns.VerdictInv)
    (hd : s'.dispatcher = s.dispatcher) (hnow : s'.now = s.now)
    (hne : ∀ a, s.worker ≠ .failing a .linkVerdictToAlert)
    (h : Worker.Move s.now s.db s.worker s'.db s'.worker) : Fresh s' := by
  obtain ⟨now, db, d, w⟩ := s
  obtain ⟨now', db', d', w'⟩ := s'
  dsimp only at hd hnow hne h
  subst hd hnow
  have hsame : ∀ v ∈ db.verdicts.rows, ∃ u ∈ db.verdicts.rows, u.alertId = v.alertId :=
    fun v hv => ⟨v, hv, rfl⟩
  have hmove := h
  cases h with
  | leave hs' => exact hF.leave rfl hs'
  | dequeue order hnext => exact hF.keep hmove hsame (by rintro a ⟨⟩) hF.failed
  | mark =>
    refine hF.keep hmove hsame (fun a ha => ?_)
      fun b hb hst => hF.failed_of_update (by intro h; contradiction) hb hst
    obtain rfl := Option.some.inj ha
    exact hF.starting hI rfl
  | prepare hw hw' _ =>
    refine hF.keep hmove hsame (fun a ha => hF.unrecorded a ?_) hF.failed
    rw [Worker.Stage.unrecorded?_of_preparing? hw'] at ha
    exact (Worker.Stage.unrecorded?_of_preparing? hw).trans ha
  | inherit _ _ => exact hF.keep hmove hsame hF.unrecorded hF.failed
  | produce _ _ => exact hF.keep hmove hsame hF.unrecorded hF.failed
  | supersede =>
    refine hF.keep hmove (fun v hv => ?_) hF.unrecorded hF.failed
    obtain ⟨u, hu, rfl⟩ := OperationalStore.mem_markPreviousVerdictsSuperseded.mp hv
    refine ⟨u, hu, ?_⟩
    split_ifs <;> rfl
  | @record a u _ hrec => exact hF.record hI rfl (hV.draft a u rfl).1 hrec
  | link =>
    refine hF.keep hmove hsame (by rintro a ⟨⟩) fun b hb hst => ?_
    obtain ⟨r, hr, rfl⟩ := OperationalStore.mem_linkVerdictToAlert.mp hb
    split_ifs at hst ⊢
    exact hF.failed r hr hst
  | @fail _ a c hw hc =>
    refine hF.keep hmove hsame (fun b hb => ?_) hF.failed
    simp only [Worker.Stage.unrecorded?] at hb
    split_ifs at hb with hlink
    obtain rfl := Option.some.inj hb
    -- a call that fails before the alert is marked, and one of the later ones
    cases w with
    | starting b =>
      obtain rfl := Option.some.inj hw
      exact hF.starting hI rfl
    | linking b u => exact absurd (Option.some.inj hc).symm hlink
    | _ => first | contradiction | exact hF.unrecorded _ hw
  | @markFailed a c =>
    refine hF.keep hmove hsame (by rintro b ⟨⟩) fun b hb hst =>
      hF.failed_of_update (fun _ => hF.unrecorded a ?_) hb hst
    -- a failing link would leave the recorded verdict
    rw [Worker.Stage.unrecorded?, if_neg]
    rintro rfl
    exact hne a rfl

/-- In the handler, a step other than its update writes nothing and puts the alert down. -/
theorem quiet_of_failing {a : Alert} {c : Worker.Call} {act : Worker.Act}
    (hw : s.worker = .failing a c) (h : step cap resetHour s (.worker act) = some s') :
    (∃ order uuid, act = .proceed order uuid) ∨ s'.db = s.db ∧ s'.worker.alert? = none := by
  obtain ⟨hstep, -, -⟩ := step_worker h
  rw [hw] at hstep
  cases act with
  | proceed order uuid => exact .inl ⟨order, uuid, rfl⟩
  | raises | cancel =>
    obtain ⟨hdb, hw'⟩ := Prod.mk.inj (Option.some.inj hstep)
    exact .inr ⟨hdb.symm, hw' ▸ rfl⟩
  | answered uuid r => contradiction
  | start => contradiction

theorem Fresh.step (hF : Fresh s) (hreach : Reachable (App.step cap resetHour) (init now) s)
    (h : App.step cap resetHour s act = some s') (hG : ¬ FailsLinked ⟨s, act, s'⟩) : Fresh s' := by
  have hI := Inv.of_reachable hreach
  cases act with
  | tick t =>
    rw [(step_tick h).2]
    exact ⟨hF.owned, hF.untaken, hF.unrecorded, hF.failed⟩
  | dispatcher a =>
    obtain ⟨hstep, -, hworker⟩ := step_dispatcher h
    exact hF.dispatcher hI hworker (Dispatcher.move_of_step hI.lock hstep).1
  | worker a =>
    by_cases hw : ∃ b, s.worker = .failing b .linkVerdictToAlert
    · obtain ⟨b, hw⟩ := hw
      rcases quiet_of_failing hw h with ⟨order, uuid, rfl⟩ | ⟨hdb, hw'⟩
      · exact absurd ⟨b, order, uuid, hw, rfl⟩ hG
      · exact hF.leave hdb hw'
    · obtain ⟨hstep, hnow, hd⟩ := step_worker h
      exact hF.worker hI (verdictInv_of_reachable hreach) hd hnow (fun b hb => hw ⟨b, hb⟩)
        (Worker.move_of_step hstep)

/-! ### Failed links -/

/-- In the handler of a failed link, the recorded verdict is current. -/
def LinkFailed (s : App) : Prop :=
  ∀ a, s.worker = .failing a .linkVerdictToAlert →
    ∃ v ∈ s.db.verdicts.rows, v.alertId = a.alertId ∧ v.isCurrent

theorem LinkFailed.step (hL : LinkFailed s) (hV : s.toRuns.VerdictInv)
    (h : App.step cap resetHour s act = some s') : LinkFailed s' := by
  intro a ha
  cases act with
  | tick t =>
    obtain ⟨-, rfl⟩ := step_tick h
    exact hL a ha
  | dispatcher b =>
    obtain ⟨hstep, -, hworker⟩ := step_dispatcher h
    have hverdicts : s'.db.verdicts = s.db.verdicts := by
      rcases Dispatcher.db_of_step hstep with hdb | ⟨row, hrow⟩
      · rw [hdb]
      · exact (EventStore.insertRow_eq_ok hrow).2.2
    rw [hverdicts]
    exact hL a (hworker ▸ ha)
  | worker b =>
    have hmove := Worker.move_of_step (step_worker h).1
    rw [ha] at hmove
    generalize hw : s.worker = w at hmove
    generalize s'.db = db' at hmove ⊢
    cases hmove with
    | leave hs => contradiction
    | prepare _ hs _ => contradiction
    | fail hw₁ hw₂ =>
      -- only the link is followed by this stage
      cases w with
      | linking c u =>
        obtain rfl := Option.some.inj hw₁
        obtain ⟨hid, hcur⟩ := hV.draft c u (by rw [show s.toRuns.worker = _ from hw]; rfl)
        exact ⟨u, hV.linking c u hw, hid, hcur⟩
      | _ => simp [Worker.Stage.call?] at hw₂

theorem linkFailed_of_reachable (h : Reachable (App.step cap resetHour) (init now) s) :
    LinkFailed s := by
  obtain ⟨tr, hrun⟩ := h
  exact hrun.history (P := fun _ s => LinkFailed s) (by intro a ha; contradiction)
    fun _ _ _ _ hrun hL hstep =>
      hL.step (verdictInv_of_reachable ⟨_, hrun⟩) hstep

/-- The handler of a failed link leaves a failed alert with a current verdict. -/
theorem not_failedClean_of_failsLinked (hreach : Reachable (App.step cap resetHour) (init now) s)
    (h : App.step cap resetHour s act = some s') (hA : FailsLinked ⟨s, act, s'⟩) :
    ¬ FailedClean s' := by
  obtain ⟨a, order, uuid, hw, hact⟩ := hA
  dsimp only at hw hact
  subst hact
  obtain ⟨hstep, -, -⟩ := step_worker h
  rw [hw] at hstep
  obtain ⟨hdb, -⟩ := Prod.mk.inj (Option.some.inj hstep)
  obtain ⟨v, hv, hid, hcur⟩ := linkFailed_of_reachable hreach a hw
  obtain ⟨r, hr, hfacts, -⟩ := (Inv.of_reachable hreach).inHand a .analyzing (by rw [hw]; rfl)
  have hr' : { r with status := .failed } ∈ s'.db.alerts.rows := by
    rw [← hdb]
    refine EventStore.mem_updateAlertStatus.mpr ⟨r, hr, ?_⟩
    rw [if_pos (Alert.alertId_of_facts hfacts)]
  have hv' : v ∈ s'.db.verdicts.rows := by
    rw [← hdb]
    exact hv
  intro hclean
  have := List.find?_eq_none.mp (hclean _ hr' rfl) v hv'
  simp [hid, hcur, Alert.alertId_of_facts hfacts] at this

/-- Along a run no failed alert has a current verdict exactly when the handler never writes `failed`
after a failed link. -/
theorem failed_clean_iff (h : Run (App.step cap resetHour) (init now) tr s) :
    (∀ m ∈ tr, FailedClean m.post) ↔ ∀ m ∈ tr, ¬ FailsLinked m := by
  constructor
  · intro hclean m hm hF
    obtain ⟨hreach, hstep⟩ := h.step_of_mem hm
    exact not_failedClean_of_failsLinked hreach hstep hF (hclean m hm)
  · intro hG m hm
    obtain ⟨tr₁, tr₂, rfl⟩ := List.append_of_mem hm
    obtain ⟨hrun, hstep⟩ := h.split
    have hfresh : Fresh m.pre := hrun.invariant_of_moves (fresh_init now)
      (fun _ _ _ hreach hF hstep hG => hF.step hreach hstep hG)
      fun n hn => hG n (List.mem_append_left _ hn)
    exact (hfresh.step ⟨_, hrun⟩ hstep (hG m hm)).failedClean

/-- The analysis of the only alert raises, and the handler marks it. -/
theorem failed_clean_iff_analysis :
    let r := runFrom (step 2 0) (init (sampleTime 0 10 0)) (handle 0 sampleEvent "a" ++
      [.worker .start] ++ proceeds 6 ++ [.worker .raises] ++ proceeds 1)
    r.2.db.alerts.rows.map Alert.status = [.failed] ∧ ∀ m ∈ r.1, FailedClean m.post := by
  refine ⟨by decide +kernel, (failed_clean_iff (run_runFrom _ _)).mpr ?_⟩
  rintro m hm ⟨a, order, uuid, hw, -⟩
  have hall : ((runFrom (step 2 0) (init (sampleTime 0 10 0)) (handle 0 sampleEvent "a" ++
      [.worker .start] ++ proceeds 6 ++ [.worker .raises] ++ proceeds 1)).1.all fun m =>
        match m.pre.worker with | .failing _ c => c ≠ .linkVerdictToAlert | _ => true) = true := by
    decide +kernel
  have := List.all_eq_true.mp hall m hm
  simp [hw] at this

/-- The link of a produced verdict raises: the alert is `failed` and its verdict current. -/
theorem failed_link_keeps_verdict :
    let r := runFrom (step 2 0) (init (sampleTime 0 10 0)) (handle 0 sampleEvent "a" ++
      [.worker .start] ++ proceeds 6 ++ [.worker (.answered "v1" sampleAnalysis)] ++ proceeds 2 ++
      [.worker .raises] ++ proceeds 1)
    Run (step 2 0) (init (sampleTime 0 10 0)) r.1 r.2 ∧
      r.2.db.alerts.rows.map (fun a => (a.alertId, a.status)) = [("a", .failed)] ∧
      (OperationalStore.getCurrentVerdictForAlert r.2.db "a").map Verdict.verdictId = some "v1" :=
  ⟨run_runFrom _ _, by decide +kernel, by decide +kernel⟩

end App

end Verdix
