import Verdix.Equiv.DailyCap
import Verdix.Equiv.Fifo

/-!
# Alerts left in `analyzing`

Only queued alerts are dequeued, so an alert that is `analyzing` while the worker does not have it
in hand stays so for ever (`Stuck.step`).  `selectable_iff_not_abandoned`: along a run this happens
exactly when the worker is cancelled, or fails to write `failed`, while the row of its alert says
`analyzing`.
-/

open TransitionSystem

namespace Verdix.App

/-- Some later dequeue returns the alert. -/
def Selectable (cap : ℕ) (resetHour : Fin 24) (s : App) (alertId : String) : Prop :=
  ∃ tr s', Run (step cap resetHour) s tr s' ∧ ∃ a ∈ dequeued tr, a.alertId = alertId

/-- Whenever the worker is between alerts, the `analyzing` alerts are selectable. -/
def Recoverable (cap : ℕ) (resetHour : Fin 24) (s : App) : Prop :=
  s.worker.alert? = none → ∀ a ∈ s.db.alerts.rows, a.status = .analyzing →
    Selectable cap resetHour s a.alertId

/-- The worker is cancelled with an alert in hand, or its update to `failed` raises, while the row
of the alert says `analyzing`. -/
def Abandons (m : Move App Act) : Prop :=
  ∃ a, m.pre.worker.alert? = some a ∧
    (m.act = .worker .cancel ∨ m.act = .worker .raises ∧ ∃ c, m.pre.worker = .failing a c) ∧
    ∃ r ∈ m.pre.db.alerts.rows, r.alertId = a.alertId ∧ r.status = .analyzing

/-- The alert is `analyzing` and the worker does not have it in hand. -/
def Stuck (s : App) (alertId : String) : Prop :=
  (∃ r ∈ s.db.alerts.rows, r.alertId = alertId ∧ r.status = .analyzing) ∧
    ∀ a, s.worker.alert? = some a → a.alertId ≠ alertId

variable {cap : ℕ} {resetHour : Fin 24} {s s' : App} {act : Act} {tr : List (Move App Act)}

/-! ### Stuck alerts -/

theorem not_dequeued_of_stuck {alertId : String} (h : Stuck s alertId) {order : ScanOrder Alert}
    {a : Alert} (ha : Worker.nextQueued s.db order = some a) : a.alertId ≠ alertId := by
  obtain ⟨⟨r, hr, hid, hst⟩, -⟩ := h
  obtain ⟨hmem, hq, -⟩ := Worker.nextQueued_eq_some ha
  rintro rfl
  rw [s.db.alerts.eq_of_key_eq hr hmem hid, hq] at hst
  contradiction

/-- The rows of an alert that is not in hand stay as they are. -/
theorem exists_mem_step (h : step cap resetHour s act = some s') {r : Alert}
    (hr : r ∈ s.db.alerts.rows) (hne : ∀ a, s.worker.alert? = some a → r.alertId ≠ a.alertId) :
    r ∈ s'.db.alerts.rows := by
  cases act with
  | tick t =>
    rw [(step_tick h).2]
    exact hr
  | worker a =>
    obtain ⟨b, hb, -, heq⟩ := (Worker.move_of_step (step_worker h).1).exists_mem hr
    exact heq hne ▸ hb
  | dispatcher a =>
    obtain ⟨new, hrows⟩ := Dispatcher.rows_of_step (step_dispatcher h).1
    exact hrows ▸ List.mem_append_left _ hr

theorem Stuck.step {alertId : String} (hS : Stuck s alertId)
    (h : App.step cap resetHour s act = some s') :
    Stuck s' alertId ∧ ∀ a, dequeued? ⟨s, act, s'⟩ = some a → a.alertId ≠ alertId := by
  obtain ⟨⟨r, hr, hid, hst⟩, hne⟩ := hS
  have hr' : r ∈ s'.db.alerts.rows := exists_mem_step h hr fun a ha heq =>
    hne a ha (heq.symm.trans hid)
  -- an alert picked up by this step was queued
  have hpick : ∀ a, s'.worker.alert? = some a → a.alertId ≠ alertId := by
    intro a ha
    cases act with
    | tick t => exact hne a (by rw [(step_tick h).2] at ha; exact ha)
    | dispatcher dact => exact hne a (by rw [← (step_dispatcher h).2.2]; exact ha)
    | worker wact =>
      rcases (Worker.move_of_step (step_worker h).1).alert?_cases ha with ha | ⟨-, -, -, order, hq⟩
      · exact hne a ha
      · exact not_dequeued_of_stuck ⟨⟨r, hr, hid, hst⟩, hne⟩ hq
  refine ⟨⟨⟨r, hr', hid, hst⟩, hpick⟩, fun a ha => hpick a ?_⟩
  unfold dequeued? at ha
  split at ha
  · rename_i b _ hw
    obtain rfl := Option.some.inj ha
    rw [show s'.worker = .starting b from hw]
    rfl
  · contradiction

/-- A stuck alert is never dequeued again. -/
theorem Stuck.not_selectable {alertId : String} (hS : Stuck s alertId) :
    ¬ Selectable cap resetHour s alertId := by
  rintro ⟨tr, s', hrun, a, ha, hid⟩
  have h := hrun.history
    (P := fun tr s' => Stuck s' alertId ∧ ∀ a ∈ dequeued tr, a.alertId ≠ alertId)
    ⟨hS, fun a ha => by simp [dequeued] at ha⟩ ?_
  · exact h.2 a ha hid
  · intro tr s a s' _ hP hstep
    obtain ⟨hstuck, hdeq⟩ := hP.1.step hstep
    refine ⟨hstuck, fun b hb => ?_⟩
    rw [dequeued, List.filterMap_append, List.mem_append] at hb
    rcases hb with hb | hb
    · exact hP.2 b hb
    · obtain ⟨m, hm, hmb⟩ := List.mem_filterMap.mp hb
      rw [List.mem_singleton.mp hm] at hmb
      exact hdeq b hmb

/-- After a step that abandons an alert, it is stuck and the worker is between alerts. -/
theorem stuck_of_abandons (h : step cap resetHour s act = some s') (hA : Abandons ⟨s, act, s'⟩) :
    s'.worker.alert? = none ∧ ∃ r ∈ s'.db.alerts.rows, r.status = .analyzing ∧
      Stuck s' r.alertId := by
  obtain ⟨a, ha, hact, r, hr, -, hst⟩ := hA
  have hend : s'.worker.alert? = none ∧ s'.db = s.db := by
    rcases hact with hact | ⟨hact, c, hc⟩
    · obtain rfl : act = .worker .cancel := hact
      have hstep := (step_worker h).1
      simp only [Worker.step] at hstep
      split_ifs at hstep
      obtain ⟨hdb, hw⟩ := Prod.mk.inj (Option.some.inj hstep)
      exact ⟨by rw [← hw]; rfl, hdb.symm⟩
    · obtain rfl : act = .worker .raises := hact
      have hstep := (step_worker h).1
      rw [show s.worker = _ from hc] at hstep
      obtain ⟨hdb, hw⟩ := Prod.mk.inj (Option.some.inj hstep)
      exact ⟨by rw [← hw]; rfl, hdb.symm⟩
  have hr' : r ∈ s'.db.alerts.rows := hend.2 ▸ hr
  refine ⟨hend.1, r, hr', hst, ⟨r, hr', rfl, hst⟩, fun b hb => ?_⟩
  rw [hend.1] at hb
  contradiction

/-! ### Runs without abandoned alerts -/

/-- Every `analyzing` alert is in hand. -/
def InHand (s : App) : Prop :=
  ∀ r ∈ s.db.alerts.rows, r.status = .analyzing →
    ∃ a, s.worker.alert? = some a ∧ a.alertId = r.alertId

theorem InHand.worker (hH : InHand s) {a : Worker.Act}
    (h : step cap resetHour s (.worker a) = some s') (hA : ¬ Abandons ⟨s, .worker a, s'⟩) :
    InHand s' := by
  obtain ⟨hstep, -, -⟩ := step_worker h
  have hmove := Worker.move_of_step hstep
  intro b hb hst
  obtain ⟨r, hr, hfacts, hrb⟩ := hmove.exists_of_mem hb
  cases hs' : s'.worker.alert? with
  | some c =>
    refine ⟨c, rfl, ?_⟩
    rcases hmove.alert?_cases hs' with hc | ⟨hw, -, hdb, -⟩
    · -- the row changed, or was `analyzing` before
      rcases hmove.alerts_cases with heq | ⟨d, f, hf, hd, heq, -⟩
      · obtain ⟨e, he, hid⟩ := hH b (heq ▸ hb) hst
        rw [hc] at he
        obtain rfl := Option.some.inj he
        exact hid
      · rw [hc] at hd
        obtain rfl := Option.some.inj hd
        rw [heq] at hb
        obtain ⟨q, hq, rfl⟩ := Table.mem_update.mp hb
        split_ifs at hst ⊢ with hid
        · rw [hf]
          exact (by simpa using hid : q.alertId = c.alertId).symm
        · obtain ⟨e, he, hid'⟩ := hH q hq hst
          rw [hc] at he
          obtain rfl := Option.some.inj he
          exact hid'
    · -- nothing was in hand, so nothing was `analyzing`
      rw [hdb] at hb
      obtain ⟨e, he, -⟩ := hH b hb hst
      rw [hw] at he
      contradiction
  | none =>
    exfalso
    cases hs : s.worker.alert? with
    | none =>
      rcases hmove.alerts_cases with heq | ⟨d, -, -, hd, -⟩
      · obtain ⟨e, he, -⟩ := hH b (heq ▸ hb) hst
        rw [hs] at he
        contradiction
      · rw [hs] at hd
        contradiction
    | some c =>
      have honly : ∀ q ∈ s.db.alerts.rows, q.status = .analyzing → q.alertId = c.alertId := by
        intro q hq hqst
        obtain ⟨e, he, hid⟩ := hH q hq hqst
        rw [hs] at he
        obtain rfl := Option.some.inj he
        exact hid.symm
      rcases Worker.put_down_cases hstep hs hs' with ⟨hdb, hact⟩ | ⟨w, -, hdb⟩ | ⟨k, -, hdb⟩
      · rw [hdb] at hb
        refine hA ⟨c, hs, ?_, b, hb, honly b hb hst, hst⟩
        rcases hact with rfl | ⟨rfl, k, hk⟩
        · exact .inl rfl
        · exact .inr ⟨rfl, k, hk⟩
      · rw [hdb] at hb
        obtain ⟨q, hq, rfl⟩ := OperationalStore.mem_linkVerdictToAlert.mp hb
        split_ifs at hst with hid
        exact hid (honly q hq hst)
      · rw [hdb] at hb
        obtain ⟨q, hq, rfl⟩ := EventStore.mem_updateAlertStatus.mp hb
        split_ifs at hst with hid
        exact hid (honly q hq hst)

theorem InHand.step (hH : InHand s) (hI : s.Inv) (h : App.step cap resetHour s act = some s')
    (hA : ¬ Abandons ⟨s, act, s'⟩) : InHand s' := by
  cases act with
  | tick t =>
    rw [(step_tick h).2]
    exact hH
  | worker a => exact hH.worker h hA
  | dispatcher a =>
    obtain ⟨hstep, -, hworker⟩ := step_dispatcher h
    intro b hb hst
    rw [hworker]
    by_cases hnew : ∀ r ∈ s.db.alerts.rows, r.alertId ≠ b.alertId
    · obtain ⟨i, e, -, hin⟩ := commit_of_new hI h hb hnew
      have := (hI.committing i e b hin).status
      rw [hst] at this
      contradiction
    · push Not at hnew
      obtain ⟨r, hr, hid⟩ := hnew
      obtain ⟨new, hrows⟩ := Dispatcher.rows_of_step hstep
      obtain rfl := s'.db.alerts.eq_of_key_eq (hrows ▸ List.mem_append_left _ hr) hb hid
      exact hH r hr hst

theorem inHand_of_run {now : Datetime} (h : Run (App.step cap resetHour) (init now) tr s)
    (hA : ∀ m ∈ tr, ¬ Abandons m) : InHand s :=
  h.invariant_of_moves (fun r hr => by simp [init, Db.empty] at hr)
    (fun _ _ _ hreach hH hstep hm => hH.step (Inv.of_reachable hreach) hstep hm) hA

/-- The alerts left in `analyzing` stay selectable along a run exactly when no step abandons one. -/
theorem selectable_iff_not_abandoned {now : Datetime}
    (h : Run (App.step cap resetHour) (init now) tr s) :
    (∀ m ∈ tr, Recoverable cap resetHour m.post) ↔ ∀ m ∈ tr, ¬ Abandons m := by
  constructor
  · intro hrec m hm hA
    obtain ⟨-, hstep⟩ := h.step_of_mem hm
    obtain ⟨hw, r, hr, hst, hstuck⟩ := stuck_of_abandons hstep hA
    exact hstuck.not_selectable (hrec m hm hw r hr hst)
  · intro hA m hm hw r hr hst
    obtain ⟨tr₁, tr₂, rfl⟩ := List.append_of_mem hm
    obtain ⟨hrun, hstep⟩ := h.split
    have hhand := inHand_of_run (hrun.snoc hstep) fun n hn => hA n (by
      rcases List.mem_append.mp hn with hn | hn
      · exact List.mem_append_left _ hn
      · rw [List.mem_singleton.mp hn]
        exact hm)
    obtain ⟨a, ha, -⟩ := hhand r hr hst
    rw [hw] at ha
    contradiction

/-- An alert that is analyzed without interruption. -/
theorem selectable_iff_not_abandoned_uninterrupted :
    let r := runFrom (step 2 0) (init (sampleTime 0 10 0))
      (handle 0 sampleEvent "a" ++ [.worker .start] ++ produce "v1" sampleAnalysis)
    r.2.db.alerts.rows.map Alert.status = [.analyzed] ∧
      ∀ m ∈ r.1, Recoverable 2 0 m.post := by
  refine ⟨by decide +kernel, (selectable_iff_not_abandoned (run_runFrom _ _)).mpr ?_⟩
  rintro m hm ⟨a, -, hact, -⟩
  have hmem := act_mem_of_mem_runFrom hm
  rcases hact with hact | ⟨hact, -⟩
  · simp [hact, handle, produce, proceeds] at hmem
  · simp [hact, handle, produce, proceeds] at hmem

/-- A worker that is cancelled in the middle of an alert leaves it in `analyzing` for ever. -/
theorem cancelled_not_selectable :
    let r := runFrom (step 2 0) (init (sampleTime 0 10 0))
      (handle 0 sampleEvent "a" ++ [.worker .start] ++ proceeds 3 ++ [.worker .cancel])
    Run (step 2 0) (init (sampleTime 0 10 0)) r.1 r.2 ∧ r.2.worker.alert? = none ∧
      (∃ a ∈ r.2.db.alerts.rows, a.alertId = "a" ∧ a.status = .analyzing) ∧
      ¬ Selectable 2 0 r.2 "a" := by
  intro r
  have hw : r.2.worker.alert? = none := by decide +kernel
  have hr : ∃ a ∈ r.2.db.alerts.rows, a.alertId = "a" ∧ a.status = .analyzing := by decide +kernel
  refine ⟨run_runFrom _ _, hw, hr, Stuck.not_selectable ⟨hr, fun a ha => ?_⟩⟩
  rw [hw] at ha
  contradiction

end Verdix.App
