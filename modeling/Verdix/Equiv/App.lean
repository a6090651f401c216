import Verdix.App
import Verdix.Ingestion.Equiv.Dispatcher
import Verdix.Triage.Equiv.Worker

/-!
# The invariant of the application

`App.Inv` holds in every reachable state (`App.Inv.of_reachable`).  It ties the three parts of the
state together: the rows lie in the past, the row about to be committed is stamped after all of
them, and the alert the worker has in hand has the status its stage expects.
-/

open TransitionSystem

namespace Verdix

/-- The alert in hand and the status of its row. -/
def Worker.Stage.expects : Worker.Stage → Option (Alert × Status)
  | starting a => some (a, .queued)
  | correlating a | assigning a | deduping a | sourcing a _ | analysing a
  | superseding a _ | recording a _ | linking a _ => some (a, .analyzing)
  -- a failing first update leaves the alert in the queue
  | failing a c => some (a, if c = .updateAlertStatus then .queued else .analyzing)
  | _ => none

theorem Worker.Stage.expects_of_alert? {s : Worker.Stage} {a : Alert} (h : s.alert? = some a) :
    ∃ st, s.expects = some (a, st) := by
  cases s <;> simp_all [alert?, expects]

theorem Worker.Stage.expects_status {s : Worker.Stage} {a : Alert} {st : Status}
    (h : s.expects = some (a, st)) : st ≠ .deferred := by
  rintro rfl
  cases s with
  | failing b c =>
    simp only [expects, Option.some.injEq, Prod.mk.injEq] at h
    by_cases hc : c = .updateAlertStatus <;> simp [hc] at h
  | _ => simp [expects] at h

theorem Worker.Stage.expects_of_preparing? {s : Worker.Stage} {a : Alert}
    (h : s.preparing? = some a) : s.expects = some (a, .analyzing) := by
  cases s <;> simp_all [preparing?, expects]

namespace App

/-- What holds of a row that waits for its commit. -/
structure Stamped (s : App) (row : Alert) : Prop where
  past : row.ingestTimestamp ≤ s.now
  sensor : row.sensorId = 1
  status : row.status.taken = false
  verdict : row.verdictId = none
  last : ∀ a ∈ s.db.alerts.rows, a.ingestTimestamp ≤ row.ingestTimestamp

/-- The invariant of the application. -/
structure Inv (s : App) : Prop where
  lock : s.dispatcher.LockInv
  past : ∀ a ∈ s.db.alerts.rows, a.ingestTimestamp ≤ s.now
  sensor : ∀ a ∈ s.db.alerts.rows, a.sensorId = 1
  inserting : ∀ i e st, s.dispatcher.Inside i e (.inserting st) → st.taken = false
  committing : ∀ i e row, s.dispatcher.Inside i e (.committing row) → s.Stamped row
  inHand : ∀ a st, s.worker.expects = some (a, st) →
    ∃ r ∈ s.db.alerts.rows, r.facts = a.facts ∧ r.status = st

variable {cap : ℕ} {resetHour : Fin 24} {s s' : App}

theorem inv_init (now : Datetime) : Inv (init now) where
  lock := Dispatcher.lockInv_init
  past a h := by simp [init, Db.empty] at h
  sensor a h := by simp [init, Db.empty] at h
  inserting i e st h := by simp [Dispatcher.Inside, init, Dispatcher.init] at h
  committing i e row h := by simp [Dispatcher.Inside, init, Dispatcher.init] at h
  inHand a st h := by simp [init, Worker.Stage.expects] at h

/-- Time may pass. -/
theorem Inv.tick (hI : s.Inv) {t : Datetime} (ht : s.now ≤ t) : Inv { s with now := t } where
  lock := hI.lock
  past a ha := (hI.past a ha).trans ht
  sensor := hI.sensor
  inserting := hI.inserting
  committing i e row h :=
    have hr := hI.committing i e row h
    ⟨hr.past.trans ht, hr.sensor, hr.status, hr.verdict, hr.last⟩
  inHand := hI.inHand

/-- The dispatcher's part of the invariant survives any change to the alerts that keeps their
facts. -/
theorem Stamped.of_facts {row : Alert} (h : s.Stamped row) (hnow : s'.now = s.now)
    (hrows : ∀ b ∈ s'.db.alerts.rows, ∃ a ∈ s.db.alerts.rows, a.facts = b.facts) :
    s'.Stamped row where
  past := hnow ▸ h.past
  sensor := h.sensor
  status := h.status
  verdict := h.verdict
  last b hb := by
    obtain ⟨a, ha, hab⟩ := hrows b hb
    rw [← Alert.ingestTimestamp_of_facts hab]
    exact h.last a ha

/-- A step of the dispatcher keeps the invariant of the whole. -/
theorem Inv.dispatcher (hI : s.Inv) {act : Dispatcher.Act} (hnow : s'.now = s.now)
    (hworker : s'.worker = s.worker) (hlock : s'.dispatcher.LockInv)
    (h : Dispatcher.Move cap resetHour s.now s.db s.dispatcher act s'.db s'.dispatcher) :
    s'.Inv := by
  obtain ⟨now, db, d, w⟩ := s
  obtain ⟨now', db', d', w'⟩ := s'
  dsimp only at hnow hworker hlock h
  subst hnow hworker
  cases h with
  | quiet hq =>
    exact ⟨hlock, hI.past, hI.sensor, fun i e st hi => hI.inserting i e st (hq _ _ _ hi),
      fun i e row hi => (hI.committing i e row (hq _ _ _ hi)).of_facts rfl fun b hb => ⟨b, hb, rfl⟩,
      hI.inHand⟩
  | acquire hq =>
    exact ⟨hlock, hI.past, hI.sensor, fun i e st hi => absurd (hq _ _ _ hi) (by simp),
      fun i e row hi => absurd (hq _ _ _ hi) (by simp), hI.inHand⟩
  | count hin hq =>
    refine ⟨hlock, hI.past, hI.sensor, fun i e st hi => ?_,
      fun i e row hi => absurd (hq _ _ _ hi).2.2 (by simp), hI.inHand⟩
    rw [Dispatcher.Stage.inserting.inj (hq _ _ _ hi).2.2]
    split_ifs <;> rfl
  | stamp hin hrow hq =>
    refine ⟨hlock, hI.past, hI.sensor, fun i e st hi => absurd (hq _ _ _ hi).2.2 (by simp),
      fun i e row hi => ?_, hI.inHand⟩
    obtain rfl := Dispatcher.Stage.committing.inj (hq _ _ _ hi).2.2
    obtain ⟨-, h1, h2, h3, h4⟩ := EventStore.alertRow_eq_ok hrow
    exact ⟨h2.le, h1, h3 ▸ hI.inserting _ _ _ hin, h4, fun a ha => h2 ▸ hI.past a ha⟩
  | commit hin hrow hq =>
    obtain ⟨-, hrows, -⟩ := EventStore.insertRow_eq_ok hrow
    -- the row that was made under the lock is still as it should be
    have hst := hI.committing _ _ _ hin
    refine ⟨hlock, ?_, ?_, fun i e st hi => absurd hi (hq _ _ _),
      fun i e row hi => absurd hi (hq _ _ _), fun a st ha => ?_⟩
    · intro a ha
      rw [hrows, List.mem_append, List.mem_singleton] at ha
      rcases ha with ha | rfl
      · exact hI.past a ha
      · exact hst.past
    · intro a ha
      rw [hrows, List.mem_append, List.mem_singleton] at ha
      rcases ha with ha | rfl
      · exact hI.sensor a ha
      · exact hst.sensor
    · obtain ⟨r, hr, hprop⟩ := hI.inHand a st ha
      exact ⟨r, hrows ▸ List.mem_append_left _ hr, hprop⟩

/-- The status of the row of the alert in hand, step by step. -/
theorem inHand_of_move {now : Datetime} {db db' : Db} {w w' : Worker.Stage}
    (h : Worker.Move now db w db' w')
    (hI : ∀ a st, w.expects = some (a, st) → ∃ r ∈ db.alerts.rows, r.facts = a.facts ∧ r.status = st)
    (a : Alert) (st : Status) (ha : w'.expects = some (a, st)) :
    ∃ r ∈ db'.alerts.rows, r.facts = a.facts ∧ r.status = st := by
  cases h with
  | leave hs' =>
    have : w'.expects = none := by
      cases w' <;> first | rfl | simp [Worker.Stage.alert?] at hs'
    rw [this] at ha
    contradiction
  | dequeue order hnext =>
    obtain ⟨rfl, rfl⟩ := Prod.mk.inj (Option.some.inj ha)
    obtain ⟨hmem, hq, -⟩ := Worker.nextQueued_eq_some hnext
    exact ⟨_, hmem, rfl, hq⟩
  | mark =>
    obtain ⟨rfl, rfl⟩ := Prod.mk.inj (Option.some.inj ha)
    obtain ⟨r, hr, hfacts, -⟩ := hI _ _ rfl
    -- the row in hand is the one that is updated
    refine ⟨{ r with status := .analyzing }, ?_, hfacts, rfl⟩
    refine EventStore.mem_updateAlertStatus.mpr ⟨r, hr, ?_⟩
    rw [if_pos (Alert.alertId_of_facts hfacts)]
  | prepare hw hw' _ =>
    rw [Worker.Stage.expects_of_preparing? hw'] at ha
    exact hI a st ((Worker.Stage.expects_of_preparing? hw).trans ha)
  | inherit _ _ =>
    obtain ⟨rfl, rfl⟩ := Prod.mk.inj (Option.some.inj ha)
    exact hI _ _ rfl
  | produce _ _ =>
    obtain ⟨rfl, rfl⟩ := Prod.mk.inj (Option.some.inj ha)
    exact hI _ _ rfl
  | supersede =>
    obtain ⟨rfl, rfl⟩ := Prod.mk.inj (Option.some.inj ha)
    exact hI _ _ rfl
  | record hrec =>
    obtain ⟨rfl, rfl⟩ := Prod.mk.inj (Option.some.inj ha)
    rw [(OperationalStore.recordVerdict_eq_ok hrec).2.2]
    exact hI _ _ rfl
  | link => contradiction
  | @fail _ b c hw hc =>
    obtain ⟨rfl, rfl⟩ := Prod.mk.inj (Option.some.inj ha)
    -- the call that fails has written nothing
    refine hI _ _ ?_
    cases w <;> simp_all [Worker.Stage.alert?, Worker.Stage.call?, Worker.Stage.expects] <;>
      (obtain rfl := hc; simp)
  | markFailed => contradiction

/-- So does a step of the worker. -/
theorem Inv.worker (hI : s.Inv) (hnow : s'.now = s.now) (hd : s'.dispatcher = s.dispatcher)
    (h : Worker.Move s.now s.db s.worker s'.db s'.worker) : s'.Inv := by
  have hrows : ∀ b ∈ s'.db.alerts.rows, ∃ a ∈ s.db.alerts.rows, a.facts = b.facts := by
    intro b hb
    obtain ⟨r, hr, hfacts, -⟩ := h.exists_of_mem hb
    exact ⟨r, hr, hfacts⟩
  refine ⟨hd ▸ hI.lock, fun b hb => ?_, fun b hb => ?_, fun i e st => hd ▸ hI.inserting i e st,
    fun i e row hi => (hI.committing i e row (hd ▸ hi)).of_facts hnow hrows,
    inHand_of_move h hI.inHand⟩
  · obtain ⟨a, ha, hab⟩ := hrows b hb
    rw [← Alert.ingestTimestamp_of_facts hab, hnow]
    exact hI.past a ha
  · obtain ⟨a, ha, hab⟩ := hrows b hb
    rw [← Alert.sensorId_of_facts hab]
    exact hI.sensor a ha

/-- Every step keeps the invariant. -/
theorem Inv.step {act : Act} (hI : s.Inv) (h : App.step cap resetHour s act = some s') : s'.Inv := by
  cases act with
  | tick t =>
    obtain ⟨hle, rfl⟩ := step_tick h
    exact hI.tick hle
  | dispatcher a =>
    obtain ⟨hstep, hnow, hworker⟩ := step_dispatcher h
    obtain ⟨hmove, hlock⟩ := Dispatcher.move_of_step hI.lock hstep
    exact hI.dispatcher hnow hworker hlock hmove
  | worker a =>
    obtain ⟨hstep, hnow, hd⟩ := step_worker h
    exact hI.worker hnow hd (Worker.move_of_step hstep)

/-- It holds in every reachable state. -/
theorem Inv.of_reachable {now : Datetime}
    (h : Reachable (App.step cap resetHour) (init now) s) : s.Inv :=
  h.invariant (inv_init now) fun _ _ _ hI hstep => hI.step hstep

/-- The row with the id of the alert in hand carries its facts and the status expected. -/
theorem Inv.row_in_hand (hI : s.Inv) {a r : Alert} {st : Status}
    (ha : s.worker.expects = some (a, st)) (hr : r ∈ s.db.alerts.rows)
    (hid : r.alertId = a.alertId) : r.facts = a.facts ∧ r.status = st := by
  obtain ⟨q, hq, hfacts, hst⟩ := hI.inHand a st ha
  rw [s.db.alerts.eq_of_key_eq hr hq (hid.trans (Alert.alertId_of_facts hfacts).symm)]
  exact ⟨hfacts, hst⟩

end App

end Verdix
