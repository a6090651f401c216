import Verdix.Equiv.DailyCap

/-!
# How many alerts the worker takes between two resets

The cap counts alerts by the period they were ingested in, so it bounds what the worker takes in a
period only as long as the queue holds alerts of that period.  `takenIn_le_cap` proves the bound for
the runs in which no queued alert is carried over a reset; `takenIn_backlog` is a run that carries
two over and takes both on the third day.
-/

open TransitionSystem

namespace Verdix.App

/-- The step takes an alert from `queued` to `analyzing`. -/
def takes (m : Move App Act) : Bool :=
  m.pre.db.alerts.rows.any fun a => a.status = .queued &&
    m.post.db.alerts.rows.any fun b => b.alertId = a.alertId && b.status = .analyzing

/-- The alerts taken while the clock showed instants of one period. -/
def takenIn (resetHour : Fin 24) (tr : List (Move App Act)) (k : ℕ) : ℕ :=
  tr.countP fun m => takes m ∧ m.pre.now.resetCount resetHour = k

/-- When the clock passes a reset, no alert is queued, and none stamped as queued waits for its
commit. -/
def NoBacklog (resetHour : Fin 24) (m : Move App Act) : Prop :=
  ∀ t, m.act = .tick t → m.pre.now.resetCount resetHour < t.resetCount resetHour →
    (∀ a ∈ m.pre.db.alerts.rows, a.status ≠ .queued) ∧
      ∀ i e row, m.pre.dispatcher.Inside i e (.committing row) → row.status ≠ .queued

/-- The alerts of one period that have left the queue. -/
def takenRows (resetHour : Fin 24) (db : Db) (k : ℕ) : ℕ :=
  db.alerts.rows.countP fun a => a.ingestTimestamp.resetCount resetHour = k ∧ a.status.taken

/-- The queue holds alerts of the current period only, and every take shows in the table. -/
structure TakesInv (resetHour : Fin 24) (tr : List (Move App Act)) (s : App) : Prop where
  queued : ∀ a ∈ s.db.alerts.rows, a.status = .queued →
    a.ingestTimestamp.resetCount resetHour = s.now.resetCount resetHour
  committing : ∀ i e row, s.dispatcher.Inside i e (.committing row) → row.status = .queued →
    row.ingestTimestamp.resetCount resetHour = s.now.resetCount resetHour
  taken : ∀ k, takenIn resetHour tr k ≤ takenRows resetHour s.db k

variable {cap : ℕ} {resetHour : Fin 24} {s s' : App} {act : Act} {tr : List (Move App Act)}

theorem takenIn_snoc (m : Move App Act) (k : ℕ) : takenIn resetHour (tr ++ [m]) k =
    takenIn resetHour tr k + if takes m ∧ m.pre.now.resetCount resetHour = k then 1 else 0 := by
  rw [takenIn, takenIn, List.countP_append, List.countP_singleton]
  simp only [decide_eq_true_eq]

/-- A step that keeps every row takes no alert. -/
theorem takes_eq_false (h : ∀ a ∈ s.db.alerts.rows, a ∈ s'.db.alerts.rows) :
    takes ⟨s, act, s'⟩ = false := by
  rw [Bool.eq_false_iff]
  intro ht
  simp only [takes, List.any_eq_true, Bool.and_eq_true, decide_eq_true_eq] at ht
  obtain ⟨a, ha, hq, b, hb, hid, hst⟩ := ht
  obtain rfl := s'.db.alerts.eq_of_key_eq hb (h a ha) hid
  rw [hq] at hst
  contradiction

/-- A step that only adds rows takes no alert. -/
theorem taken_of_append (hT : TakesInv resetHour tr s)
    (h : ∃ new, s'.db.alerts.rows = s.db.alerts.rows ++ new) (k : ℕ) :
    takenIn resetHour (tr ++ [⟨s, act, s'⟩]) k ≤ takenRows resetHour s'.db k := by
  obtain ⟨new, hrows⟩ := h
  rw [takenIn_snoc, takes_eq_false fun a ha => hrows ▸ List.mem_append_left _ ha]
  refine le_trans ?_ ((hT.taken k).trans ?_)
  · simp
  · rw [takenRows, takenRows, hrows, List.countP_append]
    exact Nat.le_add_right _ _

theorem takesInv_init (now : Datetime) : TakesInv resetHour [] (init now) where
  queued a ha := by simp [init, Db.empty] at ha
  committing i e row h := by simp [Dispatcher.Inside, init, Dispatcher.init] at h
  taken k := Nat.zero_le _

theorem TakesInv.tick (hT : TakesInv resetHour tr s) {t : Datetime} (ht : s.now ≤ t)
    (hG : NoBacklog resetHour ⟨s, .tick t, { s with now := t }⟩) :
    TakesInv resetHour (tr ++ [⟨s, .tick t, { s with now := t }⟩]) { s with now := t } := by
  refine ⟨fun a ha hq => ?_, fun i e row hi hq => ?_, taken_of_append hT ⟨[], by simp⟩⟩
  · rcases Nat.lt_or_eq_of_le (Datetime.resetCount_mono resetHour ht) with hlt | heq
    · exact absurd hq ((hG t rfl hlt).1 a ha)
    · exact (hT.queued a ha hq).trans heq
  · rcases Nat.lt_or_eq_of_le (Datetime.resetCount_mono resetHour ht) with hlt | heq
    · exact absurd hq ((hG t rfl hlt).2 i e row hi)
    · exact (hT.committing i e row hi hq).trans heq

theorem TakesInv.dispatcher (hT : TakesInv resetHour tr s) {a : Dispatcher.Act}
    (hnow : s'.now = s.now)
    (h : Dispatcher.Move cap resetHour s.now s.db s.dispatcher a s'.db s'.dispatcher) :
    TakesInv resetHour (tr ++ [⟨s, act, s'⟩]) s' := by
  obtain ⟨now, db, d, w⟩ := s
  obtain ⟨now', db', d', w'⟩ := s'
  dsimp only at hnow h
  subst hnow
  cases h with
  | quiet hq =>
    exact ⟨hT.queued, fun i e row hi => hT.committing i e row (hq _ _ _ hi),
      taken_of_append hT ⟨[], by simp⟩⟩
  | acquire hq =>
    exact ⟨hT.queued, fun i e row hi => absurd (hq _ _ _ hi) (by simp),
      taken_of_append hT ⟨[], by simp⟩⟩
  | count hin hq =>
    exact ⟨hT.queued, fun i e row hi => absurd (hq _ _ _ hi).2.2 (by simp),
      taken_of_append hT ⟨[], by simp⟩⟩
  | stamp hin hrow hq =>
    refine ⟨hT.queued, fun i e row hi _ => ?_, taken_of_append hT ⟨[], by simp⟩⟩
    obtain rfl := Dispatcher.Stage.committing.inj (hq _ _ _ hi).2.2
    rw [(EventStore.alertRow_eq_ok hrow).2.2.1]
  | commit hin hrow hq =>
    obtain ⟨-, hrows, -⟩ := EventStore.insertRow_eq_ok hrow
    refine ⟨fun a ha hst => ?_, fun i e row hi => absurd hi (hq _ _ _),
      taken_of_append hT ⟨_, hrows⟩⟩
    rw [hrows, List.mem_append, List.mem_singleton] at ha
    -- the new row is of the period in which its time was taken
    rcases ha with ha | rfl
    · exact hT.queued a ha hst
    · exact hT.committing _ _ _ hin hst

/-- The rows that have left the queue grow with every take. -/
theorem takenRows_worker (hT : TakesInv resetHour tr s)
    (h : Worker.Move s.now s.db s.worker s'.db s'.worker) (k : ℕ) :
    takenRows resetHour s.db k +
        (if takes ⟨s, act, s'⟩ ∧ s.now.resetCount resetHour = k then 1 else 0) ≤
      takenRows resetHour s'.db k := by
  rcases h.alerts_cases with heq | ⟨a, f, hf, -, heq, hprop⟩
  · rw [takes_eq_false fun a ha => heq ▸ ha, takenRows, takenRows, heq]
    simp
  · have hkeep : ∀ r ∈ s.db.alerts.rows, decide (r.alertId = a.alertId) →
        decide (r.ingestTimestamp.resetCount resetHour = k ∧ r.status.taken) →
        decide ((f r).ingestTimestamp.resetCount resetHour = k ∧ (f r).status.taken) := by
      intro r _ _ hr
      simp only [decide_eq_true_eq] at hr ⊢
      rw [Alert.ingestTimestamp_of_facts (hprop r).1]
      exact ⟨hr.1, (hprop r).2⟩
    rw [takenRows, takenRows, heq]
    split_ifs with htake
    · obtain ⟨ht, hk⟩ := htake
      simp only [takes, List.any_eq_true, Bool.and_eq_true, decide_eq_true_eq] at ht
      obtain ⟨r, hr, hq, b, hb, hid, hst⟩ := ht
      -- the row that was queued and is analyzing now belongs to the alert in hand
      have hra : r.alertId = a.alertId := by
        by_contra hne
        have hr' : r ∈ s'.db.alerts.rows := by
          rw [heq]
          exact Table.mem_update.mpr ⟨r, hr, by rw [if_neg (by simpa using hne)]⟩
        obtain rfl := s'.db.alerts.eq_of_key_eq hb hr' hid
        rw [hq] at hst
        contradiction
      refine Table.countP_lt_update hkeep hr (by simpa using hra) (by simp [hq, Status.taken]) ?_
      simp only [decide_eq_true_eq]
      rw [Alert.ingestTimestamp_of_facts (hprop r).1, hT.queued r hr hq]
      exact ⟨hk, (hprop r).2⟩
    · exact Table.countP_le_update hkeep

theorem TakesInv.worker (hT : TakesInv resetHour tr s) (hnow : s'.now = s.now)
    (hd : s'.dispatcher = s.dispatcher)
    (h : Worker.Move s.now s.db s.worker s'.db s'.worker) :
    TakesInv resetHour (tr ++ [⟨s, act, s'⟩]) s' := by
  refine ⟨fun b hb hq => ?_, fun i e row hi => ?_, fun k => ?_⟩
  · obtain ⟨r, hr, -, rfl | htaken⟩ := h.exists_of_mem hb
    · rw [hnow]
      exact hT.queued r hr hq
    · rw [hq] at htaken
      contradiction
  · rw [hnow]
    exact hT.committing i e row (hd ▸ hi)
  · rw [takenIn_snoc]
    exact (Nat.add_le_add_right (hT.taken k) _).trans (takenRows_worker hT h k)

theorem TakesInv.step (hT : TakesInv resetHour tr s) (hI : s.Inv)
    (h : App.step cap resetHour s act = some s') (hG : NoBacklog resetHour ⟨s, act, s'⟩) :
    TakesInv resetHour (tr ++ [⟨s, act, s'⟩]) s' := by
  cases act with
  | tick t =>
    obtain ⟨hle, rfl⟩ := step_tick h
    exact hT.tick hle hG
  | dispatcher a =>
    obtain ⟨hstep, hnow, -⟩ := step_dispatcher h
    exact hT.dispatcher hnow (Dispatcher.move_of_step hI.lock hstep).1
  | worker a =>
    obtain ⟨hstep, hnow, hd⟩ := step_worker h
    exact hT.worker hnow hd (Worker.move_of_step hstep)

theorem takesInv_of_run {now : Datetime} (h : Run (App.step cap resetHour) (init now) tr s)
    (hG : ∀ m ∈ tr, NoBacklog resetHour m) : TakesInv resetHour tr s := by
  refine h.history_of_moves (takesInv_init now) (fun tr s a s' hrun hT hstep hm => ?_) hG
  exact hT.step (Inv.of_reachable ⟨_, hrun⟩) hstep hm

/-- Without a backlog over a reset, the worker takes at most `cap` alerts between two resets. -/
theorem takenIn_le_cap {now : Datetime} (h : Run (App.step cap resetHour) (init now) tr s)
    (hG : ∀ m ∈ tr, CountsAfterReset resetHour m ∧ NoBacklog resetHour m) (k : ℕ) :
    takenIn resetHour tr k ≤ cap := by
  have hT := takesInv_of_run h fun m hm => (hG m hm).2
  have hC := capInv_of_run h fun m hm => (hG m hm).1
  refine (hT.taken k).trans (le_trans ?_ (hC.bounded k))
  refine List.countP_mono_left fun a _ ha => ?_
  simp only [decide_eq_true_eq] at ha ⊢
  refine ⟨ha.1, fun hd => ?_⟩
  rw [hd] at ha
  exact absurd ha.2 (by decide)

/-- A test for both conditions on a step. -/
def withinPeriod (resetHour : Fin 24) (m : Move App Act) : Bool :=
  match m.act with
  | .tick t => m.pre.now.resetCount resetHour = t.resetCount resetHour ||
      m.pre.db.alerts.rows.all (fun a => a.status ≠ .queued) &&
        m.pre.dispatcher.tasks.all fun t => !t.stage.critical
  | .dispatcher (.count _) => EventStore.resetTime m.pre.now resetHour ≤ m.pre.now
  | _ => true

theorem conditions_of_withinPeriod {m : Move App Act} (h : withinPeriod resetHour m) :
    CountsAfterReset resetHour m ∧ NoBacklog resetHour m := by
  constructor
  · intro i hi
    simpa [withinPeriod, hi] using h
  · intro t ht hlt
    have hne : m.pre.now.resetCount resetHour ≠ t.resetCount resetHour := by omega
    simp only [withinPeriod, ht, hne, decide_false, Bool.false_or, Bool.and_eq_true,
      List.all_eq_true, Bool.not_eq_true', decide_eq_true_eq] at h
    refine ⟨h.1, fun i e row hi => ?_⟩
    have := h.2 _ (List.mem_of_getElem? hi.1)
    rw [hi.2] at this
    contradiction

/-- An alert is taken before the reset at nine. -/
theorem takenIn_le_cap_empty_queue :
    let r := runFrom (step 2 9) (init (sampleTime 0 10 0)) ([.worker .start] ++
      handle 0 sampleEvent "a" ++ proceeds 3 ++ [.tick (sampleTime 1 9 0)])
    takenIn 9 r.1 ((sampleTime 0 10 0).resetCount 9) = 1 ∧ ∀ k, takenIn 9 r.1 k ≤ 2 := by
  have hall : ((runFrom (step 2 9) (init (sampleTime 0 10 0)) ([.worker .start] ++
      handle 0 sampleEvent "a" ++ proceeds 3 ++ [.tick (sampleTime 1 9 0)])).1.all
        (withinPeriod 9)) = true := by decide +kernel
  exact ⟨by decide +kernel, takenIn_le_cap (run_runFrom _ _) fun m hm =>
    conditions_of_withinPeriod (List.all_eq_true.mp hall m hm)⟩

/-- With a cap of one, an alert of the first and one of the second day are both taken on the
third. -/
theorem takenIn_backlog :
    let r := runFrom (step 1 0) (init (sampleTime 0 10 0))
      (handle 0 sampleEvent "a" ++ [.tick (sampleTime 1 10 0)] ++ handle 1 sampleEvent "b" ++
        [.tick (sampleTime 2 10 0), .worker .start] ++ produce "v1" sampleAnalysis ++
        produce "v2" sampleAnalysis)
    Run (step 1 0) (init (sampleTime 0 10 0)) r.1 r.2 ∧
      takenIn 0 r.1 ((sampleTime 2 10 0).resetCount 0) = 2 :=
  ⟨run_runFrom _ _, by decide +kernel⟩

end Verdix.App
