import Verdix.Equiv.App

/-!
# The daily cap

The dispatcher admits an alert as `queued` while fewer than `cap` alerts of the current period
count, and the worker dequeues under the same test.

* `dequeueNext_iff`: the worker's test refuses a queued alert exactly when the cap is used up, the
  queued alerts included.
* `daily_cap_respected`: no UTC day holds more than `cap` alerts that are not deferred, and every
  deferred alert comes after a count that found the cap used up.
* `takenIn_le_cap`: without a backlog over a reset, the worker takes at most `cap` alerts between
  two resets.

`CapInv` is the invariant: a count that admits an alert leaves room for it in every period the
stamp can fall into, since nobody else can insert before the lock is free.
-/

open TransitionSystem

namespace Verdix.App

/-- The alerts of one period that are not deferred. -/
def admitted (resetHour : Fin 24) (db : Db) (k : ℕ) : ℕ :=
  db.alerts.rows.countP fun a => a.ingestTimestamp.resetCount resetHour = k ∧ a.status ≠ .deferred

/-- The dispatcher counts only once the reset of the current UTC day is past. -/
def CountsAfterReset (resetHour : Fin 24) (m : Move App Act) : Prop :=
  ∀ i, m.act = .dispatcher (.count i) →
    EventStore.resetTime m.pre.now resetHour ≤ m.pre.now

/-- The cap invariant. -/
structure CapInv (cap : ℕ) (resetHour : Fin 24) (s : App) : Prop where
  bounded : ∀ k, admitted resetHour s.db k ≤ cap
  inserting : ∀ i e st, s.dispatcher.Inside i e (.inserting st) → st ≠ .deferred →
    ∀ k, s.now.resetCount resetHour ≤ k → admitted resetHour s.db k < cap
  committing : ∀ i e row, s.dispatcher.Inside i e (.committing row) → row.status ≠ .deferred →
    admitted resetHour s.db (row.ingestTimestamp.resetCount resetHour) < cap

variable {cap : ℕ} {resetHour : Fin 24} {s s' : App} {act : Act} {tr : List (Move App Act)}

/-! ### Counting -/

/-- All rows lie in the past, so the count is that of the current period. -/
theorem countAnalyzedToday_eq_admitted (hI : s.Inv)
    (hreset : EventStore.resetTime s.now resetHour ≤ s.now) :
    EventStore.countAnalyzedToday s.db s.now resetHour 1 =
      admitted resetHour s.db (s.now.resetCount resetHour) := by
  rw [EventStore.countAnalyzedToday_eq, admitted]
  refine List.countP_congr fun a ha => ?_
  have hiff := Datetime.replaceHour_le_iff hreset (hI.past a ha)
  simp only [decide_eq_true_eq, hI.sensor a ha, true_and, EventStore.resetTime, hiff]
  exact and_comm

/-- No row lies in a later period. -/
theorem admitted_eq_zero (hI : s.Inv) {k : ℕ} (hk : s.now.resetCount resetHour < k) :
    admitted resetHour s.db k = 0 := by
  rw [admitted, List.countP_eq_zero]
  intro a ha hc
  have := Datetime.resetCount_mono resetHour (hI.past a ha)
  simp only [decide_eq_true_eq] at hc
  omega

theorem admitted_append {db db' : Db} {row : Alert}
    (hrows : db'.alerts.rows = db.alerts.rows ++ [row]) (k : ℕ) :
    admitted resetHour db' k = admitted resetHour db k +
      if row.ingestTimestamp.resetCount resetHour = k ∧ row.status ≠ .deferred then 1 else 0 := by
  rw [admitted, admitted, hrows, List.countP_append, List.countP_singleton]
  simp only [decide_eq_true_eq]

/-- The worker only changes the status of rows that are not deferred, and never to deferred. -/
theorem admitted_worker (hI : s.Inv) (h : Worker.Move s.now s.db s.worker s'.db s'.worker) (k : ℕ) :
    admitted resetHour s'.db k = admitted resetHour s.db k := by
  rcases h.alerts_cases with heq | ⟨a, f, hf, ha, heq, hprop⟩
  · rw [admitted, heq, admitted]
  · rw [admitted, heq]
    refine Table.countP_update fun r hr hid => ?_
    obtain ⟨st, hst⟩ := Worker.Stage.expects_of_alert? ha
    have hr1 : r.status ≠ .deferred := by
      rw [(hI.row_in_hand hst hr (by simpa using hid)).2]
      exact Worker.Stage.expects_status hst
    have hr2 : (f r).status ≠ .deferred := by
      intro hd
      have ht := (hprop r).2
      rw [hd] at ht
      contradiction
    simp [Alert.ingestTimestamp_of_facts (hprop r).1, hr1, hr2]

/-! ### The invariant -/

theorem capInv_init (now : Datetime) : CapInv cap resetHour (init now) where
  bounded k := by simp [admitted, init, Db.empty]
  inserting i e st h := by simp [Dispatcher.Inside, init, Dispatcher.init] at h
  committing i e row h := by simp [Dispatcher.Inside, init, Dispatcher.init] at h

theorem CapInv.tick (hC : CapInv cap resetHour s) {t : Datetime} (ht : s.now ≤ t) :
    CapInv cap resetHour { s with now := t } where
  bounded := hC.bounded
  inserting i e st h hst k hk :=
    hC.inserting i e st h hst k ((Datetime.resetCount_mono resetHour ht).trans hk)
  committing := hC.committing

theorem CapInv.dispatcher (hC : CapInv cap resetHour s) (hI : s.Inv) {a : Dispatcher.Act}
    (hnow : s'.now = s.now) (hcount : ∀ i, a = .count i →
      EventStore.resetTime s.now resetHour ≤ s.now)
    (h : Dispatcher.Move cap resetHour s.now s.db s.dispatcher a s'.db s'.dispatcher) :
    CapInv cap resetHour s' := by
  obtain ⟨now, db, d, w⟩ := s
  obtain ⟨now', db', d', w'⟩ := s'
  dsimp only at hnow hcount h
  subst hnow
  cases h with
  | quiet hq =>
    exact ⟨hC.bounded, fun i e st hi => hC.inserting i e st (hq _ _ _ hi),
      fun i e row hi => hC.committing i e row (hq _ _ _ hi)⟩
  | acquire hq =>
    exact ⟨hC.bounded, fun i e st hi => absurd (hq _ _ _ hi) (by simp),
      fun i e row hi => absurd (hq _ _ _ hi) (by simp)⟩
  | @count j e₀ _ hin hq =>
    refine ⟨hC.bounded, fun i e st hi hst k hk => ?_,
      fun i e row hi => absurd (hq _ _ _ hi).2.2 (by simp)⟩
    -- the count has just been made: an alert that is to be queued is below the cap
    have hst' := Dispatcher.Stage.inserting.inj (hq _ _ _ hi).2.2
    rw [countAnalyzedToday_eq_admitted hI (hcount j rfl)] at hst'
    have hlt : admitted resetHour db (now'.resetCount resetHour) < cap := by
      by_contra hge
      exact hst (by rw [hst', if_neg hge])
    -- no row is of a later period
    rcases Nat.lt_or_eq_of_le hk with hk | rfl
    · rw [admitted_eq_zero hI hk]
      omega
    · exact hlt
  | stamp hin hrow hq =>
    refine ⟨hC.bounded, fun i e st hi => absurd (hq _ _ _ hi).2.2 (by simp),
      fun i e row hi hst => ?_⟩
    obtain rfl := Dispatcher.Stage.committing.inj (hq _ _ _ hi).2.2
    obtain ⟨-, -, hts, hstatus, -⟩ := EventStore.alertRow_eq_ok hrow
    rw [hts]
    -- the row gets the time of this step, which is at or after that of the count
    exact hC.inserting _ _ _ hin (hstatus ▸ hst) _ le_rfl
  | @commit _ _ row _ _ hin hrow hq =>
    obtain ⟨-, hrows, -⟩ := EventStore.insertRow_eq_ok hrow
    refine ⟨fun k => ?_, fun i e st hi => absurd hi (hq _ _ _),
      fun i e row hi => absurd hi (hq _ _ _)⟩
    rw [admitted_append hrows]
    split_ifs with hk
    · have := hC.committing _ _ _ hin hk.2
      rw [hk.1] at this
      exact this
    · exact hC.bounded k

theorem CapInv.worker (hC : CapInv cap resetHour s) (hI : s.Inv) (hnow : s'.now = s.now)
    (hd : s'.dispatcher = s.dispatcher)
    (h : Worker.Move s.now s.db s.worker s'.db s'.worker) : CapInv cap resetHour s' := by
  have heq : ∀ k, admitted resetHour s'.db k = admitted resetHour s.db k := admitted_worker hI h
  refine ⟨fun k => ?_, fun i e st hi hst k hk => ?_, fun i e row hi hst => ?_⟩
  · rw [heq]
    exact hC.bounded k
  · rw [heq]
    exact hC.inserting i e st (hd ▸ hi) hst k (hnow ▸ hk)
  · rw [heq]
    exact hC.committing i e row (hd ▸ hi) hst

theorem CapInv.step (hC : CapInv cap resetHour s) (hI : s.Inv)
    (h : App.step cap resetHour s act = some s')
    (hG : CountsAfterReset resetHour ⟨s, act, s'⟩) : CapInv cap resetHour s' := by
  cases act with
  | tick t =>
    obtain ⟨hle, rfl⟩ := step_tick h
    exact hC.tick hle
  | dispatcher a =>
    obtain ⟨hstep, hnow, -⟩ := step_dispatcher h
    have hmove := (Dispatcher.move_of_step hI.lock hstep).1
    exact hC.dispatcher hI hnow (fun i hi => hG i (by rw [hi])) hmove
  | worker a =>
    obtain ⟨hstep, hnow, hd⟩ := step_worker h
    exact hC.worker hI hnow hd (Worker.move_of_step hstep)

theorem capInv_of_run {now : Datetime} (h : Run (App.step cap resetHour) (init now) tr s)
    (hG : ∀ m ∈ tr, CountsAfterReset resetHour m) : CapInv cap resetHour s :=
  h.invariant_of_moves (capInv_init now)
    (fun _ _ _ hreach hC hstep hm => hC.step (Inv.of_reachable hreach) hstep hm) hG

/-! ### The worker's test -/

/-- With an alert in the queue, the worker gets the oldest one exactly when the alerts ingested
since the reset, those still queued included, are fewer than the cap. -/
theorem dequeueNext_iff {now : Datetime}
    (h : Reachable (App.step cap resetHour) (init now) s) (order : ScanOrder Alert)
    (hq : ∃ a ∈ s.db.alerts.rows, a.status = .queued) :
    (∃ a, Worker.dequeueNext cap resetHour s.now s.db order = some a ∧
        a ∈ s.db.alerts.rows ∧ a.status = .queued ∧
        ∀ b ∈ s.db.alerts.rows, b.status = .queued → a.ingestTimestamp ≤ b.ingestTimestamp) ↔
      (s.db.alerts.rows.countP fun a => a.status ≠ .deferred ∧
        s.now.replaceHour resetHour ≤ a.ingestTimestamp) < cap := by
  have hI := Inv.of_reachable h
  have hcount : EventStore.countAnalyzedToday s.db s.now resetHour 1 =
      s.db.alerts.rows.countP fun a => a.status ≠ .deferred ∧
        s.now.replaceHour resetHour ≤ a.ingestTimestamp := by
    rw [EventStore.countAnalyzedToday_eq]
    refine List.countP_congr fun a ha => ?_
    simp only [hI.sensor a ha, true_and, EventStore.resetTime]
  rw [← hcount]
  unfold Worker.dequeueNext Worker.capReached
  constructor
  · rintro ⟨a, ha, -⟩
    split_ifs at ha with hcap
    simpa using hcap
  · intro hlt
    obtain ⟨b, hb, hbq⟩ := hq
    obtain ⟨a, ha⟩ := Worker.exists_nextQueued order hb hbq
    rw [if_neg (by simpa using hlt)]
    exact ⟨a, ha, Worker.nextQueued_eq_some ha⟩

/-- The first alert of the day, with a cap of two. -/
theorem dequeueNext_iff_first :
    let s := (runFrom (step 2 0) (init (sampleTime 0 10 0)) (handle 0 sampleEvent "a")).2
    ∃ a, Worker.dequeueNext 2 0 s.now s.db (.rowid Alert) = some a ∧
      a ∈ s.db.alerts.rows ∧ a.status = .queued ∧
      ∀ b ∈ s.db.alerts.rows, b.status = .queued → a.ingestTimestamp ≤ b.ingestTimestamp :=
  (dequeueNext_iff (reachable_runFrom _ _) (.rowid Alert) (by decide +kernel)).mpr
    (by decide +kernel)

/-- With a cap of one, the one alert admitted under it is refused. -/
theorem dequeueNext_refuses_admitted :
    let s := (runFrom (step 1 0) (init (sampleTime 0 10 0)) (handle 0 sampleEvent "a")).2
    Reachable (step 1 0) (init (sampleTime 0 10 0)) s ∧
      (∃ a ∈ s.db.alerts.rows, a.status = .queued) ∧
      Worker.dequeueNext 1 0 s.now s.db (.rowid Alert) = none :=
  ⟨reachable_runFrom _ _, by decide +kernel, by decide +kernel⟩

/-! ### The cap over the days -/

/-- The alerts ingested on one UTC day that are not deferred. -/
def admittedOn (db : Db) (day : ℕ) : ℕ :=
  db.alerts.rows.countP fun a => a.ingestTimestamp.day = day ∧ a.status ≠ .deferred

theorem admittedOn_eq (db : Db) (day : ℕ) : admittedOn db day = admitted 0 db (day + 1) := by
  simp only [admittedOn, admitted, Datetime.resetCount_zero, Nat.add_right_cancel_iff]

/-- Task `i` counted, for this event, on a day whose cap was used up. -/
def CountedFull (cap : ℕ) (tr : List (Move App Act)) (i : ℕ) (event : EveEvent) : Prop :=
  ∃ c ∈ tr, c.act = .dispatcher (.count i) ∧
    c.pre.dispatcher.tasks[i]? = some ⟨event, .counting⟩ ∧
    cap ≤ admittedOn c.pre.db c.pre.now.day

/-- The tasks that are about to defer an alert have counted a full day. -/
structure Deferring (cap : ℕ) (tr : List (Move App Act)) (s : App) : Prop where
  inserting : ∀ i e, s.dispatcher.Inside i e (.inserting .deferred) → CountedFull cap tr i e
  committing : ∀ i e row, s.dispatcher.Inside i e (.committing row) → row.status = .deferred →
    CountedFull cap tr i e

theorem CountedFull.snoc {i : ℕ} {e : EveEvent} (h : CountedFull cap tr i e) (m : Move App Act) :
    CountedFull cap (tr ++ [m]) i e := by
  obtain ⟨c, hc, hprop⟩ := h
  exact ⟨c, List.mem_append_left _ hc, hprop⟩

theorem Deferring.step (hD : Deferring cap tr s) (hI : s.Inv)
    (h : App.step cap 0 s act = some s') : Deferring cap (tr ++ [⟨s, act, s'⟩]) s' := by
  have hsame : s'.dispatcher = s.dispatcher → Deferring cap (tr ++ [⟨s, act, s'⟩]) s' := fun hd =>
    ⟨fun i e hi => (hD.inserting i e (hd ▸ hi)).snoc _,
      fun i e row hi hst => (hD.committing i e row (hd ▸ hi) hst).snoc _⟩
  cases act with
  | tick t => exact hsame (by rw [(step_tick h).2])
  | worker a => exact hsame (step_worker h).2.2
  | dispatcher a =>
    obtain ⟨hstep, hnow, -⟩ := step_dispatcher h
    obtain ⟨hmove, -⟩ := Dispatcher.move_of_step hI.lock hstep
    clear hsame hstep h hnow
    obtain ⟨now, db, d, w⟩ := s
    obtain ⟨now', db', d', w'⟩ := s'
    dsimp only at hmove
    cases hmove with
    | quiet hq =>
      exact ⟨fun i e hi => (hD.inserting i e (hq _ _ _ hi)).snoc _,
        fun i e row hi hst => (hD.committing i e row (hq _ _ _ hi) hst).snoc _⟩
    | acquire hq =>
      exact ⟨fun i e hi => absurd (hq _ _ _ hi) (by simp),
        fun i e row hi => absurd (hq _ _ _ hi) (by simp)⟩
    | @count j e₀ _ hin hq =>
      refine ⟨fun i e hi => ?_, fun i e row hi => absurd (hq _ _ _ hi).2.2 (by simp)⟩
      -- this step is the count that sends the alert to the deferred ones
      obtain ⟨rfl, rfl, hst⟩ := hq _ _ _ hi
      refine ⟨_, List.mem_append_right _ (List.mem_singleton.mpr rfl), rfl, hin.1, ?_⟩
      have hreset : EventStore.resetTime now 0 ≤ now := Datetime.replaceHour_zero_le now
      have hst := Dispatcher.Stage.inserting.inj hst
      rw [countAnalyzedToday_eq_admitted hI hreset] at hst
      rw [admittedOn_eq, ← Datetime.resetCount_zero]
      by_contra hlt
      rw [if_pos (Nat.lt_of_not_le hlt)] at hst
      contradiction
    | stamp hin hrow hq =>
      refine ⟨fun i e hi => absurd (hq _ _ _ hi).2.2 (by simp), fun i e row hi hst => ?_⟩
      obtain ⟨rfl, rfl, hrow'⟩ := hq _ _ _ hi
      obtain rfl := Dispatcher.Stage.committing.inj hrow'
      rw [(EventStore.alertRow_eq_ok hrow).2.2.2.1] at hst
      subst hst
      exact (hD.inserting _ _ hin).snoc _
    | commit hin hrow hq =>
      exact ⟨fun i e hi => absurd hi (hq _ _ _), fun i e row hi => absurd hi (hq _ _ _)⟩

theorem deferring_of_run {now : Datetime} (h : Run (App.step cap 0) (init now) tr s) :
    Deferring cap tr s :=
  h.history
    ⟨fun i e h => by simp [Dispatcher.Inside, init, Dispatcher.init] at h,
      fun i e row h => by simp [Dispatcher.Inside, init, Dispatcher.init] at h⟩
    fun _ _ _ _ hrun hD hstep => hD.step (Inv.of_reachable ⟨_, hrun⟩) hstep

/-- Only a commit brings a new alert into the table. -/
theorem commit_of_new (hI : s.Inv) (h : App.step cap resetHour s act = some s') {a : Alert}
    (ha : a ∈ s'.db.alerts.rows) (hnew : ∀ b ∈ s.db.alerts.rows, b.alertId ≠ a.alertId) :
    ∃ i e, act = .dispatcher (.commit i) ∧ s.dispatcher.Inside i e (.committing a) := by
  cases act with
  | tick t =>
    rw [(step_tick h).2] at ha
    exact absurd rfl (hnew a ha)
  | worker wact =>
    obtain ⟨r, hr, hfacts, -⟩ := (Worker.move_of_step (step_worker h).1).exists_of_mem ha
    exact absurd (Alert.alertId_of_facts hfacts) (hnew r hr)
  | dispatcher dact =>
    obtain ⟨hmove, -⟩ := Dispatcher.move_of_step hI.lock (step_dispatcher h).1
    clear h
    obtain ⟨now, db, d, w⟩ := s
    obtain ⟨now', db', d', w'⟩ := s'
    dsimp only at hmove ha hnew
    cases hmove with
    | commit hin hrow _ =>
      rw [(EventStore.insertRow_eq_ok hrow).2.1, List.mem_append, List.mem_singleton] at ha
      rcases ha with ha | rfl
      · exact absurd rfl (hnew a ha)
      · exact ⟨_, _, rfl, hin⟩
    | _ => exact absurd rfl (hnew a ha)

/-- With the reset at midnight, no UTC day holds more than `cap` alerts that are not deferred, and
an alert is inserted as deferred only after its task counted a day whose cap was used up. -/
theorem daily_cap_respected {now : Datetime} (h : Run (App.step cap 0) (init now) tr s) :
    (∀ day, admittedOn s.db day ≤ cap) ∧
      ∀ tr₁ m tr₂, tr = tr₁ ++ m :: tr₂ → ∀ a ∈ m.post.db.alerts.rows,
        (∀ b ∈ m.pre.db.alerts.rows, b.alertId ≠ a.alertId) → a.status = .deferred →
        ∃ i e, m.act = .dispatcher (.commit i) ∧
          m.pre.dispatcher.tasks[i]? = some ⟨e, .committing a⟩ ∧ CountedFull cap tr₁ i e := by
  constructor
  · intro day
    rw [admittedOn_eq]
    exact (capInv_of_run h fun m _ _ _ => Datetime.replaceHour_zero_le _).bounded _
  · rintro tr₁ m tr₂ rfl a ha hnew hst
    obtain ⟨hrun, hstep⟩ := h.split
    obtain ⟨i, e, hact, hin⟩ := commit_of_new (Inv.of_reachable ⟨_, hrun⟩) hstep ha hnew
    exact ⟨i, e, hact, hin.1, (deferring_of_run hrun).committing i e a hin hst⟩

/-- With a cap of one, the second alert of the day is deferred. -/
theorem daily_cap_respected_two :
    let r := runFrom (step 1 0) (init (sampleTime 0 23 59))
      (handle 0 sampleEvent "a" ++ handle 1 sampleEvent "b")
    r.2.db.alerts.rows.map Alert.status = [.queued, .deferred] ∧
      ∀ day, admittedOn r.2.db day ≤ 1 :=
  ⟨by decide +kernel, (daily_cap_respected (run_runFrom _ _)).1⟩

end Verdix.App
