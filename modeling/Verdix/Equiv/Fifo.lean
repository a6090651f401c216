import Verdix.Equiv.App

/-!
# The worker dequeues alerts in the order of their ingest timestamps

`dequeue_fifo`: along every run the dequeued alerts have nondecreasing ingest timestamps, and
whenever the worker has an alert in hand, no analyzed alert was ingested after it.  The lock orders
the stamps of the rows, so a row committed later is stamped after every row the worker may have
seen (`App.Stamped.last`); the query takes a least queued row.
-/

open TransitionSystem

namespace Verdix.App

/-- The alert a step of the application dequeues. -/
def dequeued? (m : Move App Act) : Option Alert :=
  match m.pre.worker, m.post.worker with
  | .dequeuing, .starting a => some a
  | _, _ => none

/-- The alerts dequeued along a run, in order. -/
def dequeued (tr : List (Move App Act)) : List Alert := tr.filterMap dequeued?

/-- The alerts `ds` dequeued so far, compared with the rows and with the alert in hand. -/
structure Fifo (ds : List Alert) (s : App) : Prop where
  sorted : ds.Pairwise fun a b => a.ingestTimestamp ≤ b.ingestTimestamp
  stored : ∀ d ∈ ds, ∃ r ∈ s.db.alerts.rows, r.ingestTimestamp = d.ingestTimestamp
  queued : ∀ d ∈ ds, ∀ r ∈ s.db.alerts.rows, r.status = .queued →
    d.ingestTimestamp ≤ r.ingestTimestamp
  taken : ∀ r ∈ s.db.alerts.rows, r.status.taken →
    ∃ d ∈ ds, d.ingestTimestamp = r.ingestTimestamp
  inHand : ∀ a, s.worker.alert? = some a → a ∈ ds ∧
    ∀ d ∈ ds, d.ingestTimestamp ≤ a.ingestTimestamp

variable {cap : ℕ} {resetHour : Fin 24} {ds : List Alert} {s s' : App}

theorem fifo_init (now : Datetime) : Fifo [] (init now) where
  sorted := .nil
  stored d hd := by contradiction
  queued d hd := by contradiction
  taken r hr := by simp [init, Db.empty] at hr
  inHand a ha := by contradiction

theorem Fifo.dispatcher (hF : Fifo ds s) (hI : s.Inv) (hworker : s'.worker = s.worker)
    {a : Dispatcher.Act}
    (h : Dispatcher.Move cap resetHour s.now s.db s.dispatcher a s'.db s'.dispatcher) :
    Fifo ds s' := by
  obtain ⟨now, db, d, w⟩ := s
  obtain ⟨now', db', d', w'⟩ := s'
  dsimp only at hworker h
  subst hworker
  cases h with
  | commit hin hrow _ =>
    obtain ⟨-, hrows, -⟩ := EventStore.insertRow_eq_ok hrow
    have hst := hI.committing _ _ _ hin
    refine ⟨hF.sorted, fun d hd => ?_, fun d hd r hr hq => ?_, fun r hr ht => ?_, hF.inHand⟩
    · obtain ⟨r, hr, heq⟩ := hF.stored d hd
      exact ⟨r, hrows ▸ List.mem_append_left _ hr, heq⟩
    · rw [hrows, List.mem_append, List.mem_singleton] at hr
      rcases hr with hr | rfl
      · exact hF.queued d hd r hr hq
      · -- the new row is stamped after every row the worker has seen
        obtain ⟨q, hq, heq⟩ := hF.stored d hd
        rw [← heq]
        exact hst.last q hq
    · rw [hrows, List.mem_append, List.mem_singleton] at hr
      rcases hr with hr | rfl
      · exact hF.taken r hr ht
      · rw [hst.status] at ht
        contradiction
  | _ => exact ⟨hF.sorted, hF.stored, hF.queued, hF.taken, hF.inHand⟩

/-- A worker step that picks up no alert. -/
theorem Fifo.worker (hF : Fifo ds s) (hI : s.Inv)
    (h : Worker.Move s.now s.db s.worker s'.db s'.worker)
    (hsame : ∀ a, s'.worker.alert? = some a → s.worker.alert? = some a) : Fifo ds s' where
  sorted := hF.sorted
  stored d hd := by
    obtain ⟨r, hr, heq⟩ := hF.stored d hd
    obtain ⟨b, hb, hfacts, -⟩ := h.exists_mem hr
    exact ⟨b, hb, (Alert.ingestTimestamp_of_facts hfacts).trans heq⟩
  queued d hd b hb hq := by
    obtain ⟨r, hr, -, rfl | htaken⟩ := h.exists_of_mem hb
    · exact hF.queued d hd r hr hq
    · rw [hq] at htaken
      contradiction
  taken b hb ht := by
    rcases h.alerts_cases with heq | ⟨a, f, hf, ha, heq, hprop⟩
    · exact hF.taken b (heq ▸ hb) ht
    · rw [heq] at hb
      obtain ⟨r, hr, rfl⟩ := Table.mem_update.mp hb
      split_ifs at ht ⊢ with hid
      · -- the row of the alert in hand, which has been dequeued
        obtain ⟨st, hst⟩ := Worker.Stage.expects_of_alert? ha
        have hfacts := (hI.row_in_hand hst hr (by simpa using hid)).1
        refine ⟨a, (hF.inHand a ha).1, ?_⟩
        rw [Alert.ingestTimestamp_of_facts (hprop r).1, Alert.ingestTimestamp_of_facts hfacts]
      · exact hF.taken r hr ht
  inHand a ha := hF.inHand a (hsame a ha)

/-- A dequeue takes a least queued row, so the alert is not older than those before it. -/
theorem Fifo.dequeue (hF : Fifo ds s) (hdb : s'.db = s.db) {a : Alert}
    (ha : s'.worker.alert? = some a) {order : ScanOrder Alert}
    (hnext : Worker.nextQueued s.db order = some a) : Fifo (ds ++ [a]) s' := by
  obtain ⟨hmem, hq, hleast⟩ := Worker.nextQueued_eq_some hnext
  refine ⟨?_, fun d hd => ?_, fun d hd r hr hrq => ?_, fun r hr ht => ?_, fun b hb => ?_⟩
  · refine List.pairwise_append.mpr ⟨hF.sorted, List.pairwise_singleton _ _, fun d hd b hb => ?_⟩
    rw [List.mem_singleton.mp hb]
    exact hF.queued d hd a hmem hq
  · rw [hdb]
    rcases List.mem_append.mp hd with hd | hd
    · exact hF.stored d hd
    · exact ⟨a, hmem, by rw [List.mem_singleton.mp hd]⟩
  · rw [hdb] at hr
    rcases List.mem_append.mp hd with hd | hd
    · exact hF.queued d hd r hr hrq
    · rw [List.mem_singleton.mp hd]
      exact hleast r hr hrq
  · rw [hdb] at hr
    obtain ⟨d, hd, heq⟩ := hF.taken r hr ht
    exact ⟨d, List.mem_append_left _ hd, heq⟩
  · obtain rfl := Option.some.inj (ha.symm.trans hb)
    refine ⟨List.mem_append_right _ (List.mem_singleton.mpr rfl), fun d hd => ?_⟩
    rcases List.mem_append.mp hd with hd | hd
    · exact hF.queued d hd a hmem hq
    · rw [List.mem_singleton.mp hd]

/-! ### Along a run -/

variable {tr : List (Move App Act)} {act : Act}

theorem dequeued_snoc_of_none (h : dequeued? ⟨s, act, s'⟩ = none) :
    dequeued (tr ++ [⟨s, act, s'⟩]) = dequeued tr := by
  simp [dequeued, List.filterMap_append, h]

/-- A step that picks up no alert dequeues nothing. -/
theorem dequeued?_eq_none (h : ∀ a, s'.worker.alert? = some a → s.worker.alert? = some a) :
    dequeued? ⟨s, act, s'⟩ = none := by
  unfold dequeued?
  split
  · rename_i a h1 h2
    have ha := h a (by rw [show s'.worker = .starting a from h2]; rfl)
    rw [show s.worker = .dequeuing from h1] at ha
    contradiction
  · rfl

theorem Fifo.step (hF : Fifo (dequeued tr) s) (hI : s.Inv)
    (h : App.step cap resetHour s act = some s') : Fifo (dequeued (tr ++ [⟨s, act, s'⟩])) s' := by
  cases act with
  | tick t =>
    obtain ⟨-, rfl⟩ := step_tick h
    have hnone : dequeued? ⟨s, .tick t, { s with now := t }⟩ = none :=
      dequeued?_eq_none fun _ ha => ha
    rw [dequeued_snoc_of_none hnone]
    exact ⟨hF.sorted, hF.stored, hF.queued, hF.taken, hF.inHand⟩
  | dispatcher a =>
    obtain ⟨hstep, hnow, hworker⟩ := step_dispatcher h
    rw [dequeued_snoc_of_none (dequeued?_eq_none fun a ha => hworker ▸ ha)]
    exact hF.dispatcher hI hworker (Dispatcher.move_of_step hI.lock hstep).1
  | worker wact =>
    obtain ⟨hstep, hnow, hd⟩ := step_worker h
    have hmove := Worker.move_of_step hstep
    by_cases hsame : ∀ a, s'.worker.alert? = some a → s.worker.alert? = some a
    · rw [dequeued_snoc_of_none (dequeued?_eq_none hsame)]
      exact hF.worker hI hmove hsame
    · push Not at hsame
      obtain ⟨a, ha, hne⟩ := hsame
      rcases hmove.alert?_cases ha with hsame | ⟨hw, hw', hdb, order, hnext⟩
      · exact absurd hsame hne
      · have hdeq : dequeued (tr ++ [⟨s, .worker wact, s'⟩]) = dequeued tr ++ [a] := by
          simp [dequeued, List.filterMap_append, dequeued?, hw, hw']
        rw [hdeq]
        exact hF.dequeue hdb ha hnext

theorem fifo_of_run {now : Datetime} (h : Run (App.step cap resetHour) (init now) tr s) :
    Fifo (dequeued tr) s :=
  h.history (P := fun tr s => Fifo (dequeued tr) s) (fifo_init now)
    fun _ _ _ _ hrun hF hstep => hF.step (Inv.of_reachable ⟨_, hrun⟩) hstep

/-- The worker dequeues in the order of the ingest timestamps, and no analyzed alert was ingested
after the one in hand. -/
theorem dequeue_fifo {now : Datetime} (h : Run (App.step cap resetHour) (init now) tr s) :
    (dequeued tr).Pairwise (fun a b => a.ingestTimestamp ≤ b.ingestTimestamp) ∧
      ∀ candidate, s.worker.alert? = some candidate → ∀ a ∈ s.db.alerts.rows,
        a.status = .analyzed → a.ingestTimestamp ≤ candidate.ingestTimestamp := by
  have hF := fifo_of_run h
  refine ⟨hF.sorted, fun c hc a ha hst => ?_⟩
  obtain ⟨d, hd, heq⟩ := hF.taken a ha (by rw [hst]; rfl)
  rw [← heq]
  exact (hF.inHand c hc).2 d hd

/-- Two alerts, dequeued one after the other. -/
theorem dequeue_fifo_two :
    let r := runFrom (step 5 0) (init (sampleTime 0 10 0))
      (handle 0 sampleEvent "a" ++ [.tick (sampleTime 0 10 1)] ++ handle 1 sampleEvent "b" ++
        [.worker .start] ++ produce "v1" sampleAnalysis ++ proceeds 2)
    (dequeued r.1).map Alert.alertId = ["a", "b"] ∧
      (dequeued r.1).Pairwise fun a b => a.ingestTimestamp ≤ b.ingestTimestamp :=
  ⟨by decide +kernel, (dequeue_fifo (run_runFrom _ _)).1⟩

end Verdix.App
