import Verdix.Ingestion.Indexer

/-!
# What the indexer stores

* `conserved`: up to a cancellation, the events stored, those in the batch and those on the queue
  are the arrivals in their order; and after a cancellation while `run` waits, a last flush that
  succeeds leaves only the queue.
* `stores_accepted_iff`: a batch is written as a whole or not at all, and a batch that is not
  written is kept.  So an event whose row is refused holds back every event it shares the batch
  with, and every event after it.
-/

open TransitionSystem

namespace Verdix.Indexing

open EventStore

variable {maxDepth batchSize : ℕ} {sur : PyStr.Surrogates} {table₀ : EveEvents} {s s' : Indexing}
  {tr : List (Move Indexing Indexer.Act)}

/-! ### Conservation -/

theorem writeBatch_eq_some {table table' : EveEvents} {ids : List String} {now : Datetime}
    {fault : Bool} {batch : List Json} (hlen : ids.length = batch.length)
    (h : Indexer.writeBatch maxDepth sur table ids now fault batch = some table') :
    ∃ rows, table'.rows = table.rows ++ rows ∧ List.Forall₂ (RowOf maxDepth sur) rows batch := by
  unfold Indexer.writeBatch at h
  split_ifs at h
  cases hinsert : insertEveEventsBatch maxDepth sur table ids now batch with
  | error e =>
    rw [hinsert] at h
    contradiction
  | ok u =>
    rw [hinsert] at h
    obtain rfl := Option.some.inj h
    exact insertEveEventsBatch_eq_ok hlen hinsert

/-- What has been taken off the queue and not been written. -/
def pending (x : Indexer) : List Json := if x.stage = .stopped true then [] else x.batch

theorem pending_of_ne {x : Indexer} (h : x.stage ≠ .stopped true) : pending x = x.batch := if_neg h

/-- The task is cancelled while it writes. -/
def CancelsFlush (m : Move Indexing Indexer.Act) : Prop :=
  match m.act with
  | .cancelFlush _ _ _ => True
  | _ => False

instance (m : Move Indexing Indexer.Act) : Decidable (CancelsFlush m) :=
  match m with
  | ⟨_, .cancelFlush _ _ _, _⟩ => .isTrue trivial
  | ⟨_, .put _, _⟩ | ⟨_, .get, _⟩ | ⟨_, .timeout, _⟩ | ⟨_, .flush _ _ _, _⟩ | ⟨_, .cancel, _⟩ =>
    .isFalse id

/-- The events a step puts on the queue. -/
def arrival (a : Indexer.Act) : List Json :=
  match a with
  | .put event => [event.raw]
  | _ => []

/-- What a step that is no cancellation of a write does: an event goes on the queue, or from there
into the batch, or the batch is written, or nothing moves. -/
inductive Moved (maxDepth : ℕ) (sur : PyStr.Surrogates) (s s' : Indexing) (arrived : List Json) :
    Prop
  | put (table : s'.table = s.table) (pending : pending s'.indexer = pending s.indexer)
      (queue : s'.indexer.queue.map EveEvent.raw = s.indexer.queue.map EveEvent.raw ++ arrived)
  | get (none : arrived = []) (table : s'.table = s.table) (e : Json)
      (pending : Indexing.pending s'.indexer = Indexing.pending s.indexer ++ [e])
      (queue : s.indexer.queue.map EveEvent.raw = e :: s'.indexer.queue.map EveEvent.raw)
  | write (none : arrived = []) (rows : List EveEventRow)
      (table : s'.table.rows = s.table.rows ++ rows)
      (batch : List.Forall₂ (RowOf maxDepth sur) rows (Indexing.pending s.indexer))
      (pending : Indexing.pending s'.indexer = []) (queue : s'.indexer.queue = s.indexer.queue)

theorem moved_of_step {a : Indexer.Act} (hstep : step maxDepth sur batchSize s a = some s')
    (hcancel : ¬ CancelsFlush ⟨s, a, s'⟩) : Moved maxDepth sur s s' (arrival a) := by
  obtain ⟨table, ⟨queue, batch, stage⟩⟩ := s
  obtain ⟨⟨table', x'⟩, hx, rfl⟩ := Option.map_eq_some_iff.mp hstep
  cases a with
  | put event =>
    obtain ⟨rfl, rfl⟩ := Prod.mk.inj (Option.some.inj hx)
    exact .put rfl rfl (by simp [arrival])
  | get =>
    match stage, queue, hx with
    | .waiting, event :: queue, hx =>
      obtain ⟨rfl, rfl⟩ := Prod.mk.inj (Option.some.inj hx)
      refine .get rfl rfl event.raw ?_ rfl
      rw [pending_of_ne (by dsimp only; split_ifs <;> simp), pending_of_ne (by simp)]
  | timeout =>
    match stage, hx with
    | .waiting, hx =>
      obtain ⟨rfl, rfl⟩ := Prod.mk.inj (Option.some.inj hx)
      refine .put rfl ?_ (by simp [arrival])
      rw [pending_of_ne (by dsimp only; split_ifs <;> simp), pending_of_ne (by simp)]
  | flush ids now fault =>
    have hlen : ids.length = batch.length := by
      by_contra hne
      rw [Indexer.step, if_pos hne] at hx
      contradiction
    rw [Indexer.step, if_neg (not_not.mpr hlen)] at hx
    match stage, hx with
    | .flushing, hx | .lastFlush, hx =>
      -- the last flush differs only in the stage it leaves
      cases hwrite : Indexer.writeBatch maxDepth sur table ids now fault batch with
      | none =>
        dsimp only at hx
        rw [hwrite] at hx
        obtain ⟨rfl, rfl⟩ := Prod.mk.inj (Option.some.inj hx)
        exact .put rfl rfl (by simp [arrival])
      | some u =>
        dsimp only at hx
        rw [hwrite] at hx
        obtain ⟨rfl, rfl⟩ := Prod.mk.inj (Option.some.inj hx)
        obtain ⟨rows, hrows, hall⟩ := writeBatch_eq_some hlen hwrite
        exact .write rfl rows hrows hall rfl rfl
  | cancel =>
    match stage, hx with
    | .waiting, hx =>
      obtain ⟨rfl, rfl⟩ := Prod.mk.inj (Option.some.inj hx)
      refine .put rfl ?_ (by simp [arrival])
      by_cases hbatch : batch = []
      · simp [pending, hbatch]
      · simp [pending, hbatch]
  | cancelFlush ids now committed => exact absurd trivial hcancel

/-- The rows since the start are those of `persisted`, and `arrived` is that, what is pending and
what is queued. -/
structure Conserved (maxDepth : ℕ) (sur : PyStr.Surrogates) (table₀ : EveEvents)
    (arrived persisted : List Json) (s : Indexing) : Prop where
  rows : ∃ rows, s.table.rows = table₀.rows ++ rows ∧
    List.Forall₂ (RowOf maxDepth sur) rows persisted
  arrived : persisted ++ pending s.indexer ++ s.indexer.queue.map EveEvent.raw = arrived

theorem Conserved.move {arrived more persisted : List Json}
    (h : Conserved maxDepth sur table₀ arrived persisted s)
    (hmoved : Moved maxDepth sur s s' more) :
    ∃ persisted', Conserved maxDepth sur table₀ (arrived ++ more) persisted' s' := by
  obtain ⟨⟨rows, hrows, hall⟩, rfl⟩ := h
  cases hmoved with
  | put htable hpending hqueue =>
    refine ⟨persisted, ⟨rows, htable ▸ hrows, hall⟩, ?_⟩
    rw [hpending, hqueue, List.append_assoc, List.append_assoc, List.append_assoc]
  | get hnone htable e hpending hqueue =>
    refine ⟨persisted, ⟨rows, htable ▸ hrows, hall⟩, ?_⟩
    rw [hnone, hpending, hqueue]
    simp
  | write hnone rows' htable hbatch hpending hqueue =>
    refine ⟨persisted ++ pending s.indexer, ⟨rows ++ rows', ?_, List.rel_append hall hbatch⟩, ?_⟩
    · rw [htable, hrows, List.append_assoc]
    · rw [hnone, hpending, hqueue, List.append_nil, List.append_nil]

theorem conserved_of_run (h : Run (step maxDepth sur batchSize) (init table₀) tr s)
    (hcancel : ∀ m ∈ tr, ¬ CancelsFlush m) :
    ∃ persisted, Conserved maxDepth sur table₀ ((arrivals tr).map EveEvent.raw) persisted s := by
  refine h.history_of_moves (P := fun tr s => ∃ persisted,
    Conserved maxDepth sur table₀ ((arrivals tr).map EveEvent.raw) persisted s) ?_ ?_ hcancel
  · exact ⟨[], ⟨[], (List.append_nil _).symm, .nil⟩, rfl⟩
  · rintro tr s a s' - ⟨persisted, hconserved⟩ hstep hm
    have harrivals : (arrivals (tr ++ [⟨s, a, s'⟩])).map EveEvent.raw =
        (arrivals tr).map EveEvent.raw ++ arrival a := by
      rw [arrivals, List.filterMap_append, List.map_append]
      cases a <;> rfl
    rw [harrivals]
    exact hconserved.move (moved_of_step hstep hm)

/-- No event is lost, stored twice or moved, up to the cancellation; and the last flush completes
what has been taken off the queue. -/
theorem conserved (h : Run (step maxDepth sur batchSize) (init table₀) tr s)
    (hcancel : ∀ m ∈ tr, ¬ CancelsFlush m) :
    ∃ rows persisted, s.table.rows = table₀.rows ++ rows ∧
      List.Forall₂ (RowOf maxDepth sur) rows persisted ∧
      ((∀ flushed, s.indexer.stage ≠ .stopped flushed) →
        persisted ++ s.indexer.batch ++ s.indexer.queue.map EveEvent.raw =
          (arrivals tr).map EveEvent.raw) ∧
      (s.indexer.stage = .stopped true →
        persisted ++ s.indexer.queue.map EveEvent.raw = (arrivals tr).map EveEvent.raw) := by
  obtain ⟨persisted, ⟨rows, hrows, hall⟩, harrived⟩ := conserved_of_run h hcancel
  refine ⟨rows, persisted, hrows, hall, fun hrunning => ?_, fun hstopped => ?_⟩
  · rw [← harrived, pending_of_ne (hrunning true)]
  · rw [← harrived, pending, if_pos hstopped, List.append_nil]

/-- An event of the sample runs. -/
def sampleEvent : EveEvent := .ofMembers [("event_type", .str "dns"), ("flow_id", .int 1)]

/-- The first flush fails, and the second one, after a cancellation, succeeds. -/
def sampleActs : List Indexer.Act :=
  [.put sampleEvent, .put sampleEvent, .get, .timeout, .flush ["a"] .yearOne true, .get, .cancel,
    .flush ["b", "c"] .yearOne false]

theorem conserved_cancel :
    let r := runFrom (step 9 .replacement 100) (init Table.empty) sampleActs
    ∃ rows persisted, r.2.table.rows = [] ++ rows ∧
      List.Forall₂ (RowOf 9 .replacement) rows persisted ∧
      persisted ++ r.2.indexer.queue.map EveEvent.raw = (arrivals r.1).map EveEvent.raw := by
  have hrun : Run (step 9 .replacement 100) (init Table.empty) _ _ :=
    run_runFrom (init Table.empty) sampleActs
  obtain ⟨rows, persisted, hrows, hall, -, hstopped⟩ := conserved hrun (by decide +kernel)
  exact ⟨rows, persisted, hrows, hall, hstopped (by decide +kernel)⟩

/-! ### Rows that are refused -/

/-- The flush interval passes, and the batch is written, if there is one. -/
def passInterval (maxDepth : ℕ) (sur : PyStr.Surrogates) (batchSize : ℕ) (s : Indexing)
    (ids : List String) (now : Datetime) : Option Indexing :=
  (step maxDepth sur batchSize s .timeout).bind fun s₁ =>
    if s₁.indexer.stage = .flushing then step maxDepth sur batchSize s₁ (.flush ids now false)
    else some s₁

/-- The events whose rows are accepted have been stored, and no others. -/
def StoresAccepted (maxDepth : ℕ) (sur : PyStr.Surrogates) (table₀ : EveEvents)
    (arrived : List Json) (s : Indexing) : Prop :=
  ∃ rows, s.table.rows = table₀.rows ++ rows ∧
    List.Forall₂ (RowOf maxDepth sur) rows (arrived.filter (accepts maxDepth sur))

/-- The batch holds an event whose row is accepted and one whose row is refused. -/
def Mixed (maxDepth : ℕ) (sur : PyStr.Surrogates) (batch : List Json) : Prop :=
  (∃ e ∈ batch, accepts maxDepth sur e) ∧ ∃ e ∈ batch, ¬ accepts maxDepth sur e

instance (batch : List Json) : Decidable (Mixed maxDepth sur batch) :=
  inferInstanceAs
    (Decidable ((∃ e ∈ batch, accepts maxDepth sur e) ∧ ∃ e ∈ batch, ¬ accepts maxDepth sur e))

theorem accepts_of_rows {rows : List EveEventRow} {es : List Json}
    (h : List.Forall₂ (RowOf maxDepth sur) rows es) :
    ∀ e ∈ es, accepts maxDepth sur e := by
  induction h with
  | nil => exact fun e he => absurd he List.not_mem_nil
  | cons hrow _ ih => exact List.forall_mem_cons.mpr ⟨hrow.accepts, ih⟩

/-- The end of a batch that is written, or kept. -/
theorem passInterval_eq (batchSize : ℕ) {ids : List String} (now : Datetime)
    (hstage : s.indexer.stage = .waiting)
    (hids : ids.length = s.indexer.batch.length)
    (hfresh : (s.table.rows.map EveEventRow.eventId ++ ids).Nodup) :
    ∃ s' rows, passInterval maxDepth sur batchSize s ids now = some s' ∧
      s'.table.rows = s.table.rows ++ rows ∧
      ((∀ e ∈ s.indexer.batch, accepts maxDepth sur e) →
        List.Forall₂ (RowOf maxDepth sur) rows s.indexer.batch) ∧
      ((∃ e ∈ s.indexer.batch, ¬ accepts maxDepth sur e) → rows = []) := by
  obtain ⟨table, ⟨queue, batch, stage⟩⟩ := s
  obtain rfl : stage = .waiting := hstage
  by_cases hbatch : batch = []
  · subst hbatch
    refine ⟨_, [], rfl, (List.append_nil _).symm, fun _ => .nil, fun _ => rfl⟩
  · have hflush : passInterval maxDepth sur batchSize ⟨table, ⟨queue, batch, .waiting⟩⟩ ids now =
        step maxDepth sur batchSize ⟨table, ⟨queue, batch, .flushing⟩⟩ (.flush ids now false) := by
      simp [passInterval, step, Indexer.step, hbatch]
    have hwrite : Indexer.writeBatch maxDepth sur table ids now false batch =
        (insertEveEventsBatch maxDepth sur table ids now batch).toOption := rfl
    rw [hflush, step, Indexer.step, if_neg (not_not.mpr hids), hwrite]
    dsimp only at hids hfresh ⊢
    cases hinsert : insertEveEventsBatch maxDepth sur table ids now batch with
    | ok table' =>
      obtain ⟨rows, hrows, hall⟩ := insertEveEventsBatch_eq_ok hids hinsert
      refine ⟨_, rows, rfl, hrows, fun _ => hall, ?_⟩
      rintro ⟨e, he, hrefused⟩
      exact absurd (accepts_of_rows hall e he) hrefused
    | error err =>
      -- one refused row and the transaction writes nothing
      refine ⟨_, [], rfl, (List.append_nil _).symm, fun hall => ?_, fun _ => rfl⟩
      obtain ⟨table', hok⟩ := (exists_insertEveEventsBatch now hids hfresh).mpr hall
      rw [hinsert] at hok
      contradiction

/-- When the queue is empty and the flush interval passes once more, the accepted events are stored
iff the batch does not mix them with refused ones. -/
theorem stores_accepted_iff (h : Run (step maxDepth sur batchSize) (init table₀) tr s)
    (hcancel : ∀ m ∈ tr, ¬ CancelsFlush m) (hstage : s.indexer.stage = .waiting)
    (hqueue : s.indexer.queue = []) {ids : List String} (now : Datetime)
    (hids : ids.length = s.indexer.batch.length)
    (hfresh : (s.table.rows.map EveEventRow.eventId ++ ids).Nodup) :
    (∃ s', passInterval maxDepth sur batchSize s ids now = some s' ∧
      StoresAccepted maxDepth sur table₀ ((arrivals tr).map EveEvent.raw) s') ↔
        ¬ Mixed maxDepth sur s.indexer.batch := by
  obtain ⟨persisted, ⟨rows, hrows, hall⟩, harrived⟩ := conserved_of_run h hcancel
  obtain ⟨s', rows', hpass, hrows', hwritten, hkept⟩ :=
    passInterval_eq batchSize now hstage hids hfresh
  have hbatch : pending s.indexer = s.indexer.batch := pending_of_ne (by rw [hstage]; simp)
  -- what has been written is accepted, so it is the batch that decides
  have haccepted : ((arrivals tr).map EveEvent.raw).filter (accepts maxDepth sur) =
      persisted ++ s.indexer.batch.filter (accepts maxDepth sur) := by
    rw [← harrived, hqueue, hbatch, List.map_nil, List.append_nil, List.filter_append,
      List.filter_eq_self.mpr (accepts_of_rows hall)]
  have hsome : ∀ {P : Indexing → Prop},
      (∃ s', passInterval maxDepth sur batchSize s ids now = some s' ∧ P s') ↔ P s' := by
    intro P
    constructor
    · rintro ⟨s₁, hs₁, hP⟩
      obtain rfl := Option.some.inj (hs₁.symm.trans hpass)
      exact hP
    · intro hP
      exact ⟨s', hpass, hP⟩
  rw [hsome, StoresAccepted, haccepted, hrows', hrows, List.append_assoc]
  constructor
  · rintro ⟨stored, hstored, hmatch⟩ ⟨⟨e, he, haccept⟩, hrefused⟩
    -- the batch is kept, so the accepted event in it is not stored
    obtain rfl := List.append_cancel_left hstored
    rw [hkept hrefused, List.append_nil] at hmatch
    have hlen := hmatch.length_eq
    rw [hall.length_eq, List.length_append] at hlen
    have hpos : 0 < (s.indexer.batch.filter (accepts maxDepth sur)).length :=
      List.length_pos_of_mem (List.mem_filter.mpr ⟨he, haccept⟩)
    omega
  · intro hmixed
    refine ⟨rows ++ rows', rfl, ?_⟩
    by_cases hrefused : ∃ e ∈ s.indexer.batch, ¬ accepts maxDepth sur e
    · -- then all of it is refused, and there is nothing to store
      have hnone : s.indexer.batch.filter (accepts maxDepth sur) = [] := by
        refine List.filter_eq_nil_iff.mpr fun e he haccept => hmixed ⟨⟨e, he, haccept⟩, hrefused⟩
      rw [hkept hrefused, hnone, List.append_nil, List.append_nil]
      exact hall
    · push Not at hrefused
      rw [List.filter_eq_self.mpr hrefused]
      exact List.rel_append hall (hwritten hrefused)

/-- An event without a type of its own. -/
def refusedEvent : EveEvent := .ofMembers [("event_type", .null)]

/-- The refused event has been in a batch of its own. -/
theorem stores_accepted_apart :
    let r := runFrom (step 9 .replacement 100) (init Table.empty) [.put sampleEvent, .get, .timeout,
      .flush ["a"] ⟨0, by decide⟩ false, .put refusedEvent, .get]
    ∃ s', passInterval 9 .replacement 100 r.2 ["b"] ⟨1, by decide⟩ = some s' ∧
      StoresAccepted 9 .replacement Table.empty ((arrivals r.1).map EveEvent.raw) s' :=
  (stores_accepted_iff (run_runFrom _ _) (by decide +kernel) (by decide +kernel)
    (List.eq_nil_of_length_eq_zero (by decide +kernel)) _ (by decide +kernel)
    (by decide +kernel)).mpr (by decide +kernel)

/-- The refused event keeps the other one out of the table. -/
theorem refused_holds_back :
    let r := runFrom (step 9 .replacement 100) (init Table.empty)
      [.put refusedEvent, .put sampleEvent, .get, .get]
    Run (step 9 .replacement 100) (init Table.empty) r.1 r.2 ∧ r.2.indexer.stage = .waiting ∧
      r.2.indexer.queue = [] ∧
      ¬ ∃ s', passInterval 9 .replacement 100 r.2 ["a", "b"] ⟨0, by decide⟩ = some s' ∧
        StoresAccepted 9 .replacement Table.empty ((arrivals r.1).map EveEvent.raw) s' := by
  refine ⟨run_runFrom _ _, by decide +kernel, List.eq_nil_of_length_eq_zero (by decide +kernel), ?_⟩
  rintro ⟨s', hpass, rows, hrows, hall⟩
  have hempty : (passInterval 9 .replacement 100 (runFrom (step 9 .replacement 100)
      (init Table.empty) [.put refusedEvent, .put sampleEvent, .get, .get]).2
      ["a", "b"] ⟨0, by decide⟩).map (fun s => s.table.rows.length) = some 0 := by decide +kernel
  rw [hpass, Option.map_some, hrows] at hempty
  have hlen := hall.length_eq
  have hone : (((arrivals (runFrom (step 9 .replacement 100) (init Table.empty)
      [.put refusedEvent, .put sampleEvent, .get, .get]).1).map EveEvent.raw).filter
        (accepts 9 .replacement)).length = 1 := by
    decide +kernel
  rw [hone] at hlen
  simp [hlen] at hempty

end Verdix.Indexing
