import Verdix.Db.Equiv.Stores
import Verdix.Ingestion.Dispatcher

/-!
# What a step of the dispatcher can do

`LockInv`: a task inside the `async with` block holds the lock, so at most one is inside.  With it,
`Dispatcher.Move` lists the steps with what they do to the task inside: a step leaves the inside
alone, lets one task in, or takes the one inside from its count to its stamp to its commit.
-/

namespace Verdix.Dispatcher

/-- A task inside the `async with` block holds the lock. -/
def LockInv (d : Dispatcher) : Prop :=
  ∀ i t, d.tasks[i]? = some t → t.stage.critical → d.lock = some i

/-- Task `i` is inside the `async with` block, with this event and at this stage. -/
def Inside (d : Dispatcher) (i : ℕ) (event : EveEvent) (stage : Stage) : Prop :=
  d.tasks[i]? = some ⟨event, stage⟩ ∧ stage.critical

theorem LockInv.eq {d : Dispatcher} (hL : d.LockInv) {i j : ℕ} {e e' : EveEvent} {st st' : Stage}
    (h : d.Inside i e st) (h' : d.Inside j e' st') : i = j ∧ e = e' ∧ st = st' := by
  obtain rfl : i = j := Option.some.inj ((hL i _ h.1 h.2).symm.trans (hL j _ h'.1 h'.2))
  have := Option.some.inj (h.1.symm.trans h'.1)
  simp only [Task.mk.injEq] at this
  exact ⟨rfl, this⟩

theorem lockInv_init : init.LockInv := by
  intro i t h
  simp [init] at h

/-- The steps of the dispatcher. -/
inductive Move (cap : ℕ) (resetHour : Fin 24) (now : Datetime) (db : Db) (d : Dispatcher) :
    Act → Db → Dispatcher → Prop
  /-- Nothing is written and nobody comes in. -/
  | quiet {act : Act} {d' : Dispatcher} (h : ∀ i e st, d'.Inside i e st → d.Inside i e st) :
      Move cap resetHour now db d act db d'
  | acquire {i : ℕ} {d' : Dispatcher} (h : ∀ j e st, d'.Inside j e st → st = .counting) :
      Move cap resetHour now db d (.acquire i) db d'
  | count {i : ℕ} {event : EveEvent} {d' : Dispatcher} (h : d.Inside i event .counting)
      (h' : ∀ j e st, d'.Inside j e st → j = i ∧ e = event ∧ st = .inserting
        (if EventStore.countAnalyzedToday db now resetHour 1 < cap then .queued else .deferred)) :
      Move cap resetHour now db d (.count i) db d'
  | stamp {i : ℕ} {event : EveEvent} {status : Status} {alertId : String} {row : Alert}
      {d' : Dispatcher} (h : d.Inside i event (.inserting status))
      (hrow : EventStore.alertRow alertId now event.raw status = .ok row)
      (h' : ∀ j e st, d'.Inside j e st → j = i ∧ e = event ∧ st = .committing row) :
      Move cap resetHour now db d (.stamp i alertId) db d'
  | commit {i : ℕ} {event : EveEvent} {row : Alert} {db' : Db} {d' : Dispatcher}
      (h : d.Inside i event (.committing row)) (hrow : EventStore.insertRow db row = .ok db')
      (h' : ∀ j e st, ¬ d'.Inside j e st) :
      Move cap resetHour now db d (.commit i) db' d'

variable {cap : ℕ} {resetHour : Fin 24} {now : Datetime} {db db' : Db} {d d' : Dispatcher}

/-! ### Replacing one task -/

theorem getElem?_set_eq_some {tasks : List Task} {i j : ℕ} {t t' : Task}
    (h : (tasks.set i t)[j]? = some t') : j = i ∧ t' = t ∨ j ≠ i ∧ tasks[j]? = some t' := by
  rw [List.getElem?_set] at h
  split_ifs at h with hij hlen
  · exact .inl ⟨hij.symm, (Option.some.inj h).symm⟩
  · exact .inr ⟨fun hji => hij hji.symm, h⟩

theorem inside_moveTo {i j : ℕ} {event e : EveEvent} {stage st : Stage}
    (h : (d.moveTo i event stage).Inside j e st) :
    j = i ∧ e = event ∧ st = stage ∨ j ≠ i ∧ d.Inside j e st := by
  rcases getElem?_set_eq_some h.1 with ⟨hj, ht⟩ | ⟨hj, ht⟩
  · simp only [Task.mk.injEq] at ht
    exact .inl ⟨hj, ht⟩
  · exact .inr ⟨hj, ht, h.2⟩

/-- When the task inside moves on, it is still the only one inside. -/
theorem LockInv.inside_moveTo_inside (hL : d.LockInv) {i : ℕ} {event : EveEvent}
    {stage stage' : Stage} (hi : d.Inside i event stage) {j : ℕ} {e : EveEvent} {st : Stage}
    (h : (d.moveTo i event stage').Inside j e st) : j = i ∧ e = event ∧ st = stage' := by
  rcases inside_moveTo h with h | ⟨hj, h⟩
  · exact h
  · exact absurd (hL.eq h hi).1 hj

/-- When the task inside ends, nobody is inside. -/
theorem LockInv.not_inside_finish (hL : d.LockInv) {i : ℕ} {event : EveEvent} {stage : Stage}
    (hi : d.Inside i event stage) (j : ℕ) (e : EveEvent) (st : Stage) :
    ¬ (d.finish i event).Inside j e st := by
  intro h
  rcases getElem?_set_eq_some h.1 with ⟨-, ht⟩ | ⟨hj, ht⟩
  · simp only [Task.mk.injEq] at ht
    rw [ht.2] at h
    exact absurd h.2 (by decide)
  · exact hj (hL.eq ⟨ht, h.2⟩ hi).1

theorem lockInv_of_not_inside (h : ∀ i e st, ¬ d.Inside i e st) : d.LockInv :=
  fun i t ht hc => absurd ⟨ht, hc⟩ (h i t.event t.stage)

/-! ### The steps -/

/-- Every step is one of the moves and keeps the lock invariant. -/
theorem move_of_step {act : Act} (hL : d.LockInv)
    (h : step cap resetHour now db d act = some (db', d')) :
    Move cap resetHour now db d act db' d' ∧ d'.LockInv := by
  have hquiet : ∀ {i e st}, d.Inside i e st → Move cap resetHour now db d act db (d.finish i e) ∧
      (d.finish i e).LockInv := fun hi =>
    ⟨.quiet fun j e' st' hj => absurd hj (hL.not_inside_finish hi j e' st'),
      lockInv_of_not_inside (hL.not_inside_finish hi)⟩
  cases act with
  | arrive event =>
    obtain ⟨rfl, rfl⟩ := Prod.mk.inj (Option.some.inj h)
    split_ifs
    · have hin : ∀ (i : ℕ) (t : Task), (d.tasks ++ [⟨event, .sleeping⟩])[i]? = some t →
          t.stage.critical → d.tasks[i]? = some t := by
        intro i t ht hc
        rw [List.getElem?_append] at ht
        split_ifs at ht with hlt
        · exact ht
        · obtain rfl := List.mem_singleton.mp (List.mem_of_getElem? ht)
          contradiction
      exact ⟨.quiet fun i e st hi => ⟨hin i _ hi.1 hi.2, hi.2⟩,
        fun i t ht hc => hL i t (hin i t ht hc) hc⟩
    · exact ⟨.quiet fun _ _ _ hi => hi, hL⟩
  | wake i =>
    simp only [step] at h
    split at h
    · rename_i event _
      obtain ⟨rfl, rfl⟩ := Prod.mk.inj (Option.some.inj h)
      have hin : ∀ j e st, (d.moveTo i event .acquiring).Inside j e st → d.Inside j e st := by
        intro j e st hj
        rcases inside_moveTo hj with ⟨-, -, rfl⟩ | ⟨-, hj'⟩
        · exact absurd hj.2 (by decide)
        · exact hj'
      exact ⟨.quiet hin, fun j t ht hc => hL j t (hin j t.event t.stage ⟨ht, hc⟩).1 hc⟩
    · contradiction
  | acquire i =>
    simp only [step] at h
    split at h
    · rename_i event _ hlock
      obtain ⟨rfl, rfl⟩ := Prod.mk.inj (Option.some.inj h)
      -- the lock was free, so nobody else is inside
      have hin : ∀ j e st, (d.moveTo i event .counting).Inside j e st → j = i ∧ st = .counting := by
        intro j e st hj
        rcases inside_moveTo hj with ⟨hj, -, hst⟩ | ⟨-, hj⟩
        · exact ⟨hj, hst⟩
        · have := hL j _ hj.1 hj.2
          rw [hlock] at this
          contradiction
      refine ⟨.acquire fun j e st hj => (hin j e st hj).2, fun j t ht hc => ?_⟩
      rw [(hin j t.event t.stage ⟨ht, hc⟩).1]
    · contradiction
  | count i =>
    simp only [step] at h
    split at h
    · rename_i event hi
      obtain ⟨rfl, rfl⟩ := Prod.mk.inj (Option.some.inj h)
      have hi : d.Inside i event .counting := ⟨hi, rfl⟩
      refine ⟨.count hi fun j e st => hL.inside_moveTo_inside hi, fun j t ht hc => ?_⟩
      rw [(hL.inside_moveTo_inside hi ⟨ht, hc⟩).1]
      exact hL i _ hi.1 hi.2
    · contradiction
  | countRaises i =>
    simp only [step] at h
    split at h
    · rename_i event hi
      obtain ⟨rfl, rfl⟩ := Prod.mk.inj (Option.some.inj h)
      exact hquiet ⟨hi, rfl⟩
    · contradiction
  | stamp i alertId =>
    simp only [step] at h
    split at h
    · rename_i event status hi
      have hi : d.Inside i event (.inserting status) := ⟨hi, rfl⟩
      split at h
      · rename_i row hrow
        obtain ⟨rfl, rfl⟩ := Prod.mk.inj (Option.some.inj h)
        refine ⟨.stamp hi hrow fun j e st => hL.inside_moveTo_inside hi, fun j t ht hc => ?_⟩
        rw [(hL.inside_moveTo_inside hi ⟨ht, hc⟩).1]
        exact hL i _ hi.1 hi.2
      · obtain ⟨rfl, rfl⟩ := Prod.mk.inj (Option.some.inj h)
        exact hquiet hi
    · contradiction
  | commit i =>
    simp only [step] at h
    split at h
    · rename_i event row hi
      have hi : d.Inside i event (.committing row) := ⟨hi, rfl⟩
      split at h
      · rename_i db'' hrow
        obtain ⟨rfl, rfl⟩ := Prod.mk.inj (Option.some.inj h)
        exact ⟨.commit hi hrow (hL.not_inside_finish hi),
          lockInv_of_not_inside (hL.not_inside_finish hi)⟩
      · obtain ⟨rfl, rfl⟩ := Prod.mk.inj (Option.some.inj h)
        exact hquiet hi
    · contradiction
  | insertRaises i =>
    simp only [step] at h
    split at h
    · rename_i event _ hi
      obtain ⟨rfl, rfl⟩ := Prod.mk.inj (Option.some.inj h)
      exact hquiet ⟨hi, rfl⟩
    · rename_i event _ hi
      obtain ⟨rfl, rfl⟩ := Prod.mk.inj (Option.some.inj h)
      exact hquiet ⟨hi, rfl⟩
    · contradiction
  | shutdown =>
    obtain ⟨rfl, rfl⟩ := Prod.mk.inj (Option.some.inj h)
    have hout : ∀ i e st,
        ¬ Inside ⟨d.tasks.map fun t => { t with stage := .finished }, none⟩ i e st := by
      rintro i e st ⟨hi, hc⟩
      rw [List.getElem?_map] at hi
      obtain ⟨t, -, ht⟩ := Option.map_eq_some_iff.mp hi
      simp only [Task.mk.injEq] at ht
      rw [← ht.2] at hc
      exact absurd hc (by decide)
    exact ⟨.quiet fun i e st hi => absurd hi (hout i e st), lockInv_of_not_inside hout⟩

/-- A step writes nothing or inserts one row. -/
theorem db_of_step {act : Act} (h : step cap resetHour now db d act = some (db', d')) :
    db' = db ∨ ∃ row, EventStore.insertRow db row = .ok db' := by
  have hsame : ∀ {d₀ : Dispatcher}, some (db, d₀) = some (db', d') → db' = db := fun h =>
    (Prod.mk.inj (Option.some.inj h)).1.symm
  cases act with
  | arrive event | shutdown => exact .inl (hsame h)
  | wake i | acquire i | count i | countRaises i =>
    simp only [step] at h
    split at h
    · exact .inl (hsame h)
    · contradiction
  | stamp i alertId =>
    simp only [step] at h
    split at h
    · split at h
      · exact .inl (hsame h)
      · exact .inl (hsame h)
    · contradiction
  | commit i =>
    simp only [step] at h
    split at h
    · split at h
      · rename_i hrow
        obtain ⟨rfl, -⟩ := Prod.mk.inj (Option.some.inj h)
        exact .inr ⟨_, hrow⟩
      · exact .inl (hsame h)
    · contradiction
  | insertRaises i =>
    simp only [step] at h
    split at h
    · exact .inl (hsame h)
    · exact .inl (hsame h)
    · contradiction

/-- No row is lost. -/
theorem rows_of_step {act : Act} (h : step cap resetHour now db d act = some (db', d')) :
    ∃ new, db'.alerts.rows = db.alerts.rows ++ new := by
  rcases db_of_step h with rfl | ⟨row, hrow⟩
  · exact ⟨[], (List.append_nil _).symm⟩
  · exact ⟨_, (EventStore.insertRow_eq_ok hrow).2.1⟩

end Verdix.Dispatcher
