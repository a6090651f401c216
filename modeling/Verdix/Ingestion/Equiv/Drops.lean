import Verdix.Db.Equiv.Stores
import Verdix.Ingestion.Dispatcher
import Verdix.Lib.Replace
import Verdix.Lib.TransitionSystem

/-!
# Alerts that are dropped

A `_handle` task calls the store twice and ends when a call raises: no alert is tried again.
`stores_each_iff`: when all tasks have ended, the alerts table holds exactly one row for every alert
event iff no call has raised.
-/

open TransitionSystem

namespace Verdix

/-- The dispatcher on the database, with the clock. -/
structure Dispatching where
  now : Datetime
  db : Db
  dispatcher : Dispatcher

namespace Dispatching

inductive Act
  | tick (t : Datetime)
  | dispatcher (a : Dispatcher.Act)

/-- The dispatcher starts on a database. -/
def init (now : Datetime) (db : Db) : Dispatching := ⟨now, db, .init⟩

def step (cap : ℕ) (resetHour : Fin 24) (s : Dispatching) : Act → Option Dispatching
  | .tick t => if s.now ≤ t then some { s with now := t } else none
  | .dispatcher a =>
    (Dispatcher.step cap resetHour s.now s.db s.dispatcher a).map fun (db, d) =>
      { s with db := db, dispatcher := d }

variable {cap : ℕ} {resetHour : Fin 24} {now : Datetime} {db₀ : Db} {s s' : Dispatching}
  {tr : List (Move Dispatching Act)}

/-- The alert events that a step takes from the queue. -/
def taken : Act → List EveEvent
  | .dispatcher (.arrive event) => if event.isAlert then [event] else []
  | _ => []

/-- A call of a store raises: the count, or the insert. -/
def raises (m : Move Dispatching Act) : Bool :=
  match m.act with
  | .dispatcher (.countRaises _) => true
  | .dispatcher (.insertRaises _) => true
  | .dispatcher (.stamp i alertId) =>
    match m.pre.dispatcher.tasks[i]? with
    | some ⟨event, .inserting status⟩ =>
      !(EventStore.alertRow alertId m.pre.now event.raw status).toBool
    | _ => false
  | .dispatcher (.commit i) =>
    match m.pre.dispatcher.tasks[i]? with
    | some ⟨_, .committing row⟩ => !(EventStore.insertRow m.pre.db row).toBool
    | _ => false
  | _ => false

/-- The tasks are cancelled. -/
def cancels (m : Move Dispatching Act) : Bool :=
  match m.act with
  | .dispatcher .shutdown => true
  | _ => false

/-- The row of an alert event, queued or deferred. -/
def RowOf (row : Alert) (event : EveEvent) : Prop :=
  ∃ alertId now status, (status = .queued ∨ status = .deferred) ∧
    EventStore.alertRow alertId now event.raw status = .ok row

/-- The rows since the start are those of the events, one each. -/
def StoresEach (db₀ : Db) (events : List EveEvent) (s : Dispatching) : Prop :=
  ∃ rows events', s.db.alerts.rows = db₀.alerts.rows ++ rows ∧ List.Forall₂ RowOf rows events' ∧
    events'.Perm events

/-! ### One step -/

/-- What a task knows about the row it is about to insert. -/
def Sound (t : Dispatcher.Task) : Prop :=
  match t.stage with
  | .inserting status => status = .queued ∨ status = .deferred
  | .committing row => RowOf row t.event
  | _ => True

/-- The task has ended. -/
def ended (t : Dispatcher.Task) : Bool := t.stage = .finished

/-- What a step does: alerts come in, a task moves on, or a task ends, with its row in the table or
without it. -/
inductive Progress (s s' : Dispatching) (taken : List EveEvent) (raises : Bool) : Prop
  | arrive (fine : raises = false) (db : s'.db.alerts.rows = s.db.alerts.rows)
      (tasks : s'.dispatcher.tasks =
        s.dispatcher.tasks ++ taken.map fun event => ⟨event, .sleeping⟩)
  | on (fine : raises = false) (taken_eq : taken = []) (db : s'.db.alerts.rows = s.db.alerts.rows)
      (i : ℕ) (t : Dispatcher.Task) (stage : Dispatcher.Stage)
      (get : s.dispatcher.tasks[i]? = some t) (running : ended t = false)
      (running' : stage ≠ .finished) (sound : Sound ⟨t.event, stage⟩)
      (tasks : s'.dispatcher.tasks = s.dispatcher.tasks.set i ⟨t.event, stage⟩)
  | store (fine : raises = false) (taken_eq : taken = []) (i : ℕ) (event : EveEvent) (row : Alert)
      (get : s.dispatcher.tasks[i]? = some ⟨event, .committing row⟩)
      (db : s'.db.alerts.rows = s.db.alerts.rows ++ [row])
      (tasks : s'.dispatcher.tasks = s.dispatcher.tasks.set i ⟨event, .finished⟩)
  | drop (raised : raises = true) (taken_eq : taken = []) (db : s'.db.alerts.rows = s.db.alerts.rows)
      (i : ℕ) (t : Dispatcher.Task) (get : s.dispatcher.tasks[i]? = some t)
      (running : ended t = false)
      (tasks : s'.dispatcher.tasks = s.dispatcher.tasks.set i ⟨t.event, .finished⟩)

theorem progress_of_step {a : Act} (hsound : ∀ t ∈ s.dispatcher.tasks, Sound t)
    (hstep : step cap resetHour s a = some s') (hcancel : cancels ⟨s, a, s'⟩ = false) :
    Progress s s' (taken a) (raises ⟨s, a, s'⟩) := by
  cases a with
  | tick t =>
    simp only [step] at hstep
    split_ifs at hstep
    obtain rfl := Option.some.inj hstep
    exact .arrive rfl rfl (List.append_nil _).symm
  | dispatcher a =>
    obtain ⟨⟨db', d'⟩, hd, rfl⟩ := Option.map_eq_some_iff.mp hstep
    cases a with
    | arrive event =>
      obtain ⟨rfl, rfl⟩ := Prod.mk.inj (Option.some.inj hd)
      refine .arrive rfl rfl ?_
      unfold taken
      dsimp only
      split_ifs
      · rfl
      · exact (List.append_nil _).symm
    | wake i =>
      simp only [Dispatcher.step] at hd
      split at hd
      · rename_i event hget
        obtain ⟨rfl, rfl⟩ := Prod.mk.inj (Option.some.inj hd)
        exact .on rfl rfl rfl i ⟨event, .sleeping⟩ .acquiring hget rfl (by simp) trivial rfl
      · contradiction
    | acquire i =>
      simp only [Dispatcher.step] at hd
      split at hd
      · rename_i event hget _
        obtain ⟨rfl, rfl⟩ := Prod.mk.inj (Option.some.inj hd)
        exact .on rfl rfl rfl i ⟨event, .acquiring⟩ .counting hget rfl (by simp) trivial rfl
      · contradiction
    | count i =>
      simp only [Dispatcher.step] at hd
      split at hd
      · rename_i event hget
        obtain ⟨rfl, rfl⟩ := Prod.mk.inj (Option.some.inj hd)
        refine .on rfl rfl rfl i ⟨event, .counting⟩ _ hget rfl (by simp) ?_ rfl
        -- queued below the cap, deferred from it on
        unfold Sound
        dsimp only
        split_ifs
        · exact .inl rfl
        · exact .inr rfl
      · contradiction
    | countRaises i =>
      simp only [Dispatcher.step] at hd
      split at hd
      · rename_i event hget
        obtain ⟨rfl, rfl⟩ := Prod.mk.inj (Option.some.inj hd)
        exact .drop rfl rfl rfl i ⟨event, .counting⟩ hget rfl rfl
      · contradiction
    | stamp i alertId =>
      simp only [Dispatcher.step] at hd
      split at hd
      · rename_i event status hget
        have hstatus : status = .queued ∨ status = .deferred :=
          hsound _ (List.mem_of_getElem? hget)
        split at hd
        · rename_i row hrow
          obtain ⟨rfl, rfl⟩ := Prod.mk.inj (Option.some.inj hd)
          refine .on ?_ rfl rfl i ⟨event, .inserting status⟩ (.committing row) hget rfl (by simp)
            ⟨alertId, s.now, status, hstatus, hrow⟩ rfl
          unfold raises
          simp [hget, hrow, Except.toBool]
        · rename_i e hrow
          obtain ⟨rfl, rfl⟩ := Prod.mk.inj (Option.some.inj hd)
          refine .drop ?_ rfl rfl i ⟨event, .inserting status⟩ hget rfl rfl
          unfold raises
          simp [hget, hrow, Except.toBool]
      · contradiction
    | commit i =>
      simp only [Dispatcher.step] at hd
      split at hd
      · rename_i event row hget
        split at hd
        · rename_i db'' hrow
          obtain ⟨rfl, rfl⟩ := Prod.mk.inj (Option.some.inj hd)
          refine .store ?_ rfl i event row hget (EventStore.insertRow_eq_ok hrow).2.1 rfl
          unfold raises
          simp [hget, hrow, Except.toBool]
        · rename_i e hrow
          obtain ⟨rfl, rfl⟩ := Prod.mk.inj (Option.some.inj hd)
          refine .drop ?_ rfl rfl i ⟨event, .committing row⟩ hget rfl rfl
          unfold raises
          simp [hget, hrow, Except.toBool]
      · contradiction
    | insertRaises i =>
      -- before the row is stamped, or after
      simp only [Dispatcher.step] at hd
      split at hd
      · rename_i event status hget
        obtain ⟨rfl, rfl⟩ := Prod.mk.inj (Option.some.inj hd)
        exact .drop rfl rfl rfl i ⟨event, .inserting status⟩ hget rfl rfl
      · rename_i event row hget
        obtain ⟨rfl, rfl⟩ := Prod.mk.inj (Option.some.inj hd)
        exact .drop rfl rfl rfl i ⟨event, .committing row⟩ hget rfl rfl
      · contradiction
    | shutdown => contradiction

/-! ### A run -/

/-- The rows since the start and the events that have been dropped make up the tasks that have
ended; events have been dropped iff a call has raised. -/
structure Accounted (db₀ : Db) (events : List EveEvent) (raised : Prop) (s : Dispatching) :
    Prop where
  sound : ∀ t ∈ s.dispatcher.tasks, Sound t
  tasks : s.dispatcher.tasks.map Dispatcher.Task.event = events
  rows : ∃ rows stored dropped, s.db.alerts.rows = db₀.alerts.rows ++ rows ∧
    List.Forall₂ RowOf rows stored ∧
    (stored ++ dropped).Perm ((s.dispatcher.tasks.filter ended).map Dispatcher.Task.event) ∧
    (dropped = [] ↔ ¬ raised)

theorem Accounted.progress {events more : List EveEvent} {raised : Prop} {now : Bool}
    (h : Accounted db₀ events raised s) (hprogress : Progress s s' more now) :
    Accounted db₀ (events ++ more) (raised ∨ now = true) s' := by
  obtain ⟨hsound, rfl, rows, stored, dropped, hrows, hall, hperm, hdropped⟩ := h
  cases hprogress with
  | arrive hfine hdb htasks =>
    -- new tasks are sleeping, so none of them has ended
    have hended :
        (more.map fun event => (⟨event, .sleeping⟩ : Dispatcher.Task)).filter ended = [] := by
      rw [List.filter_eq_nil_iff]
      intro t ht
      obtain ⟨event, -, rfl⟩ := List.mem_map.mp ht
      exact Bool.false_ne_true
    refine ⟨?_, ?_, rows, stored, dropped, hdb.trans hrows, hall, ?_, ?_⟩
    · rw [htasks]
      intro t ht
      rcases List.mem_append.mp ht with ht | ht
      · exact hsound t ht
      · obtain ⟨event, -, rfl⟩ := List.mem_map.mp ht
        trivial
    · rw [htasks, List.map_append, List.map_map]
      exact congrArg _ (List.map_id _)
    · rw [htasks, List.filter_append, hended, List.append_nil]
      exact hperm
    · rw [hfine]
      simpa using hdropped
  | on hfine hmore hdb i t stage hget hrunning hrunning' hstage htasks =>
    have hended : ended ⟨t.event, stage⟩ = false := by simpa [ended] using hrunning'
    refine ⟨?_, ?_, rows, stored, dropped, hdb.trans hrows, hall, ?_, ?_⟩
    · rw [htasks]
      exact Replace.forall_mem_set hsound hstage
    · rw [htasks, hmore, List.append_nil]
      exact Replace.map_set_eq hget rfl
    · rw [htasks, Replace.filter_set_eq hget hrunning hended]
      exact hperm
    · rw [hfine]
      simpa using hdropped
  | store hfine hmore i event row hget hdb htasks =>
    have hrow : RowOf row event := hsound _ (List.mem_of_getElem? hget)
    -- the task ends with its row in the table
    have hset := (Replace.filter_set_perm hget (b := ⟨event, .finished⟩) (p := ended) rfl rfl).map
      Dispatcher.Task.event
    refine ⟨?_, ?_, rows ++ [row], stored ++ [event], dropped, ?_, ?_, ?_, ?_⟩
    · rw [htasks]
      exact Replace.forall_mem_set hsound trivial
    · rw [htasks, hmore, List.append_nil]
      exact Replace.map_set_eq hget rfl
    · rw [hdb, hrows, List.append_assoc]
    · exact List.rel_append hall (.cons hrow .nil)
    · rw [htasks]
      refine .trans ?_ hset.symm
      rw [List.map_append, List.map_singleton]
      refine .trans ?_ (hperm.append_right [event])
      rw [List.append_assoc, List.append_assoc]
      exact List.perm_append_comm.append_left stored
    · rw [hfine]
      simpa using hdropped
  | drop hraised hmore hdb i t hget hrunning htasks =>
    -- the task ends and its event is dropped
    have hset := (Replace.filter_set_perm hget (b := ⟨t.event, .finished⟩) (p := ended) hrunning
      rfl).map Dispatcher.Task.event
    refine ⟨?_, ?_, rows, stored, dropped ++ [t.event], hdb.trans hrows, hall, ?_, ?_⟩
    · rw [htasks]
      exact Replace.forall_mem_set hsound trivial
    · rw [htasks, hmore, List.append_nil]
      exact Replace.map_set_eq hget rfl
    · rw [htasks, ← List.append_assoc]
      refine .trans ?_ hset.symm
      rw [List.map_append, List.map_singleton]
      exact hperm.append_right [t.event]
    · simp [hraised]

theorem accounted_of_run (h : Run (step cap resetHour) (init now db₀) tr s)
    (hcancel : ∀ m ∈ tr, cancels m = false) :
    Accounted db₀ (tr.flatMap fun m => taken m.act) (∃ m ∈ tr, raises m = true) s := by
  refine h.history_of_moves (P := fun tr s =>
    Accounted db₀ (tr.flatMap fun m => taken m.act) (∃ m ∈ tr, raises m = true) s) ?_ ?_ hcancel
  · refine ⟨fun t ht => absurd ht List.not_mem_nil, rfl, [], [], [], (List.append_nil _).symm, .nil,
      .refl _, ?_⟩
    simp
  · intro tr s a s' _ hacc hstep hm
    rw [exists_mem_snoc, List.flatMap_append, List.flatMap_singleton]
    exact hacc.progress (progress_of_step hacc.sound hstep hm)

/-- When all tasks have ended, every alert event has exactly one row iff no call of the store has
raised. -/
theorem stores_each_iff (h : Run (step cap resetHour) (init now db₀) tr s)
    (hcancel : ∀ m ∈ tr, cancels m = false)
    (hended : ∀ t ∈ s.dispatcher.tasks, t.stage = .finished) :
    StoresEach db₀ (tr.flatMap fun m => taken m.act) s ↔ ∀ m ∈ tr, raises m = false := by
  obtain ⟨-, htasks, rows, stored, dropped, hrows, hall, hperm, hdropped⟩ :=
    accounted_of_run h hcancel
  -- every task has ended, so nothing is under way
  have hfilter : s.dispatcher.tasks.filter ended = s.dispatcher.tasks := by
    refine List.filter_eq_self.mpr fun t ht => ?_
    simp [ended, hended t ht]
  rw [hfilter, htasks] at hperm
  have hnone : (∀ m ∈ tr, raises m = false) ↔ dropped = [] := by
    rw [hdropped]
    simp
  rw [hnone]
  constructor
  · rintro ⟨rows', events', hrows', hall', hperm'⟩
    -- both lists of rows are those since the start
    obtain rfl := List.append_cancel_left (hrows'.symm.trans hrows)
    have hlen : rows'.length = (stored ++ dropped).length := by
      rw [hall'.length_eq, hperm'.length_eq, hperm.length_eq]
    rw [hall.length_eq, List.length_append] at hlen
    exact List.eq_nil_of_length_eq_zero (by omega)
  · rintro rfl
    rw [List.append_nil] at hperm
    exact ⟨rows, stored, hrows, hall, hperm⟩

/-- An alert as a sensor reports it. -/
def sampleEvent : EveEvent := .ofMembers [("event_type", .str "alert"),
  ("alert", .obj [("signature_id", .int 7)]), ("src_ip", .str "10.0.0.1")]

/-- Two alerts, the second of which gets the lock first. -/
def sampleActs : List Act :=
  [.arrive sampleEvent, .arrive sampleEvent, .wake 0, .wake 1, .acquire 1, .count 1, .stamp 1 "a",
    .commit 1, .acquire 0, .count 0, .stamp 0 "b", .commit 0].map .dispatcher

theorem stores_each_two :
    let r := runFrom (step 1 0) (init ⟨0, by decide⟩ .empty) sampleActs
    StoresEach .empty (r.1.flatMap fun m => taken m.act) r.2 :=
  (stores_each_iff (run_runFrom _ _) (by decide +kernel) (by decide +kernel)).mpr
    (by decide +kernel)

/-- The count raises once, and the alert is gone. -/
theorem raise_drops :
    let r := runFrom (step 1 0) (init ⟨0, by decide⟩ .empty)
      ([.arrive sampleEvent, .wake 0, .acquire 0, .countRaises 0].map .dispatcher)
    Run (step 1 0) (init ⟨0, by decide⟩ .empty) r.1 r.2 ∧ (∀ m ∈ r.1, cancels m = false) ∧
      (∀ t ∈ r.2.dispatcher.tasks, t.stage = .finished) ∧
      ¬ StoresEach .empty (r.1.flatMap fun m => taken m.act) r.2 := by
  refine ⟨run_runFrom _ _, by decide +kernel, by decide +kernel, ?_⟩
  rintro ⟨rows, events', hrows, hall, hperm⟩
  have hlen := congrArg List.length hrows
  rw [List.length_append, hall.length_eq, hperm.length_eq] at hlen
  revert hlen
  decide +kernel

end Dispatching

end Verdix
