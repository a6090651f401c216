import Verdix.Db.EventStore
import Verdix.Ingestion.Models

/-!
# The alert dispatcher

`AlertDispatcher`: every alert event gets its own `_handle` task, which sleeps, takes the lock,
counts, and inserts its alert as `queued` or `deferred`.  A step of the model is the work of one
task between two `await`s, so that any interleaving of the tasks is a sequence of steps.
-/

namespace Verdix

namespace Dispatcher

/-- Where a `_handle` task is suspended. -/
inductive Stage
  /-- In the context delay. -/
  | sleeping
  /-- Waiting for the lock. -/
  | acquiring
  /-- Holding the lock, before `count_analyzed_today`. -/
  | counting
  /-- Holding the lock, about to call `insert_alert`. -/
  | inserting (status : Status)
  /-- Holding the lock, with the row stamped but not yet committed. -/
  | committing (row : Alert)
  | finished
  deriving DecidableEq

/-- The stages inside `async with self._cap_lock`. -/
def Stage.critical : Stage → Bool
  | counting | inserting _ | committing _ => true
  | _ => false

structure Task where
  event : EveEvent
  stage : Stage

/-- What the event loop may do next. -/
inductive Act
  /-- `run` takes an event off its queue. -/
  | arrive (event : EveEvent)
  | wake (i : ℕ)
  | acquire (i : ℕ)
  | count (i : ℕ)
  | countRaises (i : ℕ)
  /-- `insert_alert` draws an id and reads the clock. -/
  | stamp (i : ℕ) (alertId : String)
  | commit (i : ℕ)
  | insertRaises (i : ℕ)
  /-- The application stops: every pending task is cancelled. -/
  | shutdown

end Dispatcher

/-- The dispatcher: its tasks, oldest first, and the index of the one that holds the lock. -/
structure Dispatcher where
  tasks : List Dispatcher.Task
  lock : Option ℕ

namespace Dispatcher

/-- A dispatcher that has seen no event. -/
def init : Dispatcher := ⟨[], none⟩

/-- Task `i` moves on to another stage. -/
def moveTo (d : Dispatcher) (i : ℕ) (event : EveEvent) (stage : Stage) : Dispatcher :=
  { d with tasks := d.tasks.set i ⟨event, stage⟩ }

/-- Task `i` leaves the `async with` block and ends. -/
def finish (d : Dispatcher) (i : ℕ) (event : EveEvent) : Dispatcher :=
  ⟨d.tasks.set i ⟨event, .finished⟩, none⟩

/-- One step of the dispatcher on the database at instant `now`. -/
def step (cap : ℕ) (resetHour : Fin 24) (now : Datetime) (db : Db) (d : Dispatcher) :
    Act → Option (Db × Dispatcher)
  | .arrive event =>
    some (db, if event.isAlert then { d with tasks := d.tasks ++ [⟨event, .sleeping⟩] } else d)
  | .wake i =>
    match d.tasks[i]? with
    | some ⟨event, .sleeping⟩ => some (db, d.moveTo i event .acquiring)
    | _ => none
  | .acquire i =>
    match d.tasks[i]?, d.lock with
    | some ⟨event, .acquiring⟩, none =>
      some (db, { d.moveTo i event .counting with lock := some i })
    | _, _ => none
  | .count i =>
    match d.tasks[i]? with
    | some ⟨event, .counting⟩ =>
      let count := EventStore.countAnalyzedToday db now resetHour 1
      some (db, d.moveTo i event (.inserting (if count < cap then .queued else .deferred)))
    | _ => none
  | .countRaises i =>
    match d.tasks[i]? with
    | some ⟨event, .counting⟩ => some (db, d.finish i event)
    | _ => none
  | .stamp i alertId =>
    match d.tasks[i]? with
    | some ⟨event, .inserting status⟩ =>
      match EventStore.alertRow alertId now event.raw status with
      | .ok row => some (db, d.moveTo i event (.committing row))
      | .error _ => some (db, d.finish i event)
    | _ => none
  | .commit i =>
    match d.tasks[i]? with
    | some ⟨event, .committing row⟩ =>
      match EventStore.insertRow db row with
      | .ok db' => some (db', d.finish i event)
      | .error _ => some (db, d.finish i event)
    | _ => none
  | .insertRaises i =>
    match d.tasks[i]? with
    | some ⟨event, .inserting _⟩ => some (db, d.finish i event)
    | some ⟨event, .committing _⟩ => some (db, d.finish i event)
    | _ => none
  | .shutdown => some (db, ⟨d.tasks.map fun t => { t with stage := .finished }, none⟩)

end Dispatcher

end Verdix
