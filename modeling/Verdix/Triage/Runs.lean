import Verdix.Lib.TransitionSystem
import Verdix.Triage.Worker

/-!
# Runs of `_process_alert`

The triage worker without its queue: alerts arrive in any order, and `_process_alert` is called on
any row of the alerts table, whatever its status, as often as one likes.  What holds here does not
depend on how the worker chooses its next alert.
-/

namespace Verdix

structure Runs where
  now : Datetime
  db : Db
  worker : Worker.Stage

namespace Runs

inductive Act
  | tick (t : Datetime)
  /-- A row is inserted, without a verdict. -/
  | arrive (row : Alert)
  /-- `_process_alert` is called on the row with this id. -/
  | begin (alertId : String)
  | worker (a : Worker.Act)

/-- Empty tables and no worker. -/
def init (now : Datetime) : Runs := ⟨now, .empty, .stopped⟩

/-- One step. -/
def step (cap : ℕ) (resetHour : Fin 24) (s : Runs) : Act → Option Runs
  | .tick t => if s.now ≤ t then some { s with now := t } else none
  | .arrive row =>
    if row.verdictId = none ∧ row.status ≠ .analyzed then
      match EventStore.insertRow s.db row with
      | .ok db => some { s with db := db }
      | .error _ => none
    else none
  | .begin alertId =>
    if s.worker.alert? = none then
      (EventStore.getAlert s.db alertId).map fun a => { s with worker := .starting a }
    else none
  | .worker a =>
    (Worker.step cap resetHour s.now s.db s.worker a).map fun (db, w) =>
      { s with db := db, worker := w }

variable {cap : ℕ} {resetHour : Fin 24} {s s' : Runs}

theorem step_tick {t : Datetime} (h : step cap resetHour s (.tick t) = some s') :
    s' = { s with now := t } := by
  simp only [step] at h
  split_ifs at h
  exact (Option.some.inj h).symm

theorem step_arrive {row : Alert} (h : step cap resetHour s (.arrive row) = some s') :
    row.status ≠ .analyzed ∧
      ∃ db, EventStore.insertRow s.db row = .ok db ∧ s' = { s with db := db } := by
  simp only [step] at h
  split_ifs at h with hrow
  split at h
  · rename_i db hdb
    exact ⟨hrow.2, db, hdb, (Option.some.inj h).symm⟩
  · contradiction

theorem step_begin {alertId : String} (h : step cap resetHour s (.begin alertId) = some s') :
    ∃ a ∈ s.db.alerts.rows, s' = { s with worker := .starting a } := by
  simp only [step] at h
  split_ifs at h
  obtain ⟨a, ha, rfl⟩ := Option.map_eq_some_iff.mp h
  exact ⟨a, (Table.find?_eq_some_iff.mp ha).1, rfl⟩

theorem step_worker {a : Worker.Act} (h : step cap resetHour s (.worker a) = some s') :
    Worker.step cap resetHour s.now s.db s.worker a = some (s'.db, s'.worker) ∧
      s'.now = s.now := by
  obtain ⟨⟨db, w⟩, hw, rfl⟩ := Option.map_eq_some_iff.mp h
  exact ⟨hw, rfl⟩

end Runs

end Verdix
