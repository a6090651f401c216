import Verdix.Ingestion.Dispatcher
import Verdix.Lib.TransitionSystem
import Verdix.Triage.Worker

/-!
# The running application

One dispatcher and one triage worker on one database, with one clock that never runs backwards and
one daily cap.  The event loop may take the steps of the two in any order; a shutdown is a cancelled
worker and a dispatcher whose tasks are cancelled, a restart a started worker.
-/

namespace Verdix

structure App where
  now : Datetime
  db : Db
  dispatcher : Dispatcher
  worker : Worker.Stage

namespace App

inductive Act
  | tick (t : Datetime)
  | dispatcher (a : Dispatcher.Act)
  | worker (a : Worker.Act)

/-- The application before its first start. -/
def init (now : Datetime) : App := ⟨now, .empty, .init, .stopped⟩

/-- One step of the application. -/
def step (cap : ℕ) (resetHour : Fin 24) (s : App) : Act → Option App
  | .tick t => if s.now ≤ t then some { s with now := t } else none
  | .dispatcher a =>
    (Dispatcher.step cap resetHour s.now s.db s.dispatcher a).map fun (db, d) =>
      { s with db := db, dispatcher := d }
  | .worker a =>
    (Worker.step cap resetHour s.now s.db s.worker a).map fun (db, w) =>
      { s with db := db, worker := w }

variable {cap : ℕ} {resetHour : Fin 24} {s s' : App}

theorem step_tick {t : Datetime} (h : step cap resetHour s (.tick t) = some s') :
    s.now ≤ t ∧ s' = { s with now := t } := by
  simp only [step] at h
  split_ifs at h with hle
  exact ⟨hle, (Option.some.inj h).symm⟩

theorem step_dispatcher {a : Dispatcher.Act}
    (h : step cap resetHour s (.dispatcher a) = some s') :
    Dispatcher.step cap resetHour s.now s.db s.dispatcher a = some (s'.db, s'.dispatcher) ∧
      s'.now = s.now ∧ s'.worker = s.worker := by
  obtain ⟨⟨db, d⟩, hd, rfl⟩ := Option.map_eq_some_iff.mp h
  exact ⟨hd, rfl, rfl⟩

theorem step_worker {a : Worker.Act} (h : step cap resetHour s (.worker a) = some s') :
    Worker.step cap resetHour s.now s.db s.worker a = some (s'.db, s'.worker) ∧
      s'.now = s.now ∧ s'.dispatcher = s.dispatcher := by
  obtain ⟨⟨db, w⟩, hw, rfl⟩ := Option.map_eq_some_iff.mp h
  exact ⟨hw, rfl, rfl⟩

/-! ### Runs without interference -/

/-- An alert event on its way from its arrival to its row, as task `i`. -/
def handle (i : ℕ) (event : EveEvent) (alertId : String) : List Act :=
  [.arrive event, .wake i, .acquire i, .count i, .stamp i alertId, .commit i].map .dispatcher

/-- The worker's next `n` calls return. -/
def proceeds (n : ℕ) : List Act := List.replicate n (.worker (.proceed (.rowid Alert) "v0"))

/-- The worker takes the next alert from the queue to its verdict, which the model produces. -/
def produce (verdictId : String) (analysis : Worker.Analysis) : List Act :=
  proceeds 6 ++ [.worker (.answered verdictId analysis)] ++ proceeds 3

/-- An alert as a sensor reports it. -/
def sampleEvent : EveEvent where
  eventType := .alert
  flowId := .int 1
  timestamp := .str "2026-01-01T00:00:00+00:00"
  raw := .obj [("alert", .obj [("signature_id", .int 7)]), ("src_ip", .str "10.0.0.1"),
    ("dest_ip", .str "1.1.1.1")]

/-- An answer of the model. -/
def sampleAnalysis : Worker.Analysis where
  prompt := "prompt"
  model := "model"
  promptVersion := "verdict_v1"
  latencyMs := 3
  output := ⟨"likely_fp", "0.5", "reasoning", []⟩
  evidenceChain := .obj []

/-- Some minute of January 2026 or of the months after it. -/
def sampleTime (day : Fin 100) (hour : Fin 24) (minute : Fin 60) : Datetime where
  micros := (739616 + day) * usPerDay + hour * usPerHour + minute * usPerMinute
  lt := by
    have h1 := day.isLt
    have h2 := hour.isLt
    have h3 := minute.isLt
    simp only [maxDays, usPerDay, usPerHour, usPerMinute, usPerSecond]
    omega

end App

end Verdix
