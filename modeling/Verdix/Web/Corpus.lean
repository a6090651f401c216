import Verdix.App
import Verdix.Web.Dispositions

/-!
# The training corpus

The dispositions table while the application ingests and triages: the steps of the dispatcher, of the
worker and of the disposition requests, in any order, on one database.
-/

namespace Verdix

structure Corpus where
  app : App
  posting : Posting

namespace Corpus

inductive Act
  | app (a : App.Act)
  | request (a : Posting.Act)

/-- The `disposition_id` column of the alerts table; a row that is new has none. -/
def columnOf (links : AlertLinks) (alerts : Table Alert Alert.alertId) : AlertLinks where
  rows := alerts.rows.map fun a => ⟨a.alertId, (links.find? a.alertId).bind AlertLink.dispositionId⟩
  nodup := by
    rw [List.map_map]
    exact alerts.nodup

/-- Empty tables, no worker and no requests. -/
def init (now : Datetime) : Corpus := ⟨App.init now, Posting.init now .empty .empty⟩

/-- A step of the handler; the clock and the tables change with the application. -/
def ofHandler : Posting.Act → Bool
  | .tick _ | .other _ => false
  | .post .. | .lookup .. | .record .. | .link .. => true

/-- One step; the requests see the clock and the tables of the application. -/
def step (cap : ℕ) (resetHour : Fin 24) (s : Corpus) : Act → Option Corpus
  | .app a =>
    (App.step cap resetHour s.app a).map fun app =>
      ⟨app, { s.posting with
        now := app.now
        db := app.db
        alerts := columnOf s.posting.alerts app.db.alerts }⟩
  | .request a =>
    if ofHandler a then (Posting.step s.posting a).map fun posting => ⟨s.app, posting⟩ else none

variable {cap : ℕ} {resetHour : Fin 24} {s s' : Corpus}

theorem step_app {a : App.Act} (h : step cap resetHour s (.app a) = some s') :
    App.step cap resetHour s.app a = some s'.app ∧ s'.posting.db = s'.app.db ∧
      s'.posting.dispositions = s.posting.dispositions ∧
      s'.posting.requests = s.posting.requests := by
  obtain ⟨app, happ, rfl⟩ := Option.map_eq_some_iff.mp h
  exact ⟨happ, rfl, rfl, rfl⟩

/-- The steps of the requests leave the application alone. -/
theorem step_request {a : Posting.Act} (h : step cap resetHour s (.request a) = some s') :
    ofHandler a = true ∧ Posting.step s.posting a = some s'.posting ∧ s'.app = s.app := by
  simp only [step] at h
  split_ifs at h with ha
  obtain ⟨posting, hposting, rfl⟩ := Option.map_eq_some_iff.mp h
  exact ⟨ha, hposting, rfl⟩

end Corpus

end Verdix
