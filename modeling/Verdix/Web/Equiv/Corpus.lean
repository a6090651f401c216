import Verdix.Lib.Replace
import Verdix.Triage.Equiv.Worker
import Verdix.Ingestion.Equiv.Dispatcher
import Verdix.Web.Corpus

/-!
# What the rows of the training corpus refer to

`consistent_of_known`: when every request that is taken names an alert of the table, every row of
`dispositions` refers to an alert and, if it has a verdict, to a verdict of that alert, in every state
of every run.  Nothing in the handler looks the alert up: a request for an unknown id leaves a row
behind (`unknown_alert_recorded`).
-/

open TransitionSystem

namespace Verdix.Corpus

variable {cap : ℕ} {resetHour : Fin 24} {now : Datetime} {s s' : Corpus}
  {tr : List (Move Corpus Act)} {db db' : Db}

/-- An alert of the table has this id. -/
def Stored (db : Db) (alertId : String) : Prop := ∃ a ∈ db.alerts.rows, a.alertId = alertId

/-- The disposition is about a stored alert, and its verdict is one of that alert. -/
structure Refers (db : Db) (d : Disposition) : Prop where
  alert : Stored db d.alertId
  verdict : ∀ vid, d.verdictId = some vid →
    ∃ v ∈ db.verdicts.rows, v.verdictId = vid ∧ v.alertId = d.alertId

/-- Every row of the corpus does. -/
def Consistent (s : Corpus) : Prop := ∀ d ∈ s.posting.dispositions.rows, Refers s.app.db d

/-- The alert id of a request that passes the checks of the handler. -/
def accepted : Act → Option String
  | .request (.post true alertId action _) =>
    if action = "accept" ∨ action = "override" then some alertId else none
  | _ => none

/-- A request that passes the checks names an alert of the table. -/
def Known (m : Move Corpus Act) : Prop := ∀ alertId ∈ accepted m.act, Stored m.pre.app.db alertId

instance (db : Db) (alertId : String) : Decidable (Stored db alertId) :=
  inferInstanceAs (Decidable (∃ a ∈ db.alerts.rows, a.alertId = alertId))

instance (m : Move Corpus Act) : Decidable (Known m) :=
  inferInstanceAs (Decidable (∀ alertId ∈ accepted m.act, Stored m.pre.app.db alertId))

/-! ### Ingestion and triage -/

/-- No alert and no verdict is lost. -/
structure Grows (db db' : Db) : Prop where
  alerts : ∀ a ∈ db.alerts.rows, ∃ b ∈ db'.alerts.rows, b.alertId = a.alertId
  verdicts : ∀ v ∈ db.verdicts.rows, ∃ w ∈ db'.verdicts.rows,
    w.verdictId = v.verdictId ∧ w.alertId = v.alertId

theorem Grows.refl (db : Db) : Grows db db :=
  ⟨fun a ha => ⟨a, ha, rfl⟩, fun v hv => ⟨v, hv, rfl, rfl⟩⟩

theorem Stored.grows {alertId : String} (h : Stored db alertId) (hg : Grows db db') :
    Stored db' alertId := by
  obtain ⟨a, ha, rfl⟩ := h
  exact hg.alerts a ha

theorem Refers.grows {d : Disposition} (h : Refers db d) (hg : Grows db db') : Refers db' d := by
  refine ⟨h.alert.grows hg, fun vid hvid => ?_⟩
  obtain ⟨v, hv, rfl, halert⟩ := h.verdict vid hvid
  obtain ⟨w, hw, hid, hwalert⟩ := hg.verdicts v hv
  exact ⟨w, hw, hid, hwalert.trans halert⟩

/-- The worker removes no alert and no verdict. -/
theorem grows_worker {w w' : Worker.Stage} (h : Worker.Move now db w db' w') : Grows db db' := by
  refine ⟨fun a ha => ?_, fun v hv => ?_⟩
  · obtain ⟨b, hb, hfacts, -⟩ := h.exists_mem ha
    exact ⟨b, hb, Alert.alertId_of_facts hfacts⟩
  · obtain ⟨b, hb⟩ := h.exists_verdict hv
    exact ⟨_, hb, rfl, rfl⟩

theorem grows_insertRow {row : Alert} (h : EventStore.insertRow db row = .ok db') :
    Grows db db' := by
  obtain ⟨-, hrows, hverdicts⟩ := EventStore.insertRow_eq_ok h
  refine ⟨fun a ha => ⟨a, ?_, rfl⟩, fun v hv => ⟨v, ?_, rfl, rfl⟩⟩
  · rw [hrows]
    exact List.mem_append_left _ ha
  · rw [hverdicts]
    exact hv

/-- Nor does any other part of the app. -/
theorem grows_app {a : App} {a' : App} {act : App.Act}
    (h : App.step cap resetHour a act = some a') : Grows a.db a'.db := by
  cases act with
  | tick t =>
    obtain ⟨-, rfl⟩ := App.step_tick h
    exact .refl _
  | dispatcher d =>
    rcases Dispatcher.db_of_step (App.step_dispatcher h).1 with hdb | ⟨row, hrow⟩
    · rw [hdb]
      exact .refl _
    · exact grows_insertRow hrow
  | worker w => exact grows_worker (Worker.move_of_step (App.step_worker h).1)

/-! ### The requests -/

/-- What the handler knows of the alert and the row at each stage. -/
def Holds (db : Db) (r : Posting.Request) : Prop :=
  match r.stage with
  | .looking => Stored db r.alertId
  | .recording row => Refers db row
  | _ => True

/-- What a request has seen stays true while the stores grow. -/
theorem Holds.grows {r : Posting.Request} (h : Holds db r) (hg : Grows db db') : Holds db' r := by
  unfold Holds at h ⊢
  split
  · rename_i hstage
    rw [hstage] at h
    exact Stored.grows h hg
  · rename_i row hstage
    rw [hstage] at h
    exact Refers.grows h hg
  · trivial

/-- The requests and the rows of the corpus refer to stored alerts. -/
structure Inv (s : Corpus) : Prop where
  /-- The requests use the tables of the application. -/
  db : s.posting.db = s.app.db
  rows : Consistent s
  requests : ∀ r ∈ s.posting.requests, Holds s.app.db r

theorem inv_init (now : Datetime) : Inv (init now) where
  db := rfl
  rows _ hd := absurd hd List.not_mem_nil
  requests _ hr := absurd hr List.not_mem_nil

/-- A step of the app keeps the invariant. -/
theorem Inv.app (h : Inv s) {a : App.Act} (hstep : step cap resetHour s (.app a) = some s') :
    Inv s' := by
  obtain ⟨happ, hdb, hdispositions, hrequests⟩ := step_app hstep
  have hg := grows_app happ
  refine ⟨hdb, fun d hd => ?_, fun r hr => ?_⟩
  · rw [hdispositions] at hd
    exact (h.rows d hd).grows hg
  · rw [hrequests] at hr
    exact (h.requests r hr).grows hg

/-- A request comes in. -/
theorem holds_post {authenticated : Bool} {alertId action overrideReason : String}
    (h : authenticated = true → action = "accept" ∨ action = "override" → Stored db alertId) :
    Holds db ⟨alertId, action, overrideReason, Posting.firstStage authenticated action⟩ := by
  unfold Holds Posting.firstStage
  dsimp only
  split_ifs with hauth haction
  · trivial
  · trivial
  · show Stored db alertId
    apply h
    · simpa using hauth
    · by_contra hnot
      rw [not_or] at hnot
      exact haction hnot

/-- The current verdict that was looked up is one of the alert. -/
theorem refers_lookup {alertId action : String} {overrideReason : Option String}
    (h : Stored db alertId) (dispositionId : String) (now : Datetime) :
    Refers db (DispositionStore.dispositionRow dispositionId now alertId
      ((OperationalStore.getCurrentVerdictForAlert db alertId).map Verdict.verdictId) action
      overrideReason) := by
  refine ⟨h, fun vid hvid => ?_⟩
  obtain ⟨v, hv, rfl⟩ := Option.map_eq_some_iff.mp hvid
  have hmem := List.mem_of_find?_eq_some hv
  have hprop := List.find?_some hv
  rw [Bool.and_eq_true, decide_eq_true_iff] at hprop
  exact ⟨v, hmem, rfl, hprop.1⟩

/-- What a step of the requests does, when the alert of a new one is stored. -/
theorem request_step {p p' : Posting} {a : Posting.Act} (ha : ofHandler a = true)
    (hrows : ∀ d ∈ p.dispositions.rows, Refers p.db d)
    (hrequests : ∀ r ∈ p.requests, Holds p.db r)
    (hknown : ∀ alertId ∈ accepted (.request a), Stored p.db alertId)
    (hstep : Posting.step p a = some p') :
    p'.db = p.db ∧ (∀ d ∈ p'.dispositions.rows, Refers p.db d) ∧
      ∀ r ∈ p'.requests, Holds p.db r := by
  cases a with
  | tick t => contradiction
  | other db => contradiction
  | post authenticated alertId action overrideReason =>
    obtain rfl := Option.some.inj hstep
    refine ⟨rfl, hrows, List.forall_mem_append.mpr ⟨hrequests, fun r hr => ?_⟩⟩
    rw [List.mem_singleton.mp hr]
    apply holds_post
    intro hauth haction
    apply hknown
    simp [accepted, hauth, haction]
  | lookup i dispositionId =>
    simp only [Posting.step] at hstep
    split at hstep
    · rename_i alertId action overrideReason hget
      obtain rfl := Option.some.inj hstep
      refine ⟨rfl, hrows, Replace.forall_mem_set hrequests ?_⟩
      have hstored : Stored p.db alertId := hrequests _ (List.mem_of_getElem? hget)
      exact refers_lookup hstored dispositionId p.now
    · contradiction
  | record i =>
    simp only [Posting.step] at hstep
    split at hstep
    · rename_i alertId action overrideReason row hget
      have hrow : Refers p.db row := hrequests _ (List.mem_of_getElem? hget)
      split at hstep
      · rename_i dispositions hinsert
        obtain rfl := Option.some.inj hstep
        refine ⟨rfl, fun d hd => ?_, Replace.forall_mem_set hrequests trivial⟩
        -- the row that is new is the one the request held
        have hd' : d ∈ p.dispositions.rows ++ [row] := (Table.insert?_eq_some hinsert).2 ▸ hd
        rcases List.mem_append.mp hd' with hold | hnew
        · exact hrows d hold
        · rw [List.mem_singleton.mp hnew]
          exact hrow
      · obtain rfl := Option.some.inj hstep
        exact ⟨rfl, hrows, Replace.forall_mem_set hrequests trivial⟩
    · contradiction
  | link i =>
    simp only [Posting.step] at hstep
    split at hstep
    · obtain rfl := Option.some.inj hstep
      exact ⟨rfl, hrows, Replace.forall_mem_set hrequests trivial⟩
    · contradiction

/-- So does a step of a request that knows its alert. -/
theorem Inv.request (h : Inv s) {a : Posting.Act}
    (hstep : step cap resetHour s (.request a) = some s') (hknown : Known ⟨s, .request a, s'⟩) :
    Inv s' := by
  obtain ⟨ha, hposting, happ⟩ := step_request hstep
  have hrows := h.rows
  have hrequests := h.requests
  unfold Consistent at hrows
  rw [← h.db] at hrows hrequests
  have hknown' : ∀ alertId ∈ accepted (.request a), Stored s.posting.db alertId := by
    rw [h.db]
    exact hknown
  obtain ⟨hdb, hrows', hrequests'⟩ := request_step ha hrows hrequests hknown' hposting
  refine ⟨by rw [hdb, h.db, happ], ?_, ?_⟩
  · unfold Consistent
    rw [happ, ← h.db]
    exact hrows'
  · rw [happ, ← h.db]
    exact hrequests'

/-- So does every such step. -/
theorem Inv.step (h : Inv s) {a : Act} (hstep : Corpus.step cap resetHour s a = some s')
    (hknown : Known ⟨s, a, s'⟩) : Inv s' := by
  cases a with
  | app a => exact h.app hstep
  | request a => exact h.request hstep hknown

/-! ### A run -/

/-- While every request that is taken names an alert of the table, every row of the corpus refers to
an alert and to a verdict of that alert. -/
theorem consistent_of_known (h : Run (step cap resetHour) (init now) tr s)
    (hknown : ∀ m ∈ tr, Known m) : Consistent s := by
  have hinv : Inv s := h.invariant_of_moves (inv_init now)
    (fun _ _ _ _ hI hstep hm => hI.step hstep hm) hknown
  exact hinv.rows

/-- A request for this alert, up to its answer. -/
def dispose (alertId : String) : List Act :=
  [.post true alertId "accept" "", .lookup 0 "d1", .record 0, .link 0].map Act.request

/-- An alert is ingested, analyzed and dispositioned. -/
theorem consistent_sample :
    let r := runFrom (step 5 0) (init (App.sampleTime 0 10 0))
      ((App.handle 0 App.sampleEvent "a" ++ [App.Act.worker .start] ++
        App.produce "v1" App.sampleAnalysis).map Act.app ++ dispose "a")
    r.2.posting.dispositions.rows.map Disposition.verdictId = [some "v1"] ∧ Consistent r.2 :=
  ⟨by decide +kernel, consistent_of_known (run_runFrom _ _) (by decide +kernel)⟩

/-- A request for an alert that was never ingested leaves a row in the corpus. -/
theorem unknown_alert_recorded :
    let r := runFrom (step 5 0) (init (App.sampleTime 0 10 0)) (dispose "unknown")
    Run (step 5 0) (init (App.sampleTime 0 10 0)) r.1 r.2 ∧
      r.2.posting.dispositions.rows.map Disposition.alertId = ["unknown"] ∧
      r.2.app.db.alerts.rows = [] ∧ ¬ Consistent r.2 := by
  intro r
  have hrows : r.2.posting.dispositions.rows.map Disposition.alertId = ["unknown"] := by
    decide +kernel
  have halerts : r.2.app.db.alerts.rows = [] := by decide +kernel
  refine ⟨run_runFrom _ _, hrows, halerts, fun h => ?_⟩
  obtain ⟨d, hd, -⟩ := List.mem_map.mp (hrows ▸ List.mem_singleton.mpr rfl :
    "unknown" ∈ r.2.posting.dispositions.rows.map Disposition.alertId)
  obtain ⟨a, ha, -⟩ := (h d hd).alert
  rw [halerts] at ha
  contradiction

end Verdix.Corpus
