import Verdix.Db.Equiv.Stores
import Verdix.Triage.Worker

/-!
# What a step of the triage worker can do

`Worker.Move` lists the steps of the worker with their effect on the database, and
`move_of_step` shows that there are no others, so that no later proof unfolds `Worker.step`.
`Move.alerts_cases` sums up the effect on the alerts table: at most the rows of the alert being
processed change, and only in their status, `auto_analyzed` and `verdict_id`.
-/

namespace Verdix

/-- The statuses of an alert that the worker has taken out of the queue. -/
def Status.taken : Status → Bool
  | .analyzing | .analyzed | .failed => true
  | .queued | .deferred => false

namespace Worker

/-- The alert, in the stages between `analyzing` and the supersede call. -/
def Stage.preparing? : Stage → Option Alert
  | correlating a | assigning a | deduping a | sourcing a _ | analysing a => some a
  | _ => none

/-- The steps of the worker. -/
inductive Move (now : Datetime) (db : Db) : Stage → Db → Stage → Prop
  /-- Nothing is written and no alert is being processed afterwards. -/
  | leave {s s' : Stage} (h : s'.alert? = none) : Move now db s db s'
  | dequeue {a : Alert} (order : ScanOrder Alert) (h : nextQueued db order = some a) :
      Move now db .dequeuing db (.starting a)
  | mark {a : Alert} : Move now db (.starting a)
      (EventStore.updateAlertStatus db a.alertId .analyzing) (.correlating a)
  | prepare {s s' : Stage} {a : Alert} (h : s.preparing? = some a) (h' : s'.preparing? = some a)
      (hs : ∀ v, s' = .sourcing a v → ∃ order, EventStore.findRecentVerdictForGroup db order
        a.signatureId a.srcIp a.dstIp a.ingestTimestamp = .ok (some v)) :
      Move now db s db s'
  | inherit {a : Alert} {v : String} {source : Verdict} (uuid : String)
      (h : OperationalStore.getVerdict db v = some source) :
      Move now db (.sourcing a v) db
        (.superseding a (inheritedVerdict uuid a.alertId v source now))
  | produce {a : Alert} (uuid : String) (r : Analysis) :
      Move now db (.analysing a) db (.superseding a (producedVerdict uuid a.alertId
        (OllamaClient.complete r.model r.promptVersion r.prompt r.latencyMs r.output)
        r.evidenceChain now))
  | supersede {a : Alert} {w : Verdict} : Move now db (.superseding a w)
      (OperationalStore.markPreviousVerdictsSuperseded db a.alertId)
      (.recording a { w with createdAt := now })
  | record {a : Alert} {w : Verdict} {db' : Db} (h : OperationalStore.recordVerdict db w = .ok db') :
      Move now db (.recording a w) db' (.linking a w)
  | link {a : Alert} {w : Verdict} : Move now db (.linking a w)
      (OperationalStore.linkVerdictToAlert db a.alertId w.verdictId) .idle
  | fail {s : Stage} {a : Alert} {c : Call} (h : s.alert? = some a) (h' : s.call? = some c) :
      Move now db s db (.failing a c)
  | markFailed {a : Alert} {c : Call} : Move now db (.failing a c)
      (EventStore.updateAlertStatus db a.alertId .failed) .idle

variable {cap : ℕ} {resetHour : Fin 24} {now : Datetime} {db db' : Db} {s s' : Stage}

theorem move_of_proceed {order : ScanOrder Alert} {uuid : String}
    (h : proceed cap resetHour now db order uuid s = some (db', s')) : Move now db s db' s' := by
  cases s with
  | stopped => contradiction
  | analysing a => contradiction
  | idle =>
    obtain ⟨rfl, rfl⟩ := Prod.mk.inj (Option.some.inj h)
    refine .leave ?_
    -- over the cap it sleeps, else it looks for an alert
    split_ifs <;> rfl
  | dequeuing =>
    simp only [proceed] at h
    split at h
    · obtain ⟨rfl, rfl⟩ := Prod.mk.inj (Option.some.inj h)
      exact .leave rfl
    · rename_i a hnext
      obtain ⟨rfl, rfl⟩ := Prod.mk.inj (Option.some.inj h)
      exact .dequeue order hnext
  | starting a =>
    obtain ⟨rfl, rfl⟩ := Prod.mk.inj (Option.some.inj h)
    exact .mark
  | correlating a =>
    obtain ⟨rfl, rfl⟩ := Prod.mk.inj (Option.some.inj h)
    exact .prepare rfl rfl (by simp)
  | assigning a =>
    obtain ⟨rfl, rfl⟩ := Prod.mk.inj (Option.some.inj h)
    exact .prepare rfl rfl (by simp)
  | deduping a =>
    simp only [proceed] at h
    split at h
    · obtain ⟨rfl, rfl⟩ := Prod.mk.inj (Option.some.inj h)
      exact .fail rfl rfl
    · obtain ⟨rfl, rfl⟩ := Prod.mk.inj (Option.some.inj h)
      exact .prepare rfl rfl (by simp)
    · -- a verdict of the group is inherited if it is recent enough
      rename_i v hfind
      obtain ⟨rfl, rfl⟩ := Prod.mk.inj (Option.some.inj h)
      split_ifs
      · exact .prepare rfl rfl (by simp)
      · refine .prepare rfl rfl fun w hw => ?_
        obtain ⟨-, rfl⟩ := Stage.sourcing.inj hw
        exact ⟨order, hfind⟩
  | sourcing a v =>
    simp only [proceed] at h
    split at h
    · obtain ⟨rfl, rfl⟩ := Prod.mk.inj (Option.some.inj h)
      exact .prepare rfl rfl (by simp)
    · -- without the alert of the source, the alert is analysed itself
      rename_i source hget
      obtain ⟨rfl, rfl⟩ := Prod.mk.inj (Option.some.inj h)
      exact .inherit uuid hget
  | superseding a w =>
    obtain ⟨rfl, rfl⟩ := Prod.mk.inj (Option.some.inj h)
    exact .supersede
  | recording a w =>
    simp only [proceed] at h
    split at h
    · rename_i db'' hrec
      obtain ⟨rfl, rfl⟩ := Prod.mk.inj (Option.some.inj h)
      exact .record hrec
    · obtain ⟨rfl, rfl⟩ := Prod.mk.inj (Option.some.inj h)
      exact .fail rfl rfl
  | linking a w =>
    obtain ⟨rfl, rfl⟩ := Prod.mk.inj (Option.some.inj h)
    exact .link
  | failing a c =>
    obtain ⟨rfl, rfl⟩ := Prod.mk.inj (Option.some.inj h)
    exact .markFailed

theorem move_of_raises (h : step cap resetHour now db s .raises = some (db', s')) :
    Move now db s db' s' := by
  cases s with
  | stopped => contradiction
  | idle =>
    obtain ⟨rfl, rfl⟩ := Prod.mk.inj (Option.some.inj h)
    exact .leave rfl
  | dequeuing =>
    obtain ⟨rfl, rfl⟩ := Prod.mk.inj (Option.some.inj h)
    exact .leave rfl
  | failing a c =>
    obtain ⟨rfl, rfl⟩ := Prod.mk.inj (Option.some.inj h)
    exact .leave rfl
  | _ =>
    obtain ⟨rfl, rfl⟩ := Prod.mk.inj (Option.some.inj h)
    exact .fail rfl rfl

/-- Every step of the worker is one of the moves. -/
theorem move_of_step {act : Act} (h : step cap resetHour now db s act = some (db', s')) :
    Move now db s db' s' := by
  cases act with
  | proceed order uuid => exact move_of_proceed h
  | answered uuid r =>
    cases s with
    | analysing a =>
      obtain ⟨rfl, rfl⟩ := Prod.mk.inj (Option.some.inj h)
      exact .produce uuid r
    | _ => contradiction
  | raises => exact move_of_raises h
  | cancel =>
    simp only [step] at h
    split_ifs at h
    obtain ⟨rfl, rfl⟩ := Prod.mk.inj (Option.some.inj h)
    exact .leave rfl
  | start =>
    simp only [step] at h
    split_ifs at h
    obtain ⟨rfl, rfl⟩ := Prod.mk.inj (Option.some.inj h)
    exact .leave rfl

/-- A step leaves the alerts alone or rewrites the rows of the alert in hand, which end up with a
status outside the queue. -/
theorem Move.alerts_cases (h : Move now db s db' s') :
    db'.alerts = db.alerts ∨
      ∃ (a : Alert) (f : Alert → Alert) (hf : ∀ r, (f r).alertId = r.alertId),
        s.alert? = some a ∧ db'.alerts = db.alerts.update (fun r => r.alertId = a.alertId) f hf ∧
          ∀ r, (f r).facts = r.facts ∧ (f r).status.taken := by
  cases h with
  | mark => exact .inr ⟨_, fun r => { r with status := .analyzing }, fun _ => rfl, rfl, rfl,
      fun _ => ⟨rfl, rfl⟩⟩
  | link =>
    exact .inr ⟨_, fun r => { r with verdictId := _, status := .analyzed, autoAnalyzed := true },
      fun _ => rfl, rfl, rfl, fun _ => ⟨rfl, rfl⟩⟩
  | markFailed => exact .inr ⟨_, fun r => { r with status := .failed }, fun _ => rfl, rfl, rfl,
      fun _ => ⟨rfl, rfl⟩⟩
  | record hrec => exact .inl (OperationalStore.recordVerdict_eq_ok hrec).2.2
  | _ => exact .inl rfl

/-- The alert in hand stays the same until it is put down, and is picked up by a dequeue only. -/
theorem Move.alert?_cases (h : Move now db s db' s') {a : Alert} (ha : s'.alert? = some a) :
    s.alert? = some a ∨ s = .dequeuing ∧ s' = .starting a ∧ db' = db ∧
      ∃ order, nextQueued db order = some a := by
  cases h with
  | leave hs' => simp [hs'] at ha
  | dequeue order hnext =>
    obtain rfl := Option.some.inj ha
    exact .inr ⟨rfl, rfl, rfl, order, hnext⟩
  | prepare hw hw' _ =>
    refine .inl ?_
    cases s <;> cases s' <;> simp_all [Stage.preparing?, Stage.alert?]
  | fail hw _ => exact .inl (hw.trans ha)
  | link => contradiction
  | markFailed => contradiction
  | _ => exact .inl ha

/-- The ways to put an alert down: a cancellation, a failing update in the handler, the link, or the
handler's update. -/
theorem put_down_cases {act : Act} {a : Alert}
    (h : step cap resetHour now db s act = some (db', s')) (ha : s.alert? = some a)
    (hs' : s'.alert? = none) :
    (db' = db ∧ (act = .cancel ∨ act = .raises ∧ ∃ c, s = .failing a c)) ∨
      (∃ w, s = .linking a w ∧ db' = OperationalStore.linkVerdictToAlert db a.alertId w.verdictId) ∨
      ∃ c, s = .failing a c ∧ db' = EventStore.updateAlertStatus db a.alertId .failed := by
  cases act with
  | cancel =>
    simp only [step] at h
    split_ifs at h
    obtain ⟨rfl, -⟩ := Prod.mk.inj (Option.some.inj h)
    exact .inl ⟨rfl, .inl rfl⟩
  | start =>
    simp only [step] at h
    split_ifs at h with hstop
    rw [hstop] at ha
    contradiction
  | answered uuid r =>
    cases s with
    | analysing b =>
      obtain ⟨-, rfl⟩ := Prod.mk.inj (Option.some.inj h)
      contradiction
    | _ => contradiction
  | raises =>
    cases s with
    | stopped => contradiction
    | idle => contradiction
    | dequeuing => contradiction
    | failing b c =>
      obtain rfl := Option.some.inj ha
      obtain ⟨rfl, -⟩ := Prod.mk.inj (Option.some.inj h)
      exact .inl ⟨rfl, .inr ⟨rfl, c, rfl⟩⟩
    | _ =>
      obtain ⟨-, rfl⟩ := Prod.mk.inj (Option.some.inj h)
      contradiction
  | proceed order uuid =>
    -- no call of `_process_alert` returns to the loop without a write
    cases s with
    | linking b w =>
      obtain rfl := Option.some.inj ha
      obtain ⟨hdb, -⟩ := Prod.mk.inj (Option.some.inj h)
      exact .inr (.inl ⟨w, rfl, hdb.symm⟩)
    | failing b c =>
      obtain rfl := Option.some.inj ha
      obtain ⟨hdb, -⟩ := Prod.mk.inj (Option.some.inj h)
      exact .inr (.inr ⟨c, rfl, hdb.symm⟩)
    | deduping b =>
      simp only [step, proceed] at h
      split at h <;> obtain ⟨-, rfl⟩ := Prod.mk.inj (Option.some.inj h)
      · contradiction
      · contradiction
      · split_ifs at hs' <;> contradiction
    | sourcing b v =>
      simp only [step, proceed] at h
      split at h <;> (obtain ⟨-, rfl⟩ := Prod.mk.inj (Option.some.inj h); contradiction)
    | recording b w =>
      simp only [step, proceed] at h
      split at h <;> (obtain ⟨-, rfl⟩ := Prod.mk.inj (Option.some.inj h); contradiction)
    | stopped => contradiction
    | idle => contradiction
    | dequeuing => contradiction
    | analysing b => contradiction
    | _ =>
      obtain ⟨-, rfl⟩ := Prod.mk.inj (Option.some.inj h)
      contradiction

/-- Every row stems from a row with the same facts, which it equals unless it left the queue. -/
theorem Move.exists_of_mem (h : Move now db s db' s') {b : Alert} (hb : b ∈ db'.alerts.rows) :
    ∃ r ∈ db.alerts.rows, r.facts = b.facts ∧ (r = b ∨ b.status.taken) := by
  rcases h.alerts_cases with heq | ⟨a, f, hf, -, heq, hprop⟩
  · rw [heq] at hb
    exact ⟨b, hb, rfl, .inl rfl⟩
  · rw [heq] at hb
    obtain ⟨r, hr, rfl⟩ := Table.mem_update.mp hb
    refine ⟨r, hr, ?_⟩
    split_ifs
    · exact ⟨(hprop r).1.symm, .inr (hprop r).2⟩
    · exact ⟨rfl, .inl rfl⟩

/-- No row is lost; a row whose alert is not in hand stays as it is. -/
theorem Move.exists_mem (h : Move now db s db' s') {r : Alert} (hr : r ∈ db.alerts.rows) :
    ∃ b ∈ db'.alerts.rows, b.facts = r.facts ∧
      ((∀ a, s.alert? = some a → r.alertId ≠ a.alertId) → b = r) := by
  rcases h.alerts_cases with heq | ⟨a, f, hf, ha, heq, hprop⟩
  · rw [heq]
    exact ⟨r, hr, rfl, fun _ => rfl⟩
  · rw [heq]
    refine ⟨_, Table.mem_update.mpr ⟨r, hr, rfl⟩, ?_⟩
    split_ifs with hid
    · exact ⟨(hprop r).1, fun hne => absurd (by simpa using hid) (hne a ha)⟩
    · exact ⟨rfl, fun _ => rfl⟩

/-- No verdict is lost, and none changes but in `is_current`. -/
theorem Move.exists_verdict (h : Move now db s db' s') {v : Verdict} (hv : v ∈ db.verdicts.rows) :
    ∃ b, { v with isCurrent := b } ∈ db'.verdicts.rows := by
  cases h with
  | @supersede a w =>
    by_cases hsuperseded : v.alertId = a.alertId ∧ v.isCurrent
    · exact ⟨false, OperationalStore.mem_markPreviousVerdictsSuperseded.mpr
        ⟨v, hv, if_pos hsuperseded⟩⟩
    · exact ⟨v.isCurrent, OperationalStore.mem_markPreviousVerdictsSuperseded.mpr
        ⟨v, hv, if_neg hsuperseded⟩⟩
  | record hrec =>
    rw [(OperationalStore.recordVerdict_eq_ok hrec).2.1]
    exact ⟨v.isCurrent, List.mem_append_left _ hv⟩
  | _ => exact ⟨v.isCurrent, hv⟩

/-! ### Dequeuing -/

theorem nextQueued_eq_some {order : ScanOrder Alert} {a : Alert} (h : nextQueued db order = some a) :
    a ∈ db.alerts.rows ∧ a.status = .queued ∧
      ∀ b ∈ db.alerts.rows, b.status = .queued → a.ingestTimestamp ≤ b.ingestTimestamp := by
  have hmem := Table.mem_of_mem_select (List.mem_of_mem_head? (Option.mem_def.mpr h))
  refine ⟨hmem.1, by simpa using hmem.2, fun b hb hq => ?_⟩
  have hrel : EventStore.byIngest a b := Table.rel_of_select_head? h hb (by simpa using hq)
  exact Datetime.isoformat_le_iff.mp hrel

theorem exists_nextQueued {b : Alert} (order : ScanOrder Alert) (hb : b ∈ db.alerts.rows)
    (hq : b.status = .queued) : ∃ a, nextQueued db order = some a :=
  Table.exists_select_head? Nat.zero_lt_one hb (by simpa using hq)

end Worker

end Verdix
