import Verdix.Db.Models
import Verdix.Lib.Except
import Verdix.Lib.JsonRoundTrip

/-!
# The eve_events table

`insert_eve_events_batch` writes the rows of a batch in one transaction: all of them or none.  A
row is refused when one of its values cannot be bound, when its `event_type` is null, and when
`json.dumps` cannot write the event.
`delete_expired_eve_events` compares the stored timestamp with the cutoff as a text.
-/

namespace Verdix

/-- A row of `eve_events`. -/
structure EveEventRow where
  eventId : String
  sensorId : ℤ
  eventType : SqlValue
  flowId : SqlValue
  eventTimestamp : SqlValue
  ingestTimestamp : Datetime
  rawEve : String
  deriving DecidableEq

abbrev EveEvents := Table EveEventRow EveEventRow.eventId

namespace EventStore

variable (maxDepth : ℕ) (sur : PyStr.Surrogates)

/-- Bind a value; the driver binds a NaN as null. -/
def bindValue (v : Json) : Except PyError SqlValue := do
  let value ← SqlValue.bind sur v
  return if value = .real "NaN" then .null else value

/-- `NOT NULL`. -/
def notNull (value : SqlValue) : Except PyError SqlValue :=
  if value = .null then .error .integrityError else .ok value

/-- The row of an event. -/
def eveEventRow (eventId : String) (now : Datetime) (e : Json) : Except PyError EveEventRow := do
  let eventType ← e.getD "event_type" (.str "unknown") >>= bindValue sur >>= notNull
  let flowId ← e.get "flow_id" >>= bindValue sur
  let eventTimestamp ← e.get "timestamp" >>= bindValue sur
  let rawEve ← e.dumpsWithin maxDepth
  return {
    eventId := eventId
    sensorId := 1
    eventType := eventType
    flowId := flowId
    eventTimestamp := eventTimestamp
    ingestTimestamp := now
    rawEve := rawEve }

/-- The rows of a batch, each with its id. -/
def eveEventRows (ids : List String) (now : Datetime) (events : List Json) :
    Except PyError (List EveEventRow) :=
  (ids.zip events).mapM fun p => eveEventRow maxDepth sur p.1 now p.2

/-- `insert_eve_events_batch`. -/
def insertEveEventsBatch (table : EveEvents) (ids : List String) (now : Datetime)
    (events : List Json) : Except PyError EveEvents := do
  let rows ← eveEventRows maxDepth sur ids now events
  match table.insertAll? rows with
  | some table' => return table'
  | none => throw .integrityError

/-- `event_timestamp < cutoff`, in a column of texts; `realText` stands for the text of a real. -/
def isBefore (realText : String → String) (value : SqlValue) (cutoff : String) : Bool :=
  match value with
  | .null => false
  | .integer n => toString n < cutoff
  | .real literal => realText literal < cutoff
  | .text s => s < cutoff

/-- `delete_expired_eve_events`: the table it leaves and the number of rows deleted. -/
def deleteExpiredEveEvents (realText : String → String) (table : EveEvents) (now : Datetime)
    (retentionDays : ℤ) : Except PyError (EveEvents × ℕ) :=
  match now.subDays? retentionDays with
  | none => .error .overflowError
  | some cutoff =>
    let expired := fun row => isBefore realText row.eventTimestamp cutoff.isoformat
    .ok (table.delete expired, table.rows.countP expired)

/-! ### Which events have a row -/

/-- The store accepts the row of an event. -/
def accepts (e : Json) : Bool := (eveEventRow maxDepth sur "" .yearOne e).toBool

/-- A row that the store writes for an event. -/
def RowOf (row : EveEventRow) (e : Json) : Prop :=
  ∃ eventId now, eveEventRow maxDepth sur eventId now e = .ok row

variable {maxDepth : ℕ} {sur : PyStr.Surrogates}

/-- Neither the id nor the clock decides whether a row is accepted. -/
theorem accepts_iff (eventId : String) (now : Datetime) {e : Json} :
    accepts maxDepth sur e ↔ ∃ row, eveEventRow maxDepth sur eventId now e = .ok row := by
  unfold accepts eveEventRow
  generalize e.getD "event_type" (.str "unknown") >>= bindValue sur >>= notNull = eventType
  generalize e.get "flow_id" >>= bindValue sur = flowId
  generalize e.get "timestamp" >>= bindValue sur = eventTimestamp
  generalize e.dumpsWithin maxDepth = rawEve
  cases eventType <;> cases flowId <;> cases eventTimestamp <;> cases rawEve <;>
    simp [bind, Except.bind, Except.toBool, pure, Except.pure]

theorem RowOf.accepts {row : EveEventRow} {e : Json} (h : RowOf maxDepth sur row e) :
    accepts maxDepth sur e := by
  obtain ⟨eventId, now, hrow⟩ := h
  exact (accepts_iff eventId now).mpr ⟨row, hrow⟩

theorem eventId_of_eveEventRow {eventId : String} {now : Datetime} {e : Json} {row : EveEventRow}
    (h : eveEventRow maxDepth sur eventId now e = .ok row) : row.eventId = eventId := by
  obtain ⟨_, -, h⟩ := Except.bind_eq_ok.mp h
  obtain ⟨_, -, h⟩ := Except.bind_eq_ok.mp h
  obtain ⟨_, -, h⟩ := Except.bind_eq_ok.mp h
  obtain ⟨_, -, h⟩ := Except.bind_eq_ok.mp h
  obtain rfl := Except.ok.inj h
  rfl

/-! ### A batch -/

variable {table table' : EveEvents} {ids : List String} {now : Datetime} {events : List Json}

theorem rowOf_eveEventRows (hlen : ids.length = events.length) {rows : List EveEventRow}
    (h : eveEventRows maxDepth sur ids now events = .ok rows) :
    List.Forall₂ (RowOf maxDepth sur) rows events := by
  have hpairs : List.Forall₂ (fun p row => RowOf maxDepth sur row p.2) (ids.zip events) rows :=
    (Except.mapM_eq_ok.mp h).imp fun p row hrow => ⟨p.1, now, hrow⟩
  have hevents : (ids.zip events).map Prod.snd = events := List.map_snd_zip hlen.ge
  rw [← hevents]
  exact (List.forall₂_map_left_iff.mpr hpairs).flip

theorem eventIds_eveEventRows (hlen : ids.length = events.length) {rows : List EveEventRow}
    (h : eveEventRows maxDepth sur ids now events = .ok rows) :
    rows.map EveEventRow.eventId = ids := by
  have hpairs : List.Forall₂ (fun p row => p.1 = row.eventId) (ids.zip events) rows :=
    (Except.mapM_eq_ok.mp h).imp fun p row hrow => (eventId_of_eveEventRow hrow).symm
  have hids : (ids.zip events).map Prod.fst = ids := List.map_fst_zip hlen.le
  have heq : List.Forall₂ Eq ((ids.zip events).map Prod.fst) (rows.map EveEventRow.eventId) :=
    List.forall₂_map_left_iff.mpr (List.forall₂_map_right_iff.mpr hpairs)
  rw [hids, List.forall₂_eq_eq_eq] at heq
  exact heq.symm

/-- A batch that is written appends a row for each of its events. -/
theorem insertEveEventsBatch_eq_ok (hlen : ids.length = events.length)
    (h : insertEveEventsBatch maxDepth sur table ids now events = .ok table') :
    ∃ rows, table'.rows = table.rows ++ rows ∧ List.Forall₂ (RowOf maxDepth sur) rows events := by
  obtain ⟨rows, hrows, h⟩ := Except.bind_eq_ok.mp h
  split at h
  · rename_i u hu
    obtain rfl := Except.ok.inj h
    exact ⟨rows, Table.insertAll?_eq_some hu, rowOf_eveEventRows hlen hrows⟩
  · contradiction

/-- With ids that are not taken, a batch is written iff the store accepts every row of it. -/
theorem exists_insertEveEventsBatch (now : Datetime) (hlen : ids.length = events.length)
    (hfresh : (table.rows.map EveEventRow.eventId ++ ids).Nodup) :
    (∃ table', insertEveEventsBatch maxDepth sur table ids now events = .ok table') ↔
      ∀ e ∈ events, accepts maxDepth sur e := by
  constructor
  · rintro ⟨table', h⟩ e he
    obtain ⟨rows, -, hrows⟩ := insertEveEventsBatch_eq_ok hlen h
    obtain ⟨n, hn, rfl⟩ := List.mem_iff_getElem.mp he
    have hrow := hrows.get (hrows.length_eq ▸ hn) hn
    exact hrow.accepts
  · intro h
    obtain ⟨rows, hrows⟩ : ∃ rows, eveEventRows maxDepth sur ids now events = .ok rows := by
      refine Except.exists_mapM_eq_ok.mpr fun p hp => ?_
      exact (accepts_iff p.1 now).mp (h p.2 (List.of_mem_zip hp).2)
    rw [← eventIds_eveEventRows hlen hrows] at hfresh
    obtain ⟨table', ht⟩ := Table.exists_insertAll? hfresh
    refine ⟨table', ?_⟩
    rw [insertEveEventsBatch, hrows]
    show (match table.insertAll? rows with
      | some table' => (pure table' : Except PyError EveEvents)
      | none => throw PyError.integrityError) = _
    rw [ht]
    rfl

end EventStore

-- a null type, a type with a lone surrogate, an id past 64 bits, a timestamp that is no text, too many
-- levels, and a missing type
example : [Json.obj [("event_type", .null)], .obj [("event_type", .str "\uFFFD")],
    .obj [("flow_id", .int 9223372036854775808)], .obj [("timestamp", .obj [])],
    .obj [("dns", .obj [])], .obj []].map (EventStore.accepts 1 .replacement) =
      [false, false, false, false, false, true] := by
  decide +kernel

end Verdix
