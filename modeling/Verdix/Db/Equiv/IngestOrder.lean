import Verdix.Db.EventStore
import Verdix.Lib.Utf8

/-!
# The order of the timestamps in the database

`ingest_timestamp` holds the text of `isoformat`, and SQLite compares the bytes of the texts
(`BytesLe`).  `ingest_order`: this is the order of time, although the text of a whole second has no
fraction, so every query of the event store that reads the column goes by time: the order in which
queued alerts are taken, the window of the queue page, the daily count and the deduplication window.
-/

namespace Verdix.EventStore

/-- The comparison of two timestamps in SQLite. -/
def BytesLe (a b : Datetime) : Prop := Utf8.bytes a.isoformat ≤ Utf8.bytes b.isoformat

instance : DecidableRel BytesLe := fun a b =>
  inferInstanceAs (Decidable (Utf8.bytes a.isoformat ≤ Utf8.bytes b.isoformat))

theorem bytesLe_iff {a b : Datetime} : BytesLe a b ↔ a ≤ b := by
  rw [BytesLe, Utf8.bytes_le_iff, Datetime.isoformat_le_iff]

/-- The queries that read `ingest_timestamp`, with `le` for the comparison of two timestamps. -/
structure Compares (le : Datetime → Datetime → Prop) [DecidableRel le] : Prop where
  queryAlerts : ∀ db order since until_ status sensorId limit offset,
    queryAlerts db order since until_ status sensorId limit offset = db.alerts.select order
      (fun a => (since.all fun t => le t a.ingestTimestamp) &&
        (until_.all fun t => le a.ingestTimestamp t) && (status.all fun s => a.status = s) &&
        (sensorId.all fun n => a.sensorId = n))
      (fun a b => le a.ingestTimestamp b.ingestTimestamp) limit offset
  countAnalyzedToday : ∀ db now resetHour sensorId,
    countAnalyzedToday db now resetHour sensorId = db.alerts.rows.countP fun a =>
      a.sensorId = sensorId && a.status ≠ .deferred &&
        le (resetTime now resetHour) a.ingestTimestamp
  countAlertsByStatus : ∀ db since, countAlertsByStatus db since =
    let statuses := (db.alerts.rows.filter fun a =>
      since.all fun t => le t a.ingestTimestamp).map Alert.status
    statuses.dedup.map fun s => (s, statuses.count s)
  findRecentVerdictForGroup : ∀ db order signatureId srcIp dstIp candidate,
    signatureId ≠ .null → srcIp ≠ .null → dstIp ≠ .null →
    findRecentVerdictForGroup db order signatureId srcIp dstIp candidate =
      match candidate.sub? (windowHours * usPerHour) with
      | none => .error .overflowError
      | some since =>
        let eligible := (joinVerdicts db order).filter fun (a, v) =>
          a.signatureId = signatureId && a.srcIp = srcIp && a.dstIp = dstIp &&
            a.status = .analyzed && a.verdictId.isSome && le since a.ingestTimestamp &&
            le a.ingestTimestamp candidate &&
            !Like.like inheritedPattern.toList v.llmInputs.toList
        let newest := eligible.insertionSort fun x y => le y.1.ingestTimestamp x.1.ingestTimestamp
        .ok (newest.head?.bind fun x => x.1.verdictId)

/-- The comparison of the model. -/
def TextLe (a b : Datetime) : Prop := a.isoformat ≤ b.isoformat

instance decidableTextLe : DecidableRel TextLe := fun a b =>
  inferInstanceAs (Decidable (a.isoformat ≤ b.isoformat))

theorem compares_textLe : Compares TextLe := by
  constructor
  · intro db order since until_ status sensorId limit offset
    rfl
  · intro db now resetHour sensorId
    rfl
  · intro db since
    rfl
  · intro db order signatureId srcIp dstIp candidate hsignature hsrc hdst
    have hnull : ¬(signatureId = .null ∨ srcIp = .null ∨ dstIp = .null) := by
      simp [hsignature, hsrc, hdst]
    unfold findRecentVerdictForGroup
    rw [if_neg hnull]
    rfl

/-- A comparison with the same outcome can take its place. -/
theorem compares_of_iff {le : Datetime → Datetime → Prop} [hle : DecidableRel le]
    (h : ∀ a b, le a b ↔ TextLe a b) : Compares le := by
  obtain rfl : le = TextLe := by
    ext a b
    exact h a b
  obtain rfl : hle = decidableTextLe := Subsingleton.elim _ _
  exact compares_textLe

/-- The order of the bytes is the order of time, and every query goes by it. -/
theorem ingest_order (a b : Datetime) :
    (a ≤ b ↔ Utf8.bytes a.isoformat ≤ Utf8.bytes b.isoformat) ∧
      Compares BytesLe ∧ Compares (· ≤ ·) := by
  refine ⟨bytesLe_iff.symm, compares_of_iff ?_, compares_of_iff ?_⟩
  · exact fun a b => Utf8.bytes_le_iff
  · exact fun a b => Datetime.isoformat_le_iff.symm

end Verdix.EventStore
