import Verdix.Db.EveEvents
import Verdix.Ingestion.Models
import Verdix.Lib.TransitionSystem

/-!
# The indexer

`EveIndexer.run` takes events off its queue into a batch and writes the batch when it is full or the
queue stays empty for the flush interval.  A step of the model is the work between two `await`s.
-/

namespace Verdix

namespace Indexer

/-- Where `run` is suspended. -/
inductive Stage
  /-- Waiting for the next event. -/
  | waiting
  /-- In `_flush`. -/
  | flushing
  /-- Cancelled, in the last `_flush`. -/
  | lastFlush
  /-- Ended; the flag says that no event was left in the batch. -/
  | stopped (flushed : Bool)
  deriving DecidableEq

/-- What the event loop may do next. -/
inductive Act
  /-- The broadcaster puts an event on the queue. -/
  | put (event : EveEvent)
  | get
  | timeout
  /-- The insert ends, with the ids it has drawn; `fault` says that the database fails. -/
  | flush (ids : List String) (now : Datetime) (fault : Bool)
  /-- The task is cancelled while it waits. -/
  | cancel
  /-- The task is cancelled while it writes, and what it writes may be in the database by then. -/
  | cancelFlush (ids : List String) (now : Datetime) (committed : Bool)

end Indexer

/-- The queue of the indexer, and the batch in memory. -/
structure Indexer where
  queue : List EveEvent
  batch : List Json
  stage : Indexer.Stage

namespace Indexer

/-- An indexer that has seen no event. -/
def init : Indexer := ⟨[], [], .waiting⟩

variable (maxDepth : ℕ) (sur : PyStr.Surrogates)

/-- `_flush`: the table after it, if it succeeds. -/
def writeBatch (table : EveEvents) (ids : List String) (now : Datetime) (fault : Bool)
    (batch : List Json) : Option EveEvents :=
  if fault then none
  else (EventStore.insertEveEventsBatch maxDepth sur table ids now batch).toOption

def step (batchSize : ℕ) (table : EveEvents) (x : Indexer) : Act → Option (EveEvents × Indexer)
  | .put event => some (table, { x with queue := x.queue ++ [event] })
  | .get =>
    match x.stage, x.queue with
    | .waiting, event :: queue =>
      let batch := x.batch ++ [event.raw]
      some (table, ⟨queue, batch, if batchSize ≤ batch.length then .flushing else .waiting⟩)
    | _, _ => none
  | .timeout =>
    match x.stage with
    | .waiting => some (table, { x with stage := if x.batch = [] then .waiting else .flushing })
    | _ => none
  | .flush ids now fault =>
    if ids.length ≠ x.batch.length then none
    else match x.stage with
    | .flushing =>
      match writeBatch maxDepth sur table ids now fault x.batch with
      | some table' => some (table', { x with batch := [], stage := .waiting })
      -- the batch is kept for the next try
      | none => some (table, { x with stage := .waiting })
    | .lastFlush =>
      match writeBatch maxDepth sur table ids now fault x.batch with
      | some table' => some (table', { x with stage := .stopped true })
      | none => some (table, { x with stage := .stopped false })
    | _ => none
  | .cancel =>
    match x.stage with
    | .waiting =>
      some (table, { x with stage := if x.batch = [] then .stopped true else .lastFlush })
    | _ => none
  | .cancelFlush ids now committed =>
    if ids.length ≠ x.batch.length then none
    else match x.stage with
    | .flushing =>
      -- `_flush` does not catch the cancellation, and `run` writes the batch once more
      some ((writeBatch maxDepth sur table ids now (!committed) x.batch).getD table,
        { x with stage := .lastFlush })
    | .lastFlush =>
      some ((writeBatch maxDepth sur table ids now (!committed) x.batch).getD table,
        { x with stage := .stopped false })
    | _ => none

end Indexer

/-! ### The indexer on its table -/

/-- The table and the indexer. -/
structure Indexing where
  table : EveEvents
  indexer : Indexer

namespace Indexing

/-- The indexer starts on a table. -/
def init (table : EveEvents) : Indexing := ⟨table, .init⟩

def step (maxDepth : ℕ) (sur : PyStr.Surrogates) (batchSize : ℕ) (s : Indexing)
    (a : Indexer.Act) : Option Indexing :=
  (s.indexer.step maxDepth sur batchSize s.table a).map fun r => ⟨r.1, r.2⟩

/-- The events that have been put on the queue along a run. -/
def arrivals (tr : List (TransitionSystem.Move Indexing Indexer.Act)) : List EveEvent :=
  tr.filterMap fun m => match m.act with
    | .put event => some event
    | _ => none

end Indexing

end Verdix
