import Verdix.Ingestion.Dispatcher
import Verdix.Ingestion.Indexer
import Verdix.Ingestion.Tailer

/-!
# The pipeline

`EvePipeline.run` runs the tailer, the broadcaster, the indexer and the dispatcher as concurrent
tasks.  When one of them raises, the others are cancelled, and `run` raises the same exception once
they have ended.  The broadcaster only moves events from queue to queue, the indexer catches what
its store raises, and an exception in a `_handle` task stays in that task.  What raises is the
tailer.
-/

namespace Verdix

namespace EvePipeline

/-- How far `run` is. -/
inductive Phase
  | running
  /-- A component has raised, and the others are being cancelled. -/
  | stopping (error : PyError)
  /-- `run` has raised. -/
  | terminated (error : PyError)
  /-- The application shuts down. -/
  | cancelled
  deriving DecidableEq

/-- What the event loop may do next. -/
inductive Act
  | tick (t : Datetime)
  /-- The tailer's `run` looks at the file, and finds its contents and inode or raises. -/
  | start (file : Except PyError (List UInt8 × ℕ))
  | poll (stat : EveTailer.Stat) (read : EveTailer.Read)
  /-- `_broadcast` hands one event on. -/
  | broadcast
  | index
  | indexTimeout
  | flush (ids : List String) (fault : Bool)
  | cancelIndexer
  | cancelFlush (ids : List String) (committed : Bool)
  /-- The dispatcher's `run` takes an event off its queue. -/
  | dispatch
  /-- A step of a `_handle` task. -/
  | handle (a : Dispatcher.Act)
  | cancelDispatcher
  | terminate
  | shutdown

end EvePipeline

/-- The pipeline on the database.  The tailer's queue is kept as a log; `taken` counts the events
the broadcaster has taken off it. -/
structure EvePipeline where
  now : Datetime
  tailer : EveTailer
  tailing : Bool
  taken : ℕ
  indexer : Indexer
  dispatcherQueue : List EveEvent
  dispatcher : Dispatcher
  eveEvents : EveEvents
  db : Db
  phase : EvePipeline.Phase

namespace EvePipeline

/-- The shared status. -/
def status (s : EvePipeline) : IngestionStatus := s.tailer.status

/-- The pipeline as `main` starts it when nothing blocks it. -/
def init (now : Datetime) (eveEvents : EveEvents) (db : Db) : EvePipeline where
  now := now
  tailer := ⟨0, 0, .init, []⟩
  tailing := false
  taken := 0
  indexer := .init
  dispatcherQueue := []
  dispatcher := .init
  eveEvents := eveEvents
  db := db
  phase := .running

/-- A step of the indexer. -/
def indexerStep (maxDepth : ℕ) (sur : PyStr.Surrogates) (batchSize : ℕ) (s : EvePipeline)
    (a : Indexer.Act) : Option EvePipeline :=
  (s.indexer.step maxDepth sur batchSize s.eveEvents a).map fun (eveEvents, indexer) =>
    { s with eveEvents := eveEvents, indexer := indexer }

/-- A step of the dispatcher. -/
def dispatcherStep (cap : ℕ) (resetHour : Fin 24) (s : EvePipeline) (a : Dispatcher.Act) :
    Option EvePipeline :=
  (Dispatcher.step cap resetHour s.now s.db s.dispatcher a).map fun (db, dispatcher) =>
    { s with db := db, dispatcher := dispatcher }

/-- What a component that raises does to `run`. -/
def phaseAfter : Option PyError → Phase
  | none => .running
  | some e => .stopping e

def step (maxDepth : ℕ) (sur : PyStr.Surrogates) (batchSize cap : ℕ) (resetHour : Fin 24)
    (s : EvePipeline) : Act → Option EvePipeline
  | .tick t => if s.now ≤ t then some { s with now := t } else none
  | .start file =>
    if s.phase = .running ∧ s.tailing = false then
      match file with
      | .ok (contents, inode) =>
        some { s with tailer := .start contents inode s.status, tailing := true }
      | .error e => some { s with phase := .stopping e }
    else none
  | .poll stat read =>
    if s.phase = .running ∧ s.tailing = true then
      let r := s.tailer.poll maxDepth s.now stat read
      some { s with tailer := r.1, phase := phaseAfter r.2 }
    else none
  | .broadcast =>
    if s.phase = .running then
      s.tailer.queue[s.taken]?.map fun event =>
        { s with
          taken := s.taken + 1
          indexer := { s.indexer with queue := s.indexer.queue ++ [event] }
          dispatcherQueue := s.dispatcherQueue ++ if event.isAlert then [event] else [] }
    else none
  | .index => if s.phase = .running then indexerStep maxDepth sur batchSize s .get else none
  | .indexTimeout =>
    if s.phase = .running then indexerStep maxDepth sur batchSize s .timeout else none
  | .flush ids fault => indexerStep maxDepth sur batchSize s (.flush ids s.now fault)
  | .cancelIndexer =>
    if s.phase ≠ .running then indexerStep maxDepth sur batchSize s .cancel else none
  | .cancelFlush ids committed =>
    if s.phase ≠ .running then
      indexerStep maxDepth sur batchSize s (.cancelFlush ids s.now committed)
    else none
  | .dispatch =>
    if s.phase = .running then
      match s.dispatcherQueue with
      | event :: queue =>
        dispatcherStep cap resetHour { s with dispatcherQueue := queue } (.arrive event)
      | [] => none
    else none
  | .handle a =>
    match a with
    | .arrive _ | .shutdown => none
    | _ => if s.phase = .running then dispatcherStep cap resetHour s a else none
  | .cancelDispatcher =>
    if s.phase ≠ .running then dispatcherStep cap resetHour s .shutdown else none
  | .terminate =>
    -- `gather` waits for every task to end
    match s.phase, s.indexer.stage, s.dispatcher.tasks.all fun t => t.stage = .finished with
    | .stopping e, .stopped _, true => some { s with phase := .terminated e }
    | _, _, _ => none
  | .shutdown =>
    match s.phase with
    | .terminated _ => none
    | _ => some { s with phase := .cancelled }

end EvePipeline

end Verdix
