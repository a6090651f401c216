import Mathlib.Algebra.Order.Ring.Rat

/-!
# When the indexer flushes

`EveIndexer.run` over events with the times at which they come in, for a store that accepts every
batch at once: `flushes` are the batches with the times at which they are written.

Times are in milliseconds.  Between two events the code waits in `wait_for(queue.get(), timeout)`,
and the wait starts again with each event.
-/

namespace Verdix.FlushTimes

/-- An event that is put on the queue. -/
structure Arrival where
  time : ℚ
  /-- Whether a timeout that falls on the same instant comes first. -/
  timerFirst : Bool
  deriving DecidableEq

/-- A batch that is written. -/
structure Flush where
  batch : List Arrival
  time : ℚ
  deriving DecidableEq

/-- The wait that began at `armed` times out before the event. -/
def Arrival.late (interval : ℚ) (a : Arrival) (armed : ℚ) : Bool :=
  armed + interval < a.time || armed + interval = a.time && a.timerFirst

/-- The loop of `run`, with the events of the batch and the time since which it waits. -/
def loop (batchSize : ℕ) (interval : ℚ) : ℚ → List Arrival → List Arrival → List Flush
  | armed, batch, [] =>
    -- no event comes any more, and the next timeout writes the batch
    if batch.isEmpty then [] else [⟨batch, armed + interval⟩]
  | armed, batch, a :: arrivals =>
    -- a timeout that finds the batch empty only begins the wait again
    let timedOut := if a.late interval armed && !batch.isEmpty then [⟨batch, armed + interval⟩] else []
    let batch := (if a.late interval armed then [] else batch) ++ [a]
    if batchSize ≤ batch.length then
      timedOut ++ ⟨batch, a.time⟩ :: loop batchSize interval a.time [] arrivals
    else
      timedOut ++ loop batchSize interval a.time batch arrivals

/-- `run`; without a positive timeout `wait_for` gives up before it has taken an event. -/
def flushes (batchSize : ℕ) (interval : ℚ) (start : ℚ) (arrivals : List Arrival) : List Flush :=
  if 0 < interval then loop batchSize interval start [] arrivals else []

end Verdix.FlushTimes
