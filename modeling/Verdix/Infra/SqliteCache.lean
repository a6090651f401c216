import Verdix.Lib.TransitionSystem
import Mathlib.Algebra.Order.Ring.Rat
import Mathlib.Logic.Function.Basic

/-!
# The cache in SQLite

`SQLiteCache.get`, `set` and `delete` as calls that run at the same time on the one connection that
`_get_conn` keeps.  A step is the work of a call up to its next `await`; the statements of all calls
reach the connection in this order, and each sees what the ones before have written, committed or
not.
-/

namespace Verdix

/-- The values that `json` gives back: what `json.dumps` makes of them, and `json.loads` of a text, if
it does not raise. -/
structure JsonCodec (V : Type) where
  dumps : V → String
  loads : String → Option V
  loads_dumps : ∀ value, loads (dumps value) = some value

/-- A row of `cache_entries` without its key. -/
structure CacheRow where
  cacheValue : String
  expiresAt : ℚ
  deriving DecidableEq

namespace SQLiteCache

/-- Where a call is. -/
inductive Call (V : Type)
  /-- `get`, from the `SELECT` to the end of the cursor. -/
  | reading (key : String) (now : ℚ) (row : Option CacheRow)
  /-- In the `commit` after a write. -/
  | committing
  | returned (value : Option V)
  /-- `json.loads` has raised. -/
  | raised
  deriving DecidableEq

/-- What happens next, and when. -/
inductive Act (V : Type)
  | get (key : String) (now : ℚ)
  | set (key : String) (value : V) (ttlSeconds : ℤ) (now : ℚ)
  | delete (key : String) (now : ℚ)
  /-- What call `i` waits for has ended. -/
  | resume (i : ℕ) (now : ℚ)

def Act.now {V : Type} : Act V → ℚ
  | .get _ now => now
  | .set _ _ _ now => now
  | .delete _ now => now
  | .resume _ now => now

end SQLiteCache

structure SQLiteCache (V : Type) where
  /-- `cache_entries`. -/
  entries : String → Option CacheRow
  calls : List (SQLiteCache.Call V)
  /-- `time.time()` at the last step. -/
  now : ℚ

namespace SQLiteCache

variable {V : Type} (codec : JsonCodec V)

/-- A process that starts on a table. -/
def init (entries : String → Option CacheRow) : SQLiteCache V := ⟨entries, [], 0⟩

/-- `get` after the `SELECT`. -/
def fetched (s : SQLiteCache V) (i : ℕ) (key : String) (now : ℚ) : Option CacheRow → SQLiteCache V
  | none => { s with calls := s.calls.set i (.returned none) }
  | some row =>
    if row.expiresAt < now then
      { s with entries := Function.update s.entries key none, calls := s.calls.set i .committing }
    else
      match codec.loads row.cacheValue with
      | some value => { s with calls := s.calls.set i (.returned (some value)) }
      | none => { s with calls := s.calls.set i .raised }

def next (s : SQLiteCache V) : Act V → Option (SQLiteCache V)
  | .get key now => some { s with calls := s.calls ++ [.reading key now (s.entries key)] }
  | .set key value ttlSeconds now =>
    some { s with
      entries := Function.update s.entries key (some ⟨codec.dumps value, now + ttlSeconds⟩)
      calls := s.calls ++ [.committing] }
  | .delete key _ =>
    some { s with
      entries := Function.update s.entries key none
      calls := s.calls ++ [.committing] }
  | .resume i _ =>
    match s.calls[i]? with
    | some (.reading key now row) => some (s.fetched codec i key now row)
    | some .committing => some { s with calls := s.calls.set i (.returned none) }
    | _ => none

/-- The clock does not go back. -/
def step (s : SQLiteCache V) (a : Act V) : Option (SQLiteCache V) :=
  if s.now ≤ a.now then (s.next codec a).map fun s => { s with now := a.now } else none

end SQLiteCache

end Verdix
