import Verdix.Infra.Cache
import Verdix.Lib.JsonRoundTrip
import Verdix.Lib.Python
import Verdix.Lib.Table

/-!
# The table of the SQLite cache

`SQLiteCache` for calls that run one after another: a function is a whole call, on the rows of
`cache_entries` and with the `json` of Python.  The driver encodes a key it is given in UTF-8, so a
key with a lone surrogate makes the call raise.  Both caches are given as components that answer
timed calls; only `SQLiteCache` has `clear_expired`.
-/

namespace Verdix

/-- A row of `cache_entries`. -/
structure CacheEntry where
  cacheKey : String
  cacheValue : String
  expiresAt : ℚ
  deriving DecidableEq

abbrev CacheEntries := Table CacheEntry CacheEntry.cacheKey

namespace SqliteTable

variable (maxDepth : ℕ) (sur : PyStr.Surrogates) (entries : CacheEntries) (now : ℚ) (key : String)

/-- Bind a key to a statement. -/
def bindKey : Except PyError String :=
  if PyStr.encodes sur key then .ok key else .error .unicodeEncodeError

/-- The rows but that of `key`. -/
def deleteKey : CacheEntries := Table.delete entries fun r => r.cacheKey = key

/-- `get` at `now`.  `None` is null; a key that cannot be bound raises, and so does a value that
cannot be read. -/
def get : Except PyError Json × CacheEntries :=
  match bindKey sur key with
  | .error e => (.error e, entries)
  | .ok key =>
    match entries.find? key with
    | none => (.ok .null, entries)
    | some row =>
      if row.expiresAt < now then (.ok .null, deleteKey entries key)
      else (Json.loads maxDepth row.cacheValue, entries)

/-- `INSERT … ON CONFLICT(cache_key) DO UPDATE`. -/
def upsert (excluded : CacheEntry) : CacheEntries :=
  match entries.insert? excluded with
  | some entries => entries
  | none =>
    entries.update (fun r => r.cacheKey = excluded.cacheKey)
      (fun r => { r with cacheValue := excluded.cacheValue, expiresAt := excluded.expiresAt })
      fun _ => rfl

/-- `set` at `now`; a value that cannot be written raises, and then a key that cannot be bound. -/
def set (value : Json) (ttlSeconds : ℤ) : Except PyError CacheEntries := do
  let serialized ← value.dumpsWithin maxDepth
  let key ← bindKey sur key
  return upsert entries ⟨key, serialized, now + ttlSeconds⟩

/-- `delete`. -/
def delete : Except PyError CacheEntries := do
  let key ← bindKey sur key
  return deleteKey entries key

/-- `clear_expired` at `now`, with the number of rows it has deleted. -/
def clearExpired : ℕ × CacheEntries :=
  (entries.rows.countP fun r => r.expiresAt < now,
    Table.delete entries fun r => r.expiresAt < now)

end SqliteTable

/-! ### Timed calls -/

/-- The calls of the `Cache` protocol. -/
inductive CacheCall
  | get (key : String)
  | set (key : String) (value : Json) (ttlSeconds : ℤ)
  | delete (key : String)

/-- The calls of `SQLiteCache`. -/
inductive SqliteCall
  | protocol (call : CacheCall)
  | clearExpired

/-- The call, if it is one of the protocol. -/
def SqliteCall.protocol? : SqliteCall → Option CacheCall
  | .protocol call => some call
  | .clearExpired => none

/-- A call of `InMemoryTTLCache` at `now`; a `get` answers. -/
def memoryCall (cache : TTLCache Json) (now : ℚ) : CacheCall → Option Json × TTLCache Json
  | .get key => (some ((cache.get now key).1.getD .null), (cache.get now key).2)
  | .set key value ttlSeconds => (none, cache.set now key value ttlSeconds)
  | .delete key => (none, cache.delete key)

/-- A call that answers only when it raises, and then leaves the rows as they are. -/
def answerOf (entries : CacheEntries) :
    Except PyError CacheEntries → Option (Except PyError Json) × CacheEntries
  | .ok entries => (none, entries)
  | .error e => (some (.error e), entries)

/-- A call of `SQLiteCache` at `now`; a `get` answers, and so does a call that raises. -/
def sqliteCall (maxDepth : ℕ) (sur : PyStr.Surrogates) (entries : CacheEntries) (now : ℚ) :
    SqliteCall → Option (Except PyError Json) × CacheEntries
  | .protocol (.get key) =>
    (some (SqliteTable.get maxDepth sur entries now key).1,
      (SqliteTable.get maxDepth sur entries now key).2)
  | .protocol (.set key value ttlSeconds) =>
    answerOf entries (SqliteTable.set maxDepth sur entries now key value ttlSeconds)
  | .protocol (.delete key) => answerOf entries (SqliteTable.delete sur entries key)
  | .clearExpired => (none, (SqliteTable.clearExpired entries now).2)

end Verdix
