import Mathlib.Data.Option.Basic
import Mathlib.Tactic.NormNum
import Verdix.Infra.Equiv.SqliteCache
import Verdix.Infra.SqliteTable
import Verdix.Lib.TimedRun

/-!
# The two caches give the same answers

`InMemoryTTLCache` and `SQLiteCache` drop an expired entry at different moments, and `clear_expired`
drops others.  No later call sees the difference: what counts of a cache are the entries that are
live, and these are the same (`Agrees`).  With the clock, entries only leave them.

`caches_answer_alike` is about the calls that `SQLiteCache` accepts.  `InMemoryTTLCache` neither
writes its values nor encodes its keys, and gives back what `SQLiteCache` refuses to store
(`long_integer_lost`).

The table is the one of the calls that can run at the same time: a call that runs alone leaves there
the rows that it leaves here (`entries_get_alone`, `entries_set_alone`, `entries_delete_alone`).
-/

namespace Verdix

/-! ### The live entries -/

namespace TTLCache

/-- The entry under `key`, if it counts at `now`. -/
def live {V : Type} (c : TTLCache V) (now : ℚ) (key : String) : Option (V × ℚ) :=
  (c.store key).filter fun e => now ≤ e.2

variable {V : Type} (c : TTLCache V) (now : ℚ) (key k : String)

theorem get_eq_live : (c.get now key).1 = (c.live now key).map Prod.fst := by
  rw [get, live]
  cases c.store key with
  | none => rfl
  | some e =>
    rw [Option.filter_some]
    by_cases h : e.2 < now
    · simp [h, not_le.mpr h]
    · simp [h, not_lt.mp h]

/-- An entry that a `get` drops is not live. -/
theorem live_get : (c.get now key).2.live now k = c.live now k := by
  unfold get
  split
  · rfl
  · rename_i value expiry hstore
    split
    · rename_i hexpired
      unfold live
      dsimp only
      by_cases hk : k = key
      · -- the entry that is dropped was not counted
        rw [hk, Function.update_self, hstore, Option.filter_none, Option.filter_some,
          if_neg (by simpa using hexpired)]
      · rw [Function.update_of_ne hk]
    · rfl

theorem live_set (value : V) (ttl : ℚ) :
    (c.set now key value ttl).live now k =
      if k = key then (some (value, now + ttl)).filter fun e => now ≤ e.2 else c.live now k := by
  unfold live
  split_ifs with hk
  · rw [hk, store_set_self]
  · rw [store_set_of_ne hk]

theorem live_delete : (c.delete key).live now k = if k = key then none else c.live now k := by
  unfold live delete
  dsimp only
  split_ifs with hk
  · rw [hk, Function.update_self, Option.filter_none]
  · rw [Function.update_of_ne hk]

end TTLCache

namespace SqliteTable

/-- The row of `key`, if it counts at `now`. -/
def live (entries : CacheEntries) (now : ℚ) (key : String) : Option CacheEntry :=
  (entries.find? key).filter fun row => now ≤ row.expiresAt

variable (maxDepth : ℕ) {sur : PyStr.Surrogates} (entries : CacheEntries) (now : ℚ) (key k : String)

theorem bindKey_of_encodes {key : String} (h : PyStr.encodes sur key = true) :
    bindKey sur key = .ok key := if_pos h

theorem get_eq_live {key : String} (hkey : PyStr.encodes sur key = true) :
    (get maxDepth sur entries now key).1 =
      match live entries now key with
      | none => .ok .null
      | some row => Json.loads maxDepth row.cacheValue := by
  rw [get, bindKey_of_encodes hkey, live]
  dsimp only
  cases entries.find? key with
  | none => rfl
  | some row =>
    rw [Option.filter_some]
    by_cases h : row.expiresAt < now
    · simp [h, not_le.mpr h]
    · simp [h, not_lt.mp h]

theorem cacheKey_of_find? {entries : CacheEntries} {key : String} {row : CacheEntry}
    (h : entries.find? key = some row) : row.cacheKey = key :=
  (Table.find?_eq_some_iff.mp h).2

/-- The row of `key` is deleted, and no other. -/
theorem find?_deleteKey :
    (deleteKey entries key).find? k = if k = key then none else entries.find? k := by
  rw [deleteKey, Table.find?_delete]
  cases hrow : entries.find? k with
  | none => rw [Option.filter_none, ite_self]
  | some row =>
    rw [Option.filter_some, cacheKey_of_find? hrow]
    split_ifs with h hk hk
    · simp [hk] at h
    · rfl
    · rfl
    · simp [hk] at h

/-- A row that a `get` deletes is not live. -/
theorem live_get {key : String} (hkey : PyStr.encodes sur key = true) :
    live (get maxDepth sur entries now key).2 now k = live entries now k := by
  rw [get, bindKey_of_encodes hkey]
  dsimp only
  split
  · rfl
  · rename_i row hrow
    split
    · rename_i hexpired
      show ((deleteKey entries key).find? k).filter _ = _
      rw [find?_deleteKey, live]
      split_ifs with hk
      · rw [hk, hrow, Option.filter_none, Option.filter_some, if_neg (by simpa using hexpired)]
      · rfl
    · rfl

/-- The row of the key is replaced, and no other. -/
theorem find?_upsert (row : CacheEntry) :
    (upsert entries row).find? k = if k = row.cacheKey then some row else entries.find? k := by
  unfold upsert
  split
  · rename_i hinsert
    exact Table.find?_of_insert? hinsert k
  · -- the key is taken, by a row that is rewritten
    rename_i hinsert
    obtain ⟨old, hold⟩ := Table.insert?_eq_none hinsert
    rw [Table.find?_update]
    split_ifs with hk
    · rw [hk, hold, Option.map_some, if_pos (by simpa using cacheKey_of_find? hold),
        cacheKey_of_find? hold]
    · cases hfind : entries.find? k with
      | none => rfl
      | some other =>
        rw [Option.map_some, if_neg (by rw [cacheKey_of_find? hfind]; simpa using hk)]

theorem live_upsert (row : CacheEntry) :
    live (upsert entries row) now k =
      if k = row.cacheKey then (some row).filter fun row => now ≤ row.expiresAt
      else live entries now k := by
  rw [live, find?_upsert]
  split_ifs
  · rfl
  · rfl

theorem live_deleteKey :
    live (deleteKey entries key) now k = if k = key then none else live entries now k := by
  rw [live, find?_deleteKey]
  split_ifs
  · rfl
  · rfl

/-- The rows that `clear_expired` deletes are not live. -/
theorem live_clearExpired : live (clearExpired entries now).2 now k = live entries now k := by
  rw [clearExpired, live, Table.find?_delete, Option.filter_filter, live]
  congr 1
  funext row
  by_cases h : row.expiresAt < now
  · simp [h]
  · simp [h, not_lt.mp h]

end SqliteTable

/-! ### A call that runs alone -/

namespace SqliteTable

variable {maxDepth : ℕ} {sur : PyStr.Surrogates} {entries : CacheEntries} {now : ℚ} {key : String}

/-- A `set` that neither `json.dumps` nor the driver stops writes its row. -/
theorem set_eq_ok {value : Json} {ttlSeconds : ℤ} {text : String}
    (hkey : PyStr.encodes sur key = true) (h : value.dumpsWithin maxDepth = .ok text) :
    set maxDepth sur entries now key value ttlSeconds =
      .ok (upsert entries ⟨key, text, now + ttlSeconds⟩) := by
  rw [set, h, bindKey_of_encodes hkey]
  rfl

theorem delete_eq_ok (hkey : PyStr.encodes sur key = true) :
    delete sur entries key = .ok (deleteKey entries key) := by
  rw [delete, bindKey_of_encodes hkey]
  rfl

/-- The row of each key. -/
def rowsByKey (entries : CacheEntries) (key : String) : Option CacheRow :=
  (entries.find? key).map fun row => ⟨row.cacheValue, row.expiresAt⟩

theorem rowsByKey_deleteKey (entries : CacheEntries) (key : String) :
    rowsByKey (deleteKey entries key) = Function.update (rowsByKey entries) key none := by
  funext k
  rw [rowsByKey, find?_deleteKey]
  split_ifs with hk
  · rw [hk, Function.update_self, Option.map_none]
  · rw [Function.update_of_ne hk, rowsByKey]

theorem rowsByKey_upsert (entries : CacheEntries) (row : CacheEntry) :
    rowsByKey (upsert entries row) =
      Function.update (rowsByKey entries) row.cacheKey (some ⟨row.cacheValue, row.expiresAt⟩) := by
  funext k
  rw [rowsByKey, find?_upsert]
  split_ifs with hk
  · rw [hk, Function.update_self, Option.map_some]
  · rw [Function.update_of_ne hk, rowsByKey]

end SqliteTable

section Alone

variable {V : Type} {codec : JsonCodec V} {s : SQLiteCache V} {entries : CacheEntries} {now : ℚ}
  {key : String} {sur : PyStr.Surrogates}

theorem entries_fetched (maxDepth i : ℕ) (hkey : PyStr.encodes sur key = true)
    (hrows : s.entries = SqliteTable.rowsByKey entries) :
    (s.fetched codec i key now (s.entries key)).entries =
      SqliteTable.rowsByKey (SqliteTable.get maxDepth sur entries now key).2 := by
  have hrow : s.entries key =
      (entries.find? key).map fun row => ⟨row.cacheValue, row.expiresAt⟩ := by
    rw [hrows, SqliteTable.rowsByKey]
  rw [hrow, SqliteTable.get, SqliteTable.bindKey_of_encodes hkey]
  dsimp only
  cases entries.find? key with
  | none => exact hrows
  | some row =>
    rw [Option.map_some, SQLiteCache.fetched]
    dsimp only
    split_ifs
    · show Function.update s.entries key none =
        SqliteTable.rowsByKey (SqliteTable.deleteKey entries key)
      rw [hrows, SqliteTable.rowsByKey_deleteKey]
    · -- reading the value does not change the table
      split
      · exact hrows
      · exact hrows

/-- A `get` has done its work when the cursor has ended. -/
theorem entries_get_alone (maxDepth : ℕ) (hkey : PyStr.encodes sur key = true)
    (hclock : s.now ≤ now) (hrows : s.entries = SqliteTable.rowsByKey entries) :
    ∃ s₁ s₂, s.step codec (.get key now) = some s₁ ∧
      s₁.step codec (.resume s.calls.length now) = some s₂ ∧
      s₂.entries = SqliteTable.rowsByKey (SqliteTable.get maxDepth sur entries now key).2 := by
  set s₁ : SQLiteCache V := ⟨s.entries, s.calls ++ [.reading key now (s.entries key)], now⟩ with hs₁
  have hnext : s₁.next codec (.resume s.calls.length now) =
      some (s₁.fetched codec s.calls.length key now (s.entries key)) := by
    simp [SQLiteCache.next, hs₁]
  refine ⟨s₁, _, SQLiteCache.step_eq_some_iff.mpr ⟨hclock, _, rfl, rfl⟩,
    SQLiteCache.step_eq_some_iff.mpr ⟨le_refl now, _, hnext, rfl⟩, ?_⟩
  exact entries_fetched maxDepth s.calls.length hkey hrows

theorem entries_set_alone {value : Json} {stored : V} {ttlSeconds : ℤ} {maxDepth : ℕ}
    (hkey : PyStr.encodes sur key = true) (hclock : s.now ≤ now)
    (hrows : s.entries = SqliteTable.rowsByKey entries)
    (htext : value.dumpsWithin maxDepth = .ok (codec.dumps stored)) :
    ∃ s' entries', s.step codec (.set key stored ttlSeconds now) = some s' ∧
      SqliteTable.set maxDepth sur entries now key value ttlSeconds = .ok entries' ∧
      s'.entries = SqliteTable.rowsByKey entries' := by
  refine ⟨_, _, SQLiteCache.step_eq_some_iff.mpr ⟨hclock, _, rfl, rfl⟩,
    SqliteTable.set_eq_ok hkey htext, ?_⟩
  rw [SqliteTable.rowsByKey_upsert, ← hrows]

theorem entries_delete_alone (hkey : PyStr.encodes sur key = true) (hclock : s.now ≤ now)
    (hrows : s.entries = SqliteTable.rowsByKey entries) :
    ∃ s' entries', s.step codec (.delete key now) = some s' ∧
      SqliteTable.delete sur entries key = .ok entries' ∧
      s'.entries = SqliteTable.rowsByKey entries' := by
  refine ⟨_, _, SQLiteCache.step_eq_some_iff.mpr ⟨hclock, _, rfl, rfl⟩,
    SqliteTable.delete_eq_ok hkey, ?_⟩
  rw [SqliteTable.rowsByKey_deleteKey, ← hrows]

end Alone

/-! ### Agreement -/

/-- The row has the time of the entry, and a text that is read as its value. -/
def Holds (maxDepth : ℕ) (row : CacheEntry) (entry : Json × ℚ) : Prop :=
  Json.loads maxDepth row.cacheValue = .ok entry.1 ∧ row.expiresAt = entry.2

/-- At `now` the same keys are live, with the same values and times. -/
def Agrees (maxDepth : ℕ) (now : ℚ) (entries : CacheEntries) (cache : TTLCache Json) : Prop :=
  ∀ key, Option.Rel (Holds maxDepth) (SqliteTable.live entries now key) (cache.live now key)

/-- The key can be encoded, and the value of a `set` is a JSON value that `json.dumps` writes. -/
def SqliteCall.Accepted (maxDepth : ℕ) (sur : PyStr.Surrogates) : SqliteCall → Prop
  | .protocol (.get key) => PyStr.encodes sur key = true
  | .protocol (.set key value _) =>
    PyStr.encodes sur key = true ∧ value.IsJson ∧ ∃ text, value.dumpsWithin maxDepth = .ok text
  | .protocol (.delete key) => PyStr.encodes sur key = true
  | .clearExpired => True

variable {maxDepth : ℕ} {sur : PyStr.Surrogates} {now t : ℚ} {entries : CacheEntries}
  {cache : TTLCache Json} {key : String} {value : Json} {ttlSeconds : ℤ}

theorem agrees_empty : Agrees maxDepth now .empty .empty := fun _ => .none

/-- A time limit keeps or drops both. -/
theorem Holds.filter {o : Option CacheEntry} {o' : Option (Json × ℚ)}
    (h : Option.Rel (Holds maxDepth) o o') :
    Option.Rel (Holds maxDepth) (o.filter fun row => t ≤ row.expiresAt)
      (o'.filter fun e => t ≤ e.2) := by
  cases h with
  | none => exact .none
  | @some row e h =>
    rw [Option.filter_some, Option.filter_some, h.2]
    split_ifs
    · exact .some h
    · exact .none

/-- What is live later is live now. -/
theorem filter_later {α : Type} (o : Option α) (expiry : α → ℚ) (ht : now ≤ t) :
    (o.filter fun a => now ≤ expiry a).filter (fun a => t ≤ expiry a) =
      o.filter fun a => t ≤ expiry a := by
  rw [Option.filter_filter]
  congr 1
  funext a
  by_cases hlive : t ≤ expiry a
  · simp [hlive, ht.trans hlive]
  · simp [hlive]

theorem Agrees.later (ht : now ≤ t) (h : Agrees maxDepth now entries cache) :
    Agrees maxDepth t entries cache := by
  intro key
  have hrow : (SqliteTable.live entries now key).filter (fun row => t ≤ row.expiresAt) =
      SqliteTable.live entries t key := filter_later (entries.find? key) CacheEntry.expiresAt ht
  have hentry : (cache.live now key).filter (fun e => t ≤ e.2) = cache.live t key :=
    filter_later (cache.store key) Prod.snd ht
  rw [← hrow, ← hentry]
  exact Holds.filter (h key)

/-- Both caches answer a `get` with the value, or with `None`. -/
theorem Agrees.get_answer (h : Agrees maxDepth now entries cache)
    (hkey : PyStr.encodes sur key = true) :
    (SqliteTable.get maxDepth sur entries now key).1 = .ok ((cache.get now key).1.getD .null) := by
  have hrel := h key
  rw [SqliteTable.get_eq_live _ _ _ hkey, TTLCache.get_eq_live]
  generalize SqliteTable.live entries now key = row at hrel ⊢
  generalize cache.live now key = entry at hrel ⊢
  cases hrel with
  | none => rfl
  | some h => exact h.1

theorem Agrees.get (h : Agrees maxDepth now entries cache) (hkey : PyStr.encodes sur key = true) :
    Agrees maxDepth now (SqliteTable.get maxDepth sur entries now key).2 (cache.get now key).2 := by
  intro k
  rw [SqliteTable.live_get _ _ _ _ hkey, TTLCache.live_get]
  exact h k

theorem Agrees.set (h : Agrees maxDepth now entries cache) {text : String}
    (htext : Json.loads maxDepth text = .ok value) :
    Agrees maxDepth now (SqliteTable.upsert entries ⟨key, text, now + ttlSeconds⟩)
      (cache.set now key value ttlSeconds) := by
  intro k
  rw [SqliteTable.live_upsert, TTLCache.live_set]
  split_ifs with hk
  · exact Holds.filter (.some ⟨htext, rfl⟩)
  · exact h k

theorem Agrees.delete (h : Agrees maxDepth now entries cache) :
    Agrees maxDepth now (SqliteTable.deleteKey entries key) (cache.delete key) := by
  intro k
  rw [SqliteTable.live_deleteKey, TTLCache.live_delete]
  split_ifs with hk
  · exact .none
  · exact h k

theorem Agrees.clearExpired (h : Agrees maxDepth now entries cache) :
    Agrees maxDepth now (SqliteTable.clearExpired entries now).2 cache := by
  intro k
  rw [SqliteTable.live_clearExpired]
  exact h k

/-! ### Runs -/

open TimedRun

/-- `SQLiteCache` does what `InMemoryTTLCache` does, and `clear_expired` is not seen. -/
theorem cache_simulation :
    Simulation (sqliteCall maxDepth sur) memoryCall SqliteCall.protocol? .ok
      (SqliteCall.Accepted maxDepth sur) (Agrees maxDepth) where
  later := fun ht h => h.later ht
  hidden := by
    intro now entries cache call h hcall
    cases call with
    | protocol call => contradiction
    | clearExpired => exact ⟨rfl, h.clearExpired⟩
  visible := by
    intro now entries cache call call' haccepted h hcall
    cases call with
    | clearExpired => contradiction
    | protocol call =>
      obtain rfl := Option.some.inj hcall
      cases call with
      | get key => exact ⟨congrArg some (h.get_answer haccepted), h.get haccepted⟩
      | set key value ttlSeconds =>
        obtain ⟨hkey, hvalue, text, htext⟩ := haccepted
        rw [sqliteCall, SqliteTable.set_eq_ok hkey htext]
        exact ⟨rfl, h.set (Json.loads_of_dumpsWithin hvalue htext)⟩
      | delete key =>
        rw [sqliteCall, SqliteTable.delete_eq_ok haccepted]
        exact ⟨rfl, h.delete⟩

/-- New caches give the same answers in the order of time, whatever `clear_expired` deletes. -/
theorem answers_sqliteCall {calls : List (ℚ × SqliteCall)}
    (hclock : (calls.map Prod.fst).Pairwise (· ≤ ·))
    (haccepted : ∀ c ∈ calls, c.2.Accepted maxDepth sur) :
    answers (sqliteCall maxDepth sur) .empty calls =
      (answers memoryCall .empty (shared SqliteCall.protocol? calls)).map .ok := by
  cases calls with
  | nil => rfl
  | cons c calls =>
    -- new caches agree at every time, so at that of the first call
    apply cache_simulation.answers_eq (t := c.1) _ haccepted agrees_empty
    rw [List.map_cons, List.pairwise_cons] at hclock ⊢
    refine ⟨?_, List.pairwise_cons.mpr hclock⟩
    intro u hu
    rcases List.mem_cons.mp hu with rfl | hu
    · exact le_refl _
    · exact hclock.1 u hu

/-- The calls without `clear_expired`. -/
def protocolCalls (calls : List (ℚ × SqliteCall)) : List (ℚ × SqliteCall) :=
  calls.filter fun c => c.2.protocol?.isSome

theorem shared_protocolCalls (calls : List (ℚ × SqliteCall)) :
    shared SqliteCall.protocol? (protocolCalls calls) = shared SqliteCall.protocol? calls := by
  rw [shared, protocolCalls, List.filterMap_filter, shared]
  congr 1
  funext c
  cases c.2.protocol? with
  | none => rfl
  | some call => rfl

/-- The two caches return the same at every `get`, and `clear_expired` changes no result. -/
theorem caches_answer_alike {calls : List (ℚ × SqliteCall)}
    (hclock : (calls.map Prod.fst).Pairwise (· ≤ ·))
    (haccepted : ∀ c ∈ calls, c.2.Accepted maxDepth sur) :
    answers (sqliteCall maxDepth sur) .empty calls =
        (answers memoryCall .empty (shared SqliteCall.protocol? calls)).map .ok ∧
      answers (sqliteCall maxDepth sur) .empty calls =
        answers (sqliteCall maxDepth sur) .empty (protocolCalls calls) := by
  have hsub : (protocolCalls calls).Sublist calls := List.filter_sublist
  have hboth := answers_sqliteCall hclock haccepted
  have hwithout := answers_sqliteCall (hclock.sublist (hsub.map Prod.fst)) fun c hc =>
    haccepted c (hsub.subset hc)
  rw [shared_protocolCalls] at hwithout
  exact ⟨hboth, hboth.trans hwithout.symm⟩

/-- A value that expires after two seconds, read in its last moment and after it. -/
def expiringCalls : List (ℚ × SqliteCall) :=
  [(0, .protocol (.set "k" (.arr [.null, .bool false, .str ""]) 2)), (2, .protocol (.get "k")),
    (2, .clearExpired), (2, .protocol (.get "k")), (3, .clearExpired), (3, .protocol (.get "k"))]

theorem expiringCalls_alike :
    answers (sqliteCall 1 .replacement) .empty expiringCalls =
        (answers memoryCall .empty (shared SqliteCall.protocol? expiringCalls)).map .ok ∧
      answers (sqliteCall 1 .replacement) .empty expiringCalls =
        answers (sqliteCall 1 .replacement) .empty (protocolCalls expiringCalls) := by
  have hvalue : (Json.arr [.null, .bool false, .str ""]).IsJson := by
    apply Json.IsJson.arr
    simp [Json.IsJson.null, Json.IsJson.bool, Json.IsJson.str]
  apply caches_answer_alike
  · norm_num [expiringCalls]
  · have hkey : PyStr.encodes .replacement "k" = true := by decide
    simp [expiringCalls, SqliteCall.Accepted, hkey, hvalue, Json.dumpsWithin, Json.dumpsError?,
      Json.dumpsItemsError?]

/-! ### Calls that raise -/

/-- A value that is read a second after it was set. -/
def setThenGet (value : Json) : List (ℚ × SqliteCall) :=
  [(0, .protocol (.set "k" value 60)), (1, .protocol (.get "k"))]

/-- What `json.dumps` does not write is not stored, and `InMemoryTTLCache` gives it back. -/
theorem unwritten_lost {value : Json} {error : PyError}
    (h : value.dumpsWithin maxDepth = .error error) :
    answers (sqliteCall maxDepth .none) .empty (setThenGet value) = [.error error, .ok .null] ∧
      answers memoryCall .empty (shared SqliteCall.protocol? (setThenGet value)) = [value] := by
  constructor
  · have hset : SqliteTable.set maxDepth .none .empty 0 "k" value 60 = .error error := by
      rw [SqliteTable.set, h]
      rfl
    have hget : SqliteTable.get maxDepth .none .empty 1 "k" = (.ok .null, .empty) := by
      rw [SqliteTable.get, SqliteTable.bindKey_of_encodes (PyStr.encodes_none _)]
      rfl
    simp [setThenGet, answers, sqliteCall, hset, answerOf, hget]
  · have hget : ((TTLCache.empty.set 0 "k" value 60).get 1 "k").1 = some value := by
      rw [TTLCache.get, TTLCache.store_set_self]
      norm_num
    simp [setThenGet, answers, shared, SqliteCall.protocol?, memoryCall, hget]

/-- An integer of 5001 digits. -/
def longInteger : ℤ := 10 ^ 5000

/-- The two caches answer the `get` of such an integer differently. -/
theorem long_integer_lost :
    answers (sqliteCall 1 .none) .empty (setThenGet (.int longInteger)) =
        [.error .valueError, .ok .null] ∧
      answers memoryCall .empty (shared SqliteCall.protocol? (setThenGet (.int longInteger))) =
        [.int longInteger] := by
  have hlong : ¬ Json.Writable longInteger := by
    rw [Json.Writable, longInteger, Int.natAbs_pow, not_lt]
    apply Nat.pow_le_pow_right
    · decide
    · decide
  apply unwritten_lost
  rw [Json.dumpsWithin, Json.dumpsError?, if_neg hlong]

-- a key with a lone surrogate is refused
example : SqliteTable.get 1 .replacement .empty 0 "\uFFFD" = (.error .unicodeEncodeError, .empty) :=
  rfl

end Verdix
