import Mathlib.Algebra.Order.Ring.Rat
import Mathlib.Logic.Function.Basic

/-!
# The time-bounded cache

`InMemoryTTLCache`; `SQLiteCache` keeps the same entries in a table and hands back the value that was
stored.  An expired entry is dropped by the `get` that meets it.  `peek` is what a `get` would
return, so two caches with the same `peek` cannot be told apart by their users.
-/

namespace Verdix

/-- The value under each key with the time up to which it counts. -/
structure TTLCache (V : Type) where
  store : String → Option (V × ℚ)

namespace TTLCache

variable {V : Type}

def empty : TTLCache V := ⟨fun _ => none⟩

/-- `get(key)` at `now`. -/
def get (c : TTLCache V) (now : ℚ) (key : String) : Option V × TTLCache V :=
  match c.store key with
  | none => (none, c)
  | some (value, expiry) =>
    if expiry < now then (none, ⟨Function.update c.store key none⟩) else (some value, c)

/-- `set(key, value, ttl)` at `now`. -/
def set (c : TTLCache V) (now : ℚ) (key : String) (value : V) (ttl : ℚ) : TTLCache V :=
  ⟨Function.update c.store key (some (value, now + ttl))⟩

/-- `delete(key)`. -/
def delete (c : TTLCache V) (key : String) : TTLCache V :=
  ⟨Function.update c.store key none⟩

/-- What a `get` at `now` returns. -/
def peek (c : TTLCache V) (now : ℚ) (key : String) : Option V := (c.get now key).1

variable {c : TTLCache V} {now t ttl : ℚ} {key k : String} {value v : V} {expiry : ℚ}

theorem peek_eq :
    c.peek now key = (c.store key).bind fun e => if e.2 < now then none else some e.1 := by
  unfold peek get
  split
  · rename_i h
    rw [h]
    rfl
  · rename_i h
    rw [h, Option.bind_some]
    dsimp only
    split
    · rfl
    · rfl

/-- A `get` leaves an entry as it is, or drops it. -/
theorem store_get (h : (c.get now key).2.store k = some (v, expiry)) :
    c.store k = some (v, expiry) := by
  unfold get at h
  split at h
  · exact h
  · split at h
    · dsimp only at h
      by_cases hk : k = key
      · rw [hk, Function.update_self] at h
        contradiction
      · rwa [Function.update_of_ne hk] at h
    · exact h

/-- No later `get` sees that one was made. -/
theorem peek_get (ht : now ≤ t) : (c.get now key).2.peek t k = c.peek t k := by
  unfold get
  split
  · rfl
  · rename_i value expiry hstore
    split
    · rename_i hexpired
      rw [peek_eq, peek_eq]
      dsimp only
      by_cases hk : k = key
      · rw [hk, Function.update_self, hstore, Option.bind_none, Option.bind_some,
          if_pos (lt_of_lt_of_le hexpired ht)]
      · rw [Function.update_of_ne hk]
    · rfl

theorem get_eq_some (h : (c.get now key).1 = some value) :
    ∃ expiry, c.store key = some (value, expiry) ∧ now ≤ expiry ∧ (c.get now key).2 = c := by
  unfold get at h ⊢
  split at h
  · contradiction
  · rename_i hstore
    split at h
    · contradiction
    · rename_i hlive
      obtain rfl := Option.some.inj h
      rw [hstore]
      rw [if_neg hlive]
      exact ⟨_, rfl, not_lt.mp hlive, rfl⟩

/-- A `get` that finds nothing leaves nothing. -/
theorem store_of_get_eq_none (h : (c.get now key).1 = none) :
    (c.get now key).2.store key = none := by
  unfold get at h ⊢
  split at h
  · rename_i hstore
    exact hstore
  · split at h
    · rename_i hexpired
      rw [if_pos hexpired]
      exact Function.update_self ..
    · contradiction

@[simp]
theorem store_set_self : (c.set now key value ttl).store key = some (value, now + ttl) :=
  Function.update_self ..

theorem store_set_of_ne (h : k ≠ key) : (c.set now key value ttl).store k = c.store k :=
  Function.update_of_ne h ..

end TTLCache

end Verdix
