import Verdix.Enrichment.Virustotal
import Verdix.Lib.Except

/-!
# What the VirusTotal client keeps and what it raises

A lookup either answers without the API, from an entry of the cache or with a failure, and then the
cache is as it was; or it fetches a response that can be stored, and then both entries of the
indicator hold it, whatever it is; or the cache raises, and is as it was (`lookup_answer`).
`fetchedBy` is the response a step of a run fetches and stores.
-/

open TransitionSystem

namespace Verdix.Virustotal

variable {fl : FloatArith} {lower : String → String} {cfg : Config} {c c' : Client} {q : Query}

/-! ### Keys -/

theorem cacheKeySuffix_injective : Function.Injective TextIndicator.cacheKeySuffix := by
  intro a b h
  obtain ⟨ta, va⟩ := a
  obtain ⟨tb, vb⟩ := b
  have hchars := congrArg String.toList h
  simp only [TextIndicator.cacheKeySuffix, String.toList_append] at hchars
  -- the names of the types differ in their first letters
  cases ta <;> cases tb <;> simp [Indicators.IndicatorType.text] at hchars ⊢
  all_goals exact String.toList_injective hchars

theorem cacheKey_injective : Function.Injective cacheKey := by
  intro a b h
  exact cacheKeySuffix_injective (String.append_right_inj _ |>.mp h)

theorem staleKey_injective : Function.Injective staleKey := by
  intro a b h
  exact String.append_left_inj _ |>.mp h

/-- The key of an indicator is the backup key of another only through its name. -/
theorem cacheKey_ne_staleKey {a b : TextIndicator} (ha : PyStr.endswith a.value ":stale" = false) :
    cacheKey a ≠ staleKey (cacheKey b) := by
  intro h
  have hsame : cacheKey a = cacheKey ⟨b.type, b.value ++ ":stale"⟩ := by
    rw [h]
    simp only [staleKey, cacheKey, TextIndicator.cacheKeySuffix, String.append_assoc]
  rw [cacheKey_injective hsame, PyStr.endswith_append] at ha
  contradiction

/-- One of the two keys of an indicator. -/
def KeyOf (ind : TextIndicator) (k : String) : Prop :=
  k = cacheKey ind ∨ k = staleKey (cacheKey ind)

/-- Indicators whose names do not end in `:stale` share no key. -/
theorem eq_of_keyOf {a b : TextIndicator} {k : String}
    (ha : PyStr.endswith a.value ":stale" = false) (hb : PyStr.endswith b.value ":stale" = false)
    (hka : KeyOf a k) (hkb : KeyOf b k) : a = b := by
  rcases hka with rfl | rfl
  · rcases hkb with h | h
    · exact cacheKey_injective h
    · exact absurd h (cacheKey_ne_staleKey ha)
  · rcases hkb with h | h
    · exact absurd h.symm (cacheKey_ne_staleKey hb)
    · exact cacheKey_injective (staleKey_injective h)

/-- What is put around the value in a key can always be encoded. -/
theorem encodes_cacheKey (sur : PyStr.Surrogates) (ind : TextIndicator) :
    PyStr.encodes sur (cacheKey ind) = PyStr.encodes sur ind.value := by
  have htype : PyStr.encodes sur ind.type.text = true := by
    apply PyStr.encodes_of_ascii
    cases ind.type <;> decide
  have hsource : PyStr.encodes sur "vt:" = true := PyStr.encodes_of_ascii (by decide)
  have hcolon : PyStr.encodes sur ":" = true := PyStr.encodes_of_ascii (by decide)
  simp [cacheKey, TextIndicator.cacheKeySuffix, htype, hsource, hcolon]

theorem encodes_staleKey (sur : PyStr.Surrogates) (key : String) :
    PyStr.encodes sur (staleKey key) = PyStr.encodes sur key := by
  have hstale : PyStr.encodes sur ":stale" = true := PyStr.encodes_of_ascii (by decide)
  simp [staleKey, hstale]

/-! ### What a lookup does -/

/-- The lookup comes to the cache. -/
def Asks (cfg : Config) (q : Query) : Prop :=
  ¬ (cfg.apiKey = "" ∧ cfg.fixtureLoader.isNone) ∧ isSupported q.indicator.type

instance (cfg : Config) (q : Query) : Decidable (Asks cfg q) :=
  inferInstanceAs (Decidable (¬ (cfg.apiKey = "" ∧ cfg.fixtureLoader.isNone) ∧
    isSupported q.indicator.type))

/-- The cache can be asked for the name that is looked up. -/
def Named (cfg : Config) (q : Query) : Prop :=
  Asks cfg q → PyStr.encodes cfg.surrogates q.indicator.value = true

/-- The response that a lookup is given by the API, if it comes to that. -/
def returned (cfg : Config) (c : Client) (q : Query) : Option Json :=
  if Asks cfg q ∧ PyStr.encodes cfg.surrogates q.indicator.value = true then
    match (c.cache.get q.clock.read (cacheKey q.indicator)).1 with
    | some _ => none
    | none =>
      match (c.breaker.call cfg.breaker q.clock.entered q.clock.ended
          (fetch cfg q.indicator q.reply)).1 with
      | .returned raw => some raw
      | _ => none
  else none

/-- The response a lookup fetches and stores. -/
def fetched (cfg : Config) (c : Client) (q : Query) : Option Json :=
  (returned cfg c q).filter fun raw => (dumpsError? cfg.maxDepth raw).isNone

/-- The cache has at most lost entries that no later `get` would have returned. -/
structure CacheKept (clock : Clock) (cache cache' : TTLCache Entry) : Prop where
  entries : ∀ k e, cache'.store k = some e → cache.store k = some e
  peek : ∀ t k, clock.read ≤ t → clock.later ≤ t → cache'.peek t k = cache.peek t k

theorem CacheKept.refl (clock : Clock) (cache : TTLCache Entry) : CacheKept clock cache cache :=
  ⟨fun _ _ h => h, fun _ _ _ _ => rfl⟩

theorem CacheKept.get {clock : Clock} {cache cache' : TTLCache Entry} {now : ℚ}
    (h : CacheKept clock cache cache') (key : String) (hnow : now = clock.read ∨ now = clock.later) :
    CacheKept clock cache (cache'.get now key).2 where
  entries k e he := h.entries k e (TTLCache.store_get he)
  peek t k hread hlater := by
    have hle : now ≤ t := by
      rcases hnow with rfl | rfl
      · exact hread
      · exact hlater
    rw [TTLCache.peek_get hle, h.peek t k hread hlater]

/-- The cache with a response under both keys. -/
def stored (cfg : Config) (cache : TTLCache Entry) (clock : Clock) (key : String) (raw : Json) :
    TTLCache Entry :=
  (cache.set clock.later key ⟨raw, clock.wall⟩ cfg.cacheTtl).set clock.later (staleKey key)
    ⟨raw, clock.wall⟩ (cfg.cacheTtl * 7 : ℤ)

/-- The ways a lookup ends. -/
inductive Answer (fl : FloatArith) (cfg : Config) (c : Client) (q : Query) :
    Except PyError EnrichmentResult × Client → Prop
  /-- Without a response. -/
  | direct {r : EnrichmentResult} {c' : Client} (hfetched : fetched cfg c q = none)
      (hkept : CacheKept q.clock c.cache c'.cache)
      (hquiet : Named cfg q ∧ returned cfg c q = none) : Answer fl cfg c q (.ok r, c')
  /-- With a response from the cache. -/
  | replay {key : String} {entry : Entry} {expiry : ℚ} {c' : Client}
      (hfetched : fetched cfg c q = none) (hkept : CacheKept q.clock c.cache c'.cache)
      (hquiet : Named cfg q ∧ returned cfg c q = none) (hkey : KeyOf q.indicator key)
      (hstore : c.cache.store key = some (entry, expiry)) :
      Answer fl cfg c q
        (parseVtResponse fl q.clock.now entry.response true (some (age q.clock entry)), c')
  /-- With a response that is then in the cache. -/
  | fresh {raw : Json} {c₁ : Client} (hfetched : fetched cfg c q = some raw)
      (hkept : CacheKept q.clock c.cache c₁.cache) (hname : Named cfg q) :
      Answer fl cfg c q (parseVtResponse fl q.clock.now raw false none,
        { c₁ with cache := stored cfg c₁.cache q.clock (cacheKey q.indicator) raw })
  /-- With the exception of the cache. -/
  | raised {e : PyError} {c' : Client} (hfetched : fetched cfg c q = none)
      (hkept : CacheKept q.clock c.cache c'.cache)
      (hwhy : ¬ Named cfg q ∨
        ∃ raw, returned cfg c q = some raw ∧ dumpsError? cfg.maxDepth raw = some e) :
      Answer fl cfg c q (.error e, c')

variable {key : String} {raw : Json} {clock : Clock}

theorem cacheGet_of_encodes (h : PyStr.encodes cfg.surrogates key = true) (cache : TTLCache Entry)
    (now : ℚ) : cacheGet cfg cache now key = .ok (cache.get now key) := if_pos h

/-- A response that can be written is stored under both keys. -/
theorem store_eq (h : PyStr.encodes cfg.surrogates key = true)
    (hraw : dumpsError? cfg.maxDepth raw = none) :
    store cfg c clock key raw = (none, { c with cache := stored cfg c.cache clock key raw }) := by
  have hset : ∀ (cache : TTLCache Entry) (k : String) (ttl : ℤ),
      PyStr.encodes cfg.surrogates k = true →
        cacheSet cfg cache clock.later k ⟨raw, clock.wall⟩ ttl =
          .ok (cache.set clock.later k ⟨raw, clock.wall⟩ ttl) := by
    intro cache k ttl hk
    unfold cacheSet
    rw [hraw]
    exact if_pos hk
  unfold store
  dsimp only
  rw [hset _ _ _ h]
  dsimp only
  rw [hset _ _ _ ((encodes_staleKey _ _).trans h)]
  rfl

/-- A response that cannot be written is not stored. -/
theorem store_of_dumpsError {e : PyError} (h : dumpsError? cfg.maxDepth raw = some e) :
    store cfg c clock key raw = (some e, c) := by
  have hset : cacheSet cfg c.cache clock.later key ⟨raw, clock.wall⟩ cfg.cacheTtl = .error e := by
    unfold cacheSet
    rw [h]
  unfold store
  dsimp only
  rw [hset]

theorem fetched_of_returned (h : returned cfg c q = none) : fetched cfg c q = none := by
  rw [fetched, h, Option.filter_none]

theorem named_of_cacheKey (h : PyStr.encodes cfg.surrogates (cacheKey q.indicator) = true) :
    Named cfg q := by
  intro _
  rw [← encodes_cacheKey, h]

theorem answer_serveStaleOrFailing {c₁ : Client} {reason : FailureReason} {detail : String}
    (hkey : PyStr.encodes cfg.surrogates (cacheKey q.indicator) = true)
    (hreturned : returned cfg c q = none) (hkept : CacheKept q.clock c.cache c₁.cache) :
    Answer fl cfg c q
      (serveStaleOrFailing fl cfg c₁ q.clock (cacheKey q.indicator) reason detail) := by
  have hkept' := hkept.get (staleKey (cacheKey q.indicator)) (.inr rfl)
  have hfetched := fetched_of_returned hreturned
  have hquiet := And.intro (named_of_cacheKey hkey) hreturned
  unfold serveStaleOrFailing
  rw [cacheGet_of_encodes ((encodes_staleKey _ _).trans hkey)]
  dsimp only
  split
  · rename_i entry hentry
    obtain ⟨expiry, hstore, -, -⟩ := TTLCache.get_eq_some hentry
    exact .replay hfetched hkept' hquiet (.inr rfl) (hkept.entries _ _ hstore)
  · exact .direct hfetched hkept' hquiet

theorem answer_handle {c₁ : Client} {e : VTError}
    (hkey : PyStr.encodes cfg.surrogates (cacheKey q.indicator) = true)
    (hreturned : returned cfg c q = none) (hkept : CacheKept q.clock c.cache c₁.cache) :
    Answer fl cfg c q (handle fl lower cfg c₁ q.clock (cacheKey q.indicator) e) := by
  cases e with
  | auth detail =>
    exact .direct (fetched_of_returned hreturned) hkept ⟨named_of_cacheKey hkey, hreturned⟩
  | rateLimit detail => exact answer_serveStaleOrFailing hkey hreturned hkept
  | transport detail => exact answer_serveStaleOrFailing hkey hreturned hkept
  | other detail => exact answer_serveStaleOrFailing hkey hreturned hkept

/-- A response that the API has given is stored and parsed, or the lookup raises. -/
theorem answer_store {c₁ : Client} (hkey : PyStr.encodes cfg.surrogates (cacheKey q.indicator) = true)
    (hreturned : returned cfg c q = some raw) (hkept : CacheKept q.clock c.cache c₁.cache) :
    Answer fl cfg c q
      (match store cfg c₁ q.clock (cacheKey q.indicator) raw with
        | (some e, c) => (.error e, c)
        | (none, c) => (parseVtResponse fl q.clock.now raw false none, c)) := by
  cases hraw : dumpsError? cfg.maxDepth raw with
  | some e =>
    rw [store_of_dumpsError hraw]
    refine .raised ?_ hkept (.inr ⟨raw, hreturned, hraw⟩)
    rw [fetched, hreturned, Option.filter_some, hraw]
    rfl
  | none =>
    rw [store_eq hkey hraw]
    refine .fresh ?_ hkept (named_of_cacheKey hkey)
    rw [fetched, hreturned, Option.filter_some, hraw]
    rfl

/-- A lookup that does not come to the cache. -/
theorem answer_of_not_asks {r : EnrichmentResult} (h : ¬ Asks cfg q) :
    Answer fl cfg c q (.ok r, c) := by
  have hreturned : returned cfg c q = none := if_neg fun hon => h hon.1
  exact .direct (fetched_of_returned hreturned) (.refl _ _) ⟨fun hasks => absurd hasks h, hreturned⟩

/-- A lookup whose key cannot be encoded ends at the first access to the cache. -/
theorem answer_of_not_encodes (hasks : Asks cfg q)
    (hkey : PyStr.encodes cfg.surrogates (cacheKey q.indicator) = false) :
    Answer fl cfg c q (.error .unicodeEncodeError, c) := by
  rw [encodes_cacheKey] at hkey
  have hreturned : returned cfg c q = none :=
    if_neg fun hon => Bool.false_ne_true (hkey.symm.trans hon.2)
  refine .raised (fetched_of_returned hreturned) (.refl _ _) (.inl fun hnamed => ?_)
  exact Bool.false_ne_true (hkey.symm.trans (hnamed hasks))

/-- A lookup ends in one of these ways. -/
theorem lookup_answer (fl : FloatArith) (lower : String → String) (cfg : Config) (c : Client)
    (q : Query) : Answer fl cfg c q (lookup fl lower cfg c q) := by
  unfold lookup
  split
  · rename_i hapi
    exact answer_of_not_asks fun hasks => hasks.1 hapi
  · rename_i hapi
    split
    · rename_i htype
      exact answer_of_not_asks fun hasks => htype hasks.2
    · rename_i htype
      have hasks : Asks cfg q := ⟨hapi, not_not.mp htype⟩
      dsimp only
      cases hkey : PyStr.encodes cfg.surrogates (cacheKey q.indicator) with
      | false =>
        have hraises : cacheGet cfg c.cache q.clock.read (cacheKey q.indicator) =
            .error .unicodeEncodeError := if_neg (by rw [hkey]; decide)
        rw [hraises]
        exact answer_of_not_encodes hasks hkey
      | true =>
        have hon : Asks cfg q ∧ PyStr.encodes cfg.surrogates q.indicator.value = true :=
          ⟨hasks, named_of_cacheKey hkey hasks⟩
        have hkept := (CacheKept.refl q.clock c.cache).get (cacheKey q.indicator) (.inl rfl)
        rw [cacheGet_of_encodes hkey]
        dsimp only
        split
        · rename_i entry hentry
          obtain ⟨expiry, hstore, -, -⟩ := TTLCache.get_eq_some hentry
          have hreturned : returned cfg c q = none := by rw [returned, if_pos hon, hentry]
          exact .replay (fetched_of_returned hreturned) hkept ⟨named_of_cacheKey hkey, hreturned⟩
            (.inl rfl) hstore
        · rename_i hmiss
          split
          · rename_i e hcall
            refine answer_serveStaleOrFailing hkey ?_ hkept
            rw [returned, if_pos hon, hmiss, hcall]
          · rename_i e hcall
            refine answer_handle hkey ?_ hkept
            rw [returned, if_pos hon, hmiss, hcall]
          · rename_i raw hcall
            refine answer_store hkey ?_ hkept
            rw [returned, if_pos hon, hmiss, hcall]

/-! ### Runs -/

/-- The indicator and the response of a step that fetches and stores one. -/
def fetchedBy (cfg : Config) (m : Move Client Act) : Option (TextIndicator × Json) :=
  match m.act with
  | .lookup q => (fetched cfg m.pre q).map (q.indicator, ·)
  | .restart => none

theorem step_lookup {c c' : Client} {q : Query}
    (h : step fl lower cfg c (.lookup q) = some c') : c' = (lookup fl lower cfg c q).2 :=
  (Option.some.inj h).symm

theorem step_restart {c c' : Client} (h : step fl lower cfg c .restart = some c') :
    c' = { c with breaker := .init } :=
  (Option.some.inj h).symm

/-- The entries that a store leaves. -/
theorem store_stored {cache : TTLCache Entry} {ind : TextIndicator} {k : String} {e : Entry × ℚ}
    (h : (stored cfg cache clock (cacheKey ind) raw).store k = some e) :
    KeyOf ind k ∧ e.1.response = raw ∨ ¬ KeyOf ind k ∧ cache.store k = some e := by
  unfold stored at h
  by_cases hstale : k = staleKey (cacheKey ind)
  · rw [hstale, TTLCache.store_set_self] at h
    obtain rfl := Option.some.inj h
    exact .inl ⟨.inr hstale, rfl⟩
  · rw [TTLCache.store_set_of_ne hstale] at h
    by_cases hkey : k = cacheKey ind
    · rw [hkey, TTLCache.store_set_self] at h
      obtain rfl := Option.some.inj h
      exact .inl ⟨.inl hkey, rfl⟩
    · rw [TTLCache.store_set_of_ne hkey] at h
      exact .inr ⟨fun hk => hk.elim hkey hstale, h⟩

/-- After a store the backup of the indicator is the response stored. -/
theorem store_staleKey (cfg : Config) (cache : TTLCache Entry) (clock : Clock) (ind : TextIndicator)
    (raw : Json) :
    ∃ e, (stored cfg cache clock (cacheKey ind) raw).store (staleKey (cacheKey ind)) = some e ∧
      e.1.response = raw := by
  unfold stored
  rw [TTLCache.store_set_self]
  exact ⟨_, rfl, rfl⟩

/-! ### Samples -/

/-- Float arithmetic for responses without floats. -/
def noFloats : FloatArith := ⟨fun _ _ => "nan", fun _ => "nan", fun _ _ => false, fun _ _ => false⟩

def sampleConfig : Config := ⟨"key", none, ⟨5, 60⟩, 86400, 9, .replacement⟩

/-- A lookup of an address at `t`, answered with status 200 and a body. -/
def sampleQuery (t : ℚ) (body : Json) : Query where
  indicator := ⟨.ip, "198.51.100.7"⟩
  reply := .response 200 (.ok body)
  clock := ⟨t, t, t, t, t, .yearOne⟩

/-- A body with some analysis stats. -/
def sampleBody (stats : Json) : Json :=
  .obj [("data", .obj [("attributes", .obj [("last_analysis_stats", stats)])])]

end Verdix.Virustotal
