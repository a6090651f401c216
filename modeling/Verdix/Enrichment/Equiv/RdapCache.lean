import Verdix.Enrichment.Equiv.Rdap

/-!
# What the cache of the RDAP client replays

A response is parsed when it is fetched, and the days since the registration and to the expiry are
stored with it; a hit reports them as they were, with an age of zero seconds.  `fresh_hits_iff`: in a
run every hit reports what a fresh parse of the response would, and its age, exactly when each comes
within a second of the fetch and neither number of days has changed.
-/

open TransitionSystem

namespace Verdix.Rdap

variable {lib : Library} {cfg : BreakerConfig} {c c' : Client} {q : Query}
  {tr : List (Move Client Act)} {s s' : Client} {t t₁ t₂ : Datetime} {raw : Json}

/-! ### Parsing at a time -/

/-- The whole days since the registration. -/
def ageDaysAt (reg : Registration) (t : Datetime) : Option ℤ :=
  reg.registered.bind fun date => date.instant.map fun i => daysBetween t.micros i

/-- The whole days to the expiry. -/
def expiryDaysAt (reg : Registration) (t : Datetime) : Option ℤ :=
  reg.expires.bind fun date => date.instant.map fun i => daysBetween i t.micros

/-- The data of a registration as of `t`. -/
def dataAt (reg : Registration) (t : Datetime) : RdapData where
  registrationDate := reg.registered.map IsoDate.isoformat
  expiryDate := reg.expires.map IsoDate.isoformat
  registrar := reg.registrar
  ageDays := ageDaysAt reg t
  expiryDays := expiryDaysAt reg t

/-- The dates have time zones. -/
def Aware (reg : Registration) : Prop :=
  (∀ date, reg.registered = some date → date.instant.isSome) ∧
    ∀ date, reg.expires = some date → date.instant.isSome

/-- Days can be counted iff the date has an instant. -/
theorem mapM_instants {date : Option IsoDate} {f : ℤ → ℤ} {days : Option ℤ} :
    (date.mapM fun d => (instantOf d).map f) = .ok days ↔
      (∀ d, date = some d → d.instant.isSome) ∧
        days = date.bind fun d => d.instant.map f := by
  cases date with
  | none =>
    constructor
    · intro h
      exact ⟨fun d hd => (by cases hd), (Except.ok.inj h).symm⟩
    · rintro ⟨-, rfl⟩
      rfl
  | some d =>
    rcases d with ⟨instant, text⟩
    cases instant with
    | none =>
      constructor
      · intro h
        cases h
      · rintro ⟨haware, -⟩
        cases haware _ rfl
    | some i =>
      constructor
      · intro h
        exact ⟨fun d hd => by obtain rfl := Option.some.inj hd; rfl, (Except.ok.inj h).symm⟩
      · rintro ⟨-, rfl⟩
        rfl

/-- What a response parses to depends on the time through the two numbers of days only. -/
theorem parseRdap_eq_ok {data : RdapData} :
    parseRdap lib t raw = .ok data ↔
      ∃ reg, readRegistration lib raw = .ok reg ∧ Aware reg ∧ data = dataAt reg t := by
  unfold parseRdap
  rw [Except.bind_eq_ok]
  refine exists_congr fun reg => and_congr_right' ?_
  constructor
  · intro h
    obtain ⟨age, hage, h⟩ := Except.bind_eq_ok.mp h
    obtain ⟨expiry, hexpiry, h⟩ := Except.bind_eq_ok.mp h
    obtain ⟨hreg, rfl⟩ := mapM_instants.mp hage
    obtain ⟨hexp, rfl⟩ := mapM_instants.mp hexpiry
    exact ⟨⟨hreg, hexp⟩, (Except.ok.inj h).symm⟩
  · rintro ⟨⟨hreg, hexp⟩, rfl⟩
    rw [Except.bind_eq_ok]
    refine ⟨ageDaysAt reg t, mapM_instants.mpr ⟨hreg, rfl⟩, ?_⟩
    rw [Except.bind_eq_ok]
    exact ⟨expiryDaysAt reg t, mapM_instants.mpr ⟨hexp, rfl⟩, rfl⟩

/-! ### Fetches -/

/-- What a fetch got: a response, or that the domain is not registered. -/
inductive Response
  | object (raw : Json)
  | notFound

/-- The key, the time and the response of a step that fetches one. -/
def storedBy (lib : Library) (cfg : BreakerConfig) (m : Move Client Act) :
    Option (String × Datetime × Response) :=
  match m.act with
  | .lookup q =>
    if Asks lib cfg m.pre q then
      match (fetched lib m.pre q).1, q.reply with
      | .ok _, .response _ (.ok raw) => some (keyOf lib q, q.clock.now, .object raw)
      | .error .notFound, _ => some (keyOf lib q, q.clock.now, .notFound)
      | _, _ => none
    else
      none
  | .restart => none

/-- The last fetch for a key. -/
def lastFetch (lib : Library) (cfg : BreakerConfig) (tr : List (Move Client Act)) (key : String) :
    Option (Datetime × Response) :=
  lastUnder (storedBy lib cfg) tr key

/-- The members that are stored for a response fetched at `t`. -/
inductive Stored (lib : Library) (t : Datetime) : Response → List (String × Json) → Prop
  | object {raw : Json} {data : RdapData} (h : parseRdap lib t raw = .ok data) :
      Stored lib t (.object raw) (payload data.members)
  | notFound : Stored lib t .notFound (payload notFoundData)

/-- Every entry of a domain is that of its last fetch. -/
def HoldsFetches (lib : Library) (cfg : BreakerConfig) (tr : List (Move Client Act)) (c : Client) :
    Prop :=
  ∀ key v expiry, key ≠ RdapBootstrap.cacheKey → c.cache.store key = some (v, expiry) →
    ∃ t resp members, lastFetch lib cfg tr key = some (t, resp) ∧ v = .obj members ∧
      Stored lib t resp members

/-! ### What the bootstrap does to the cache -/

/-- Looking for the registries stores nothing under another key. -/
theorem getTldMap_entries {state : RdapBootstrap.State} {now : ℚ} {reply : Option Json}
    {key : String} {e : Json × ℚ} (hkey : key ≠ RdapBootstrap.cacheKey)
    (h : (RdapBootstrap.getTldMap lib.lower state now reply).2.cache.store key = some e) :
    state.cache.store key = some e := by
  unfold RdapBootstrap.getTldMap at h
  split at h
  · exact h
  · dsimp only at h
    split at h
    · exact TTLCache.store_get h
    · split at h
      · exact TTLCache.store_get h
      · rw [TTLCache.store_set_of_ne hkey] at h
        exact TTLCache.store_get h

/-- Nor does the base URL of a domain. -/
theorem getBaseUrl_entries {state : RdapBootstrap.State} {now : ℚ} {reply : Option Json}
    {domain key : String} {e : Json × ℚ} (hkey : key ≠ RdapBootstrap.cacheKey)
    (h : (RdapBootstrap.getBaseUrl lib.lower state now reply domain).2.cache.store key = some e) :
    state.cache.store key = some e := by
  unfold RdapBootstrap.getBaseUrl at h
  split at h
  · exact h
  · split at h
    · exact h
    · exact getTldMap_entries hkey h

/-- `_fetch` leaves the state to the bootstrap, and what it comes to is the registry's answer, or an
error of its own when there is no registry. -/
theorem fetch_spec (state : RdapBootstrap.State) (q : Query) (domain : String) :
    (fetch lib state q domain).2 =
        (RdapBootstrap.getBaseUrl lib.lower state q.clock.fetching q.bootstrap domain).2 ∧
      ((∃ e, (fetch lib state q domain).1 = .error e ∧ e ≠ .notFound) ∨
        (RdapBootstrap.extractTld lib.lower domain ≠ none ∧
          ∃ url, (fetch lib state q domain).1 = readReply lib q.clock.now url q.reply)) := by
  have hnone : RdapBootstrap.extractTld lib.lower domain = none →
      (RdapBootstrap.getBaseUrl lib.lower state q.clock.fetching q.bootstrap domain).1 =
        .ok .null := by
    intro htld
    unfold RdapBootstrap.getBaseUrl
    rw [htld]
  unfold fetch
  generalize RdapBootstrap.getBaseUrl lib.lower state q.clock.fetching q.bootstrap domain = b
    at hnone
  rcases b with ⟨baseUrl, after⟩
  cases baseUrl with
  | error e => exact ⟨rfl, .inl ⟨_, rfl, by simp⟩⟩
  | ok baseUrl =>
    dsimp only at hnone ⊢
    by_cases htruthy : baseUrl.truthy
    · rw [if_neg (not_not_intro htruthy)]
      have htld : RdapBootstrap.extractTld lib.lower domain ≠ none := by
        intro htld
        obtain rfl := Except.ok.inj (hnone htld)
        cases htruthy
      cases baseUrl with
      | str base => exact ⟨rfl, .inr ⟨htld, _, rfl⟩⟩
      | _ => exact ⟨rfl, .inl ⟨_, rfl, by simp⟩⟩
    · rw [if_pos htruthy]
      exact ⟨rfl, .inl ⟨_, rfl, by simp⟩⟩

/-- `_fetch` leaves the entries of the domains alone. -/
theorem fetched_entries {key : String} {e : Json × ℚ} (hkey : key ≠ RdapBootstrap.cacheKey)
    (h : (fetched lib c q).2.cache.store key = some e) : c.cache.store key = some e := by
  unfold fetched at h
  rw [(fetch_spec _ _ _).1] at h
  have hfound : (found lib c q).store key = some e := getBaseUrl_entries hkey h
  exact TTLCache.store_get hfound

/-! ### What a fetch brings -/

/-- A registration comes from a JSON body that is parsed. -/
theorem readReply_eq_ok {url : String} {reply : HttpReply} {data : RdapData}
    (h : readReply lib t url reply = .ok data) :
    ∃ status raw, reply = .response status (.ok raw) ∧ parseRdap lib t raw = .ok data := by
  cases reply with
  | raised etype text =>
    simp only [readReply] at h
    split at h
    · cases h
    · cases h
  | response status body =>
    simp only [readReply] at h
    split at h
    · cases h
    · split at h
      · cases h
      · cases body with
        | error text => cases h
        | ok raw =>
          dsimp only at h
          cases hparse : parseRdap lib t raw with
          | error e =>
            rw [hparse] at h
            cases h
          | ok data' =>
            rw [hparse] at h
            obtain rfl := Except.ok.inj h
            exact ⟨status, raw, rfl, hparse⟩

/-- A `_fetch` that gets an answer about the domain has asked a registry. -/
theorem fetched_asks
    (h : (∃ data, (fetched lib c q).1 = .ok data) ∨ (fetched lib c q).1 = .error .notFound) :
    RdapBootstrap.extractTld lib.lower (normaliseDomain lib q.indicator.value) ≠ none ∧
      ∃ url, (fetched lib c q).1 = readReply lib q.clock.now url q.reply := by
  unfold fetched at h ⊢
  rcases (fetch_spec _ q _).2 with ⟨e, he, hne⟩ | hasked
  · rw [he] at h
    rcases h with ⟨data, h⟩ | h
    · cases h
    · exact absurd (Except.error.inj h) hne
  · exact hasked

theorem fetched_eq_ok {data : RdapData} {state : RdapBootstrap.State}
    (h : fetched lib c q = (.ok data, state)) :
    ∃ status raw, q.reply = .response status (.ok raw) ∧
      parseRdap lib q.clock.now raw = .ok data := by
  have hok : (fetched lib c q).1 = .ok data := by rw [h]
  obtain ⟨-, url, hurl⟩ := fetched_asks (.inl ⟨data, hok⟩)
  exact readReply_eq_ok (hurl ▸ hok)

/-- No domain that has an answer shares its key with the map of the bootstrap. -/
theorem keyOf_ne (hlower : lib.lower "bootstrap" = "bootstrap")
    (h : (∃ data, (fetched lib c q).1 = .ok data) ∨ (fetched lib c q).1 = .error .notFound) :
    keyOf lib q ≠ RdapBootstrap.cacheKey := by
  intro hkey
  have hsplit : RdapBootstrap.cacheKey = "rdap:" ++ "bootstrap" := by decide
  have hdomain : normaliseDomain lib q.indicator.value = "bootstrap" := by
    rw [hsplit] at hkey
    unfold keyOf cacheKey at hkey
    simpa only [String.append_right_inj] using hkey
  apply (fetched_asks h).1
  rw [hdomain]
  unfold RdapBootstrap.extractTld
  rw [hlower]
  decide

/-- A registration is stored under the key of its domain. -/
theorem storedBy_registered {data : RdapData} {state : RdapBootstrap.State} {status : ℕ}
    (hasks : Asks lib cfg s q) (hfetch : fetched lib s q = (.ok data, state))
    (hreply : q.reply = .response status (.ok raw)) :
    storedBy lib cfg ⟨s, .lookup q, s'⟩ = some (keyOf lib q, q.clock.now, .object raw) := by
  unfold storedBy
  dsimp only
  rw [if_pos hasks, hfetch, hreply]

/-- So is the answer that there is none. -/
theorem storedBy_unregistered {state : RdapBootstrap.State} (hasks : Asks lib cfg s q)
    (hfetch : fetched lib s q = (.error .notFound, state)) :
    storedBy lib cfg ⟨s, .lookup q, s'⟩ = some (keyOf lib q, q.clock.now, .notFound) := by
  unfold storedBy
  dsimp only
  rw [if_pos hasks, hfetch]

/-- After another error nothing is stored. -/
theorem storedBy_failed {e : RdapError} {state : RdapBootstrap.State}
    (hasks : Asks lib cfg s q) (hfetch : fetched lib s q = (.error e, state))
    (he : e ≠ .notFound) : storedBy lib cfg ⟨s, .lookup q, s'⟩ = none := by
  unfold storedBy
  dsimp only
  rw [if_pos hasks, hfetch]
  cases e with
  | notFound => exact absurd rfl he
  | timeout detail => rfl
  | network detail => rfl
  | other detail => rfl

theorem storedBy_of_not_asks (h : ¬ Asks lib cfg s q) :
    storedBy lib cfg ⟨s, .lookup q, s'⟩ = none := by
  unfold storedBy
  exact if_neg h

/-! ### The entries along a run -/

/-- A step that stores nothing under the key of a domain keeps the entries. -/
theorem HoldsFetches.keep {m : Move Client Act} (hI : HoldsFetches lib cfg tr s)
    (hm : storedBy lib cfg m = none)
    (hstore : ∀ key e, key ≠ RdapBootstrap.cacheKey → s'.cache.store key = some e →
      s.cache.store key = some e) :
    HoldsFetches lib cfg (tr ++ [m]) s' := by
  intro key v expiry hkey hv
  unfold lastFetch
  rw [lastUnder_snoc_of_none hm]
  exact hI key v expiry hkey (hstore key _ hkey hv)

/-- So does one that stores what it fetches. -/
theorem HoldsFetches.put {m : Move Client Act} {resp : Response} {members : List (String × Json)}
    {cache : TTLCache Json} {now ttl : ℚ} {k : String} (hI : HoldsFetches lib cfg tr s)
    (hm : storedBy lib cfg m = some (k, t, resp)) (hresp : Stored lib t resp members)
    (hcache : s'.cache = cache.set now k (.obj members) ttl)
    (hstore : ∀ key e, key ≠ RdapBootstrap.cacheKey → cache.store key = some e →
      s.cache.store key = some e) :
    HoldsFetches lib cfg (tr ++ [m]) s' := by
  intro key v expiry hkey hv
  unfold lastFetch
  rw [lastUnder_snoc_of_some hm]
  rw [hcache] at hv
  by_cases heq : k = key
  · rw [if_pos heq]
    rw [← heq, TTLCache.store_set_self] at hv
    have hmembers : v = .obj members := (congrArg Prod.fst (Option.some.inj hv)).symm
    exact ⟨t, resp, members, rfl, hmembers, hresp⟩
  · rw [if_neg heq]
    rw [TTLCache.store_set_of_ne (Ne.symm heq)] at hv
    exact hI key v expiry hkey (hstore key _ hkey hv)

/-- After a lookup the cache holds what has been fetched. -/
theorem HoldsFetches.next (hI : HoldsFetches lib cfg tr s)
    (hstep : step lib cfg s (.lookup q) = some s') :
    HoldsFetches lib cfg (tr ++ [⟨s, .lookup q, s'⟩]) s' := by
  have hs' := step_lookup hstep
  have hans := lookup_answer lib cfg s q
  have hfound : ∀ key e, key ≠ RdapBootstrap.cacheKey →
      (found lib s q).store key = some e → s.cache.store key = some e :=
    fun key e _ h => TTLCache.store_get h
  -- the fetch may drop or add the table of the registries, no other entry
  have hentries : ∀ result state, fetched lib s q = (result, state) → ∀ key e,
      key ≠ RdapBootstrap.cacheKey → state.cache.store key = some e →
        s.cache.store key = some e := by
    intro result state hfetch key e hkey h
    apply fetched_entries hkey
    rw [hfetch]
    exact h
  generalize lookup lib cfg s q = res at hans hs'
  cases hans with
  | notConfigured htype =>
    apply hI.keep (storedBy_of_not_asks (not_asks_of_type htype))
    rw [hs']
    exact fun _ _ _ h => h
  | hit htype hget =>
    apply hI.keep (storedBy_of_not_asks (not_asks_of_get hget))
    rw [hs']
    exact hfound
  | foreign htype hget =>
    apply hI.keep (storedBy_of_not_asks (not_asks_of_get hget))
    rw [hs']
    exact hfound
  | refused hmiss henter =>
    apply hI.keep (storedBy_of_not_asks (not_asks_of_refused henter))
    rw [hs']
    exact hfound
  | registered hmiss henter hfetch =>
    obtain ⟨status, raw, hreply, hparse⟩ := fetched_eq_ok hfetch
    exact hI.put (storedBy_registered (asks_of_enter hmiss henter) hfetch hreply) (.object hparse)
      (by rw [hs']) (hentries _ _ hfetch)
  | unregistered hmiss henter hfetch =>
    exact hI.put (storedBy_unregistered (asks_of_enter hmiss henter) hfetch) .notFound
      (by rw [hs']) (hentries _ _ hfetch)
  | failed hmiss henter hfetch he =>
    apply hI.keep (storedBy_failed (asks_of_enter hmiss henter) hfetch he)
    rw [hs']
    exact hentries _ _ hfetch

/-- Along every run the entries of the domains are those of their last fetches. -/
theorem holdsFetches (h : Run (step lib cfg) init tr s) : HoldsFetches lib cfg tr s := by
  refine h.history (P := fun tr s => HoldsFetches lib cfg tr s) ?_ ?_
  · intro key v expiry _ hv
    cases hv
  · intro tr s a s' _ hI hstep
    cases a with
    | lookup q => exact hI.next hstep
    | restart =>
      apply hI.keep rfl
      rw [step_restart hstep]
      exact fun _ _ _ h => h

/-- A key under which something was fetched is that of a domain. -/
theorem key_of_lastFetch (hlower : lib.lower "bootstrap" = "bootstrap") {key : String}
    {f : Datetime × Response} (h : lastFetch lib cfg tr key = some f) :
    key ≠ RdapBootstrap.cacheKey := by
  obtain ⟨m, -, hm⟩ := exists_of_lastUnder h
  rcases m with ⟨s, a, s'⟩
  cases a with
  | restart => cases hm
  | lookup q =>
    unfold storedBy at hm
    dsimp only at hm
    split at hm
    · split at hm
      · rename_i hok _
        obtain rfl := congrArg Prod.fst (Option.some.inj hm)
        exact keyOf_ne hlower (.inl ⟨_, hok⟩)
      · rename_i hnot
        obtain rfl := congrArg Prod.fst (Option.some.inj hm)
        exact keyOf_ne hlower (.inr hnot)
      · cases hm
    · cases hm

/-! ### Reports -/

/-- The summary of a registration. -/
def summaryText (lib : Library) (data : RdapData) : String :=
  let parts :=
    (data.ageDays.elim [] fun n => ["registered " ++ lib.str (.int n) ++ " days ago"]) ++
      (data.registrar.elim [] fun r => if r = "" then [] else ["via " ++ lib.str (.str r)]) ++
      (data.expiryDays.elim [] fun n =>
        if n ≤ 90 then ["expires in " ++ lib.str (.int n) ++ " days"] else [])
  if parts = [] then "registration data available" else String.intercalate " " parts

theorem member_payload_of_ne {data : List (String × Json)} {key : String} (h : key ≠ "_age_s") :
    Json.member (payload data) key = Json.member data key := by
  unfold payload Json.member Json.lookup
  rw [List.find?_append, List.find?_cons_of_neg (by simpa using Ne.symm h), List.find?_nil,
    Option.or_none]

theorem ageSeconds_payload (data : RdapData) : ageSeconds (payload data.members) = some 0 := rfl

theorem ageSeconds_notFound : ageSeconds (payload notFoundData) = some 0 := rfl

section Members

variable (data : RdapData)

theorem member_notFound : Json.member data.members "not_found" = .null := rfl

theorem member_ageDays : Json.member data.members "age_days" = data.ageDays.elim .null .int := rfl

theorem member_expiryDays :
    Json.member data.members "expiry_days" = data.expiryDays.elim .null .int := rfl

theorem member_registrar :
    Json.member data.members "registrar" = data.registrar.elim .null .str := rfl

end Members

/-- The summary of the fields is that of the parsed registration. -/
theorem summaryOf_members (data : RdapData) :
    summaryOf lib data.members = .ok (summaryText lib data) := by
  unfold summaryOf
  rw [member_ageDays, member_expiryDays, member_registrar]
  rcases data with ⟨_, _, registrar, ageDays, expiryDays⟩
  unfold summaryText
  have hregistrar : (if (registrar.elim Json.null Json.str).truthy then
      ["via " ++ lib.str (registrar.elim .null .str)] else []) =
        registrar.elim [] fun r => if r = "" then [] else ["via " ++ lib.str (.str r)] := by
    cases registrar with
    | none => rfl
    | some r => by_cases hr : r = "" <;> simp [Json.truthy, hr]
  have hage : (if (ageDays.elim Json.null Json.int).isNull then [] else
      ["registered " ++ lib.str (ageDays.elim .null .int) ++ " days ago"]) =
        ageDays.elim [] fun n => ["registered " ++ lib.str (.int n) ++ " days ago"] := by
    cases ageDays with
    | none => rfl
    | some n => rfl
  dsimp only
  rw [hregistrar, hage]
  cases expiryDays with
  | none => rfl
  | some n =>
    have hsoon : atMostNinety (.int n) = .ok (decide (n ≤ 90)) := rfl
    split
    · rename_i hnull
      cases hnull
    · rw [Option.elim_some, hsoon, Except.bind_eq_ok]
      refine ⟨_, rfl, ?_⟩
      simp only [decide_eq_true_eq]
      rfl

/-- The result of a registration depends on its fields but for `_age_s`. -/
theorem buildResult_registered {members : List (String × Json)} {data : RdapData} {cached : Bool}
    {seconds : Option ℤ}
    (h : ∀ key, key ≠ "_age_s" → Json.member members key = Json.member data.members key) :
    buildResult lib t members cached seconds =
      .ok (.contributed t source members (summaryText lib data) cached seconds) := by
  have hfound : ¬ (Json.member members "not_found").truthy := by
    rw [h "not_found" (by decide), member_notFound]
    decide
  have hsummary : summaryOf lib members = summaryOf lib data.members := by
    unfold summaryOf
    rw [h "age_days" (by decide), h "registrar" (by decide), h "expiry_days" (by decide)]
  unfold buildResult
  rw [if_neg hfound, hsummary, summaryOf_members]
  rfl

/-- The whole seconds from one time to a later one. -/
def wholeSeconds (t₁ t₂ : Datetime) : ℤ := ((t₂.micros : ℤ) - t₁.micros) / usPerSecond

/-- The age is `0` iff less than a second has passed. -/
theorem wholeSeconds_eq_zero (h : t₁ ≤ t₂) :
    wholeSeconds t₁ t₂ = 0 ↔ t₂.micros < t₁.micros + usPerSecond := by
  have hle : t₁.micros ≤ t₂.micros := h
  unfold wholeSeconds usPerSecond
  omega

/-- What a lookup at `t₂` reports that parses the response of `t₁` anew and knows its age. -/
def freshResult (lib : Library) (t₁ t₂ : Datetime) : Response → Except PyError EnrichmentResult
  | .object raw => do
    let data ← parseRdap lib t₂ raw
    buildResult lib t₂ data.members true (some (wholeSeconds t₁ t₂))
  | .notFound => buildResult lib t₂ notFoundData true (some (wholeSeconds t₁ t₂))

theorem freshResult_object {data : RdapData} (h : parseRdap lib t₂ raw = .ok data) :
    freshResult lib t₁ t₂ (.object raw) =
      .ok (.contributed t₂ source data.members (summaryText lib data) true
        (some (wholeSeconds t₁ t₂))) := by
  unfold freshResult
  dsimp only
  rw [h]
  exact buildResult_registered fun _ _ => rfl

/-- Two results say the same, the mark of the cache in the data aside. -/
structure SameReport (r r' : EnrichmentResult) : Prop where
  data : ∀ key, key ≠ "_age_s" →
    (r.data.map fun d => Json.member d key) = r'.data.map fun d => Json.member d key
  rest : { r with data := none } = { r' with data := none }

/-- A lookup reports what a fresh parse of the response of `t` would. -/
def ReportsFresh (lib : Library) (cfg : BreakerConfig) (c : Client) (q : Query) (t : Datetime)
    (resp : Response) : Prop :=
  ∃ r r', (lookup lib cfg c q).1 = .ok r ∧ freshResult lib t q.clock.now resp = .ok r' ∧
    SameReport r r'

/-- The numbers of days of a response are the same at both times. -/
def SameDays (lib : Library) (t₁ t₂ : Datetime) : Response → Prop
  | .object raw => ∀ reg, readRegistration lib raw = .ok reg →
      ageDaysAt reg t₁ = ageDaysAt reg t₂ ∧ expiryDaysAt reg t₁ = expiryDaysAt reg t₂
  | .notFound => True

/-- The response of `t` is not a second old, and no number of days has changed. -/
def Unchanged (lib : Library) (q : Query) (t : Datetime) (resp : Response) : Prop :=
  q.clock.now.micros < t.micros + usPerSecond ∧ SameDays lib t q.clock.now resp

/-- The stored fields are those of a later parse iff both numbers of days are. -/
theorem payload_dataAt_iff {reg : Registration} :
    (∀ key, key ≠ "_age_s" → Json.member (payload (dataAt reg t₁).members) key =
        Json.member (dataAt reg t₂).members key) ↔
      ageDaysAt reg t₁ = ageDaysAt reg t₂ ∧ expiryDaysAt reg t₁ = expiryDaysAt reg t₂ := by
  have hinj : ∀ {a b : Option ℤ}, a.elim Json.null Json.int = b.elim .null .int → a = b := by
    intro a b h
    cases a with
    | none =>
      cases b with
      | none => rfl
      | some n => cases h
    | some m =>
      cases b with
      | none => cases h
      | some n => exact congrArg some (Json.int.inj h)
  constructor
  · intro h
    have hage := h "age_days" (by decide)
    have hexpiry := h "expiry_days" (by decide)
    rw [member_payload_of_ne (by decide), member_ageDays, member_ageDays] at hage
    rw [member_payload_of_ne (by decide), member_expiryDays, member_expiryDays] at hexpiry
    exact ⟨hinj hage, hinj hexpiry⟩
  · rintro ⟨hage, hexpiry⟩ key hkey
    rw [member_payload_of_ne hkey]
    unfold dataAt
    rw [hage, hexpiry]

/-- A hit is answered from the stored fields. -/
theorem lookup_of_hit {members : List (String × Json)} (htype : q.indicator.type = .domain)
    (hget : (c.cache.get q.clock.read (keyOf lib q)).1 = some (.obj members)) :
    (lookup lib cfg c q).1 = buildResult lib q.clock.now members true (ageSeconds members) := by
  unfold keyOf at hget
  unfold lookup
  rw [if_neg (not_not_intro htype)]
  dsimp only
  rw [hget]

/-- Two results of hits agree when their ages, data and summaries do. -/
theorem sameReport_iff {d d' : List (String × Json)} {text text' : String} {m n : ℤ}
    (htext : (∀ key, key ≠ "_age_s" → Json.member d key = Json.member d' key) → text = text') :
    SameReport (.contributed t source d text true (some m))
        (.contributed t source d' text' true (some n)) ↔
      m = n ∧ ∀ key, key ≠ "_age_s" → Json.member d key = Json.member d' key := by
  constructor
  · rintro ⟨hdata, hrest⟩
    have hage := congrArg EnrichmentResult.cacheAgeSeconds hrest
    exact ⟨Option.some.inj hage, fun key hkey => Option.some.inj (hdata key hkey)⟩
  · rintro ⟨rfl, hdata⟩
    refine ⟨fun key hkey => congrArg some (hdata key hkey), ?_⟩
    rw [htext hdata]
    rfl

/-- A hit reports an age of zero and the days as they were. -/
theorem reportsFresh_iff {members : List (String × Json)} {resp : Response}
    (htype : q.indicator.type = .domain)
    (hget : (c.cache.get q.clock.read (keyOf lib q)).1 = some (.obj members))
    (hstored : Stored lib t resp members) (ht : t ≤ q.clock.now) :
    ReportsFresh lib cfg c q t resp ↔ Unchanged lib q t resp := by
  have hlookup : (lookup lib cfg c q).1 = _ := lookup_of_hit htype hget
  -- both results are there, so the property compares these two
  have hiff : ∀ r r', (lookup lib cfg c q).1 = .ok r →
      freshResult lib t q.clock.now resp = .ok r' →
        (ReportsFresh lib cfg c q t resp ↔ SameReport r r') := by
    intro r r' hr hr'
    constructor
    · rintro ⟨r₁, r₁', hr₁, hr₁', hsame⟩
      obtain rfl := Except.ok.inj (hr.symm.trans hr₁)
      obtain rfl := Except.ok.inj (hr'.symm.trans hr₁')
      exact hsame
    · intro hsame
      exact ⟨r, r', hr, hr', hsame⟩
  unfold Unchanged
  rw [← wholeSeconds_eq_zero ht, eq_comm (a := wholeSeconds t q.clock.now)]
  cases hstored with
  | notFound =>
    rw [ageSeconds_notFound] at hlookup
    rw [hiff _ _ hlookup rfl]
    refine (sameReport_iff fun _ => rfl).trans (and_congr_right' ?_)
    exact iff_of_true (fun key hkey => member_payload_of_ne hkey) trivial
  | @object raw data hparse =>
    obtain ⟨reg, hreg, haware, rfl⟩ := parseRdap_eq_ok.mp hparse
    -- the response is parsed again without a failure
    have hagain : parseRdap lib q.clock.now raw = .ok (dataAt reg q.clock.now) :=
      parseRdap_eq_ok.mpr ⟨reg, hreg, haware, rfl⟩
    rw [ageSeconds_payload, buildResult_registered fun key hkey => member_payload_of_ne hkey]
      at hlookup
    rw [hiff _ _ hlookup (freshResult_object hagain)]
    have hsame : SameDays lib t q.clock.now (.object raw) ↔
        ageDaysAt reg t = ageDaysAt reg q.clock.now ∧
          expiryDaysAt reg t = expiryDaysAt reg q.clock.now := by
      constructor
      · intro h
        exact h reg hreg
      · intro h reg' hreg'
        obtain rfl := Except.ok.inj (hreg.symm.trans hreg')
        exact h
    rw [hsame, ← payload_dataAt_iff]
    refine sameReport_iff fun hmembers => ?_
    obtain ⟨hage, hexpiry⟩ := payload_dataAt_iff.mp hmembers
    unfold dataAt
    rw [hage, hexpiry]

/-! ### Runs -/

/-- `P` holds of every lookup that the cache answers with what was fetched earlier. -/
def EveryHit (lib : Library) (cfg : BreakerConfig) (P : Client → Query → Datetime → Response → Prop)
    (before : List (Move Client Act)) (m : Move Client Act) : Prop :=
  match m.act with
  | .lookup q => ∀ t resp, lastFetch lib cfg before (keyOf lib q) = some (t, resp) →
      q.indicator.type = .domain → ¬ Misses lib m.pre q → t ≤ q.clock.now → P m.pre q t resp
  | .restart => True

/-- In every run each hit reports what a fresh parse of the response would, and its age in seconds,
exactly when each comes within a second of the fetch, and neither the days since the registration nor
those to the expiry have changed. -/
theorem fresh_hits_iff (hlower : lib.lower "bootstrap" = "bootstrap")
    (h : Run (step lib cfg) init tr s) :
    Throughout (EveryHit lib cfg (ReportsFresh lib cfg)) tr ↔
      Throughout (EveryHit lib cfg fun _ => Unchanged lib) tr := by
  refine h.throughout_iff fun tr₁ m hrun _ => ?_
  unfold EveryHit
  cases m.act with
  | restart => exact Iff.rfl
  | lookup q =>
    refine forall_congr' fun t => forall_congr' fun resp => forall_congr' fun hlast =>
      forall_congr' fun htype => forall_congr' fun hhit => forall_congr' fun ht => ?_
    cases hget : (m.pre.cache.get q.clock.read (keyOf lib q)).1 with
    | none => exact absurd ⟨htype, hget⟩ hhit
    | some v =>
      obtain ⟨expiry, hstore, -⟩ := TTLCache.get_eq_some hget
      -- the entry is that of the last fetch
      obtain ⟨t', resp', members, hlast', rfl, hstored⟩ :=
        holdsFetches hrun _ v expiry (key_of_lastFetch hlower hlast) hstore
      obtain ⟨rfl, rfl⟩ := Prod.mk.inj (Option.some.inj (hlast.symm.trans hlast'))
      exact reportsFresh_iff htype hget hstored ht

/-! ### Samples -/

/-- A library that reads one date. -/
def datedLibrary : Library :=
  { sampleLibrary with
    fromisoformat := fun text =>
      if text = "2020-01-01T00:00:00+00:00" then some ⟨some (737424 * usPerDay), text⟩ else none }

/-- 2024-01-01, at midnight. -/
def newYear : Datetime := ⟨738885 * usPerDay, by decide⟩

/-- A day later. -/
def dayAfter : Datetime := ⟨738886 * usPerDay, by decide⟩

/-- A domain that was registered on 2020-01-01. -/
def registeredBody : Json :=
  .obj [("events", .arr [.obj [("eventAction", .str "registration"),
    ("eventDate", .str "2020-01-01T00:00:00Z")]])]

def datedQuery (t : ℚ) (now : Datetime) : Query :=
  { sampleQuery t "example.com" 200 (.ok registeredBody) with clock := ⟨t, t, t, t, t, now⟩ }

/-- A lookup, and the same a day later. -/
def dailyLookups : List Act :=
  [.lookup (datedQuery 0 newYear), .lookup (datedQuery 86400 dayAfter)]

theorem fresh_hits_sample :
    (runFrom (step datedLibrary ⟨5, 60⟩) init dailyLookups).1.length = 2 ∧
      (Throughout (EveryHit datedLibrary ⟨5, 60⟩ (ReportsFresh datedLibrary ⟨5, 60⟩))
          (runFrom (step datedLibrary ⟨5, 60⟩) init dailyLookups).1 ↔
        Throughout (EveryHit datedLibrary ⟨5, 60⟩ fun _ => Unchanged datedLibrary)
          (runFrom (step datedLibrary ⟨5, 60⟩) init dailyLookups).1) :=
  ⟨rfl, fresh_hits_iff rfl (run_runFrom _ _)⟩

/-- The days since the registration that a lookup reports, and the age of the entry. -/
def agesOf (result : Except PyError EnrichmentResult) : Option (Option ℤ × Option ℤ) :=
  match result with
  | .ok r => some (r.data.bind fun d => (Json.member d "age_days").intValue?, r.cacheAgeSeconds)
  | .error _ => none

/-- The client after the first lookup. -/
def afterFetch : Client := (lookup datedLibrary ⟨5, 60⟩ init (datedQuery 0 newYear)).2

/-- A day later the entry still has the ages of the fetch. -/
theorem stale_hit :
    agesOf (lookup datedLibrary ⟨5, 60⟩ afterFetch (datedQuery 86400 dayAfter)).1 =
        some (some 1461, some 0) ∧
      agesOf (freshResult datedLibrary newYear dayAfter (.object registeredBody)) =
        some (some 1462, some 86400) ∧
      ¬ Throughout (EveryHit datedLibrary ⟨5, 60⟩ (ReportsFresh datedLibrary ⟨5, 60⟩))
        (runFrom (step datedLibrary ⟨5, 60⟩) init dailyLookups).1 := by
  have hstale : agesOf (lookup datedLibrary ⟨5, 60⟩ afterFetch (datedQuery 86400 dayAfter)).1 =
      some (some 1461, some 0) := by
    decide +kernel
  have hfresh : agesOf (freshResult datedLibrary newYear dayAfter (.object registeredBody)) =
      some (some 1462, some 86400) := by
    decide +kernel
  refine ⟨hstale, hfresh, fun h => ?_⟩
  have hlast : lastFetch datedLibrary ⟨5, 60⟩
      [⟨init, .lookup (datedQuery 0 newYear), afterFetch⟩]
        (keyOf datedLibrary (datedQuery 86400 dayAfter)) =
      some (newYear, .object registeredBody) := by
    rfl
  have hhit : ¬ Misses datedLibrary afterFetch (datedQuery 86400 dayAfter) := by
    decide +kernel
  have hreport := h [⟨init, .lookup (datedQuery 0 newYear), afterFetch⟩]
    ⟨afterFetch, .lookup (datedQuery 86400 dayAfter), _⟩ [] rfl newYear (.object registeredBody)
    hlast rfl hhit (by decide)
  obtain ⟨r, r', hr, hr', hsame⟩ := hreport
  rw [hr] at hstale
  have hr'' : freshResult datedLibrary newYear dayAfter (.object registeredBody) = .ok r' := hr'
  rw [hr''] at hfresh
  have hage := congrArg EnrichmentResult.cacheAgeSeconds hsame.rest
  have h0 := congrArg Prod.snd (Option.some.inj hstale)
  have h1 := congrArg Prod.snd (Option.some.inj hfresh)
  dsimp only at hage h0 h1
  rw [hage, h1] at h0
  cases h0

end Verdix.Rdap
