import Verdix.Enrichment.Rdap
import Verdix.Infra.Equiv.CircuitBreaker
import Verdix.Lib.Except

/-!
# What opens the breaker of the RDAP client

`_fetch` raises for a domain that is not registered and for one whose label leads to no registry, so
the breaker counts both with the registries that cannot be reached.  `lookup_answer` lists the ways a
lookup ends, and `open_reported_iff` says when none of a run is refused.
-/

open TransitionSystem

namespace Verdix.Rdap

open AsyncCircuitBreaker (History Outcome CoolingDown Settled)

variable {lib : Library} {cfg : BreakerConfig} {c c' : Client} {q : Query}
  {tr : List (Move Client Act)} {s : Client} {cb : AsyncCircuitBreaker}

/-! ### What a lookup does -/

/-- The key of the domain that is looked up. -/
def keyOf (lib : Library) (q : Query) : String := cacheKey (normaliseDomain lib q.indicator.value)

/-- The cache as the lookup finds it: without the entry of the domain if it has expired. -/
def found (lib : Library) (c : Client) (q : Query) : TTLCache Json :=
  (c.cache.get q.clock.read (keyOf lib q)).2

/-- The domain is not in the cache. -/
def Misses (lib : Library) (c : Client) (q : Query) : Prop :=
  q.indicator.type = .domain ∧ (c.cache.get q.clock.read (keyOf lib q)).1 = none

instance (lib : Library) (c : Client) (q : Query) : Decidable (Misses lib c q) :=
  decidable_of_iff
    (q.indicator.type = .domain ∧ (c.cache.get q.clock.read (keyOf lib q)).1.isNone = true)
    (and_congr_right' Option.isNone_iff_eq_none)

/-- What `_fetch` comes to. -/
def fetched (lib : Library) (c : Client) (q : Query) :
    Except RdapError RdapData × RdapBootstrap.State :=
  fetch lib ⟨c.tldMap, found lib c q⟩ q (normaliseDomain lib q.indicator.value)

/-- The ways a lookup ends. -/
inductive Answer (lib : Library) (cfg : BreakerConfig) (c : Client) (q : Query) :
    Except PyError EnrichmentResult × Client → Prop
  /-- The indicator is no domain. -/
  | notConfigured (htype : q.indicator.type ≠ .domain) :
      Answer lib cfg c q (.ok (.notConfigured q.clock.now source), c)
  /-- With an entry of the cache. -/
  | hit {members : List (String × Json)} (htype : q.indicator.type = .domain)
      (hget : (c.cache.get q.clock.read (keyOf lib q)).1 = some (.obj members)) :
      Answer lib cfg c q (buildResult lib q.clock.now members true (ageSeconds members),
        { c with cache := found lib c q })
  /-- The entry is none that a lookup has stored. -/
  | foreign {v : Json} (htype : q.indicator.type = .domain)
      (hget : (c.cache.get q.clock.read (keyOf lib q)).1 = some v)
      (hv : ∀ members, v ≠ .obj members) :
      Answer lib cfg c q (.error .attributeError, { c with cache := found lib c q })
  | refused (hmiss : Misses lib c q)
      (henter : ∃ e, c.breaker.enter cfg q.clock.entered = .error e) :
      Answer lib cfg c q
        (.ok (.failing q.clock.now source .circuitBreakerOpen
          "Circuit breaker open — RDAP registries temporarily unreachable"),
        { c with cache := found lib c q })
  /-- With a registration, which is stored. -/
  | registered {cb : AsyncCircuitBreaker} {data : RdapData} {state : RdapBootstrap.State}
      (hmiss : Misses lib c q) (henter : c.breaker.enter cfg q.clock.entered = .ok cb)
      (hfetch : fetched lib c q = (.ok data, state)) :
      Answer lib cfg c q (buildResult lib q.clock.now data.members false none,
        ⟨state.cache.set q.clock.later (keyOf lib q) (.obj (payload data.members)) cacheTtl,
          cb.onSuccess, state.tldMap⟩)
  /-- The registry does not know the domain, and that is stored. -/
  | unregistered {cb : AsyncCircuitBreaker} {state : RdapBootstrap.State}
      (hmiss : Misses lib c q) (henter : c.breaker.enter cfg q.clock.entered = .ok cb)
      (hfetch : fetched lib c q = (.error .notFound, state)) :
      Answer lib cfg c q
        (.ok (.contributed q.clock.now source notFoundData "Domain not found in RDAP" false none),
        ⟨state.cache.set q.clock.later (keyOf lib q) (.obj (payload notFoundData)) cacheTtl,
          cb.onFailure cfg q.clock.ended, state.tldMap⟩)
  | failed {cb : AsyncCircuitBreaker} {e : RdapError} {state : RdapBootstrap.State}
      {reason : FailureReason} {detail : String} (hmiss : Misses lib c q)
      (henter : c.breaker.enter cfg q.clock.entered = .ok cb)
      (hfetch : fetched lib c q = (.error e, state)) (he : e ≠ .notFound)
      (hreason : reason ≠ .circuitBreakerOpen) :
      Answer lib cfg c q (.ok (.failing q.clock.now source reason detail),
        ⟨state.cache, cb.onFailure cfg q.clock.ended, state.tldMap⟩)

/-- An open breaker refuses: nothing is fetched, and the maps stay as they are. -/
theorem queryRegistry_of_refused {domain : String} {e : CircuitBreakerOpen}
    (h : c.breaker.enter cfg q.clock.entered = .error e) :
    queryRegistry lib cfg c q domain =
      finish lib c q (cacheKey domain) (.refused e) := by
  unfold queryRegistry
  generalize fetch lib ⟨c.tldMap, c.cache⟩ q domain = f
  dsimp only
  rw [AsyncCircuitBreaker.call_of_refused h]

/-- A registration that is fetched is a success of the breaker. -/
theorem queryRegistry_of_ok {domain : String} {data : RdapData}
    {state : RdapBootstrap.State} (h : c.breaker.enter cfg q.clock.entered = .ok cb)
    (hfetch : fetch lib ⟨c.tldMap, c.cache⟩ q domain = (.ok data, state)) :
    queryRegistry lib cfg c q domain =
      finish lib ⟨state.cache, cb.onSuccess, state.tldMap⟩ q (cacheKey domain) (.returned data) := by
  unfold queryRegistry
  rw [hfetch]
  dsimp only
  rw [AsyncCircuitBreaker.call_of_entered h]

/-- An error of the fetch is a failure of the breaker, the answer `404` with the others. -/
theorem queryRegistry_of_error {domain : String} {e : RdapError}
    {state : RdapBootstrap.State} (h : c.breaker.enter cfg q.clock.entered = .ok cb)
    (hfetch : fetch lib ⟨c.tldMap, c.cache⟩ q domain = (.error e, state)) :
    queryRegistry lib cfg c q domain =
      finish lib ⟨state.cache, cb.onFailure cfg q.clock.ended, state.tldMap⟩ q (cacheKey domain)
        (.raised e) := by
  unfold queryRegistry
  rw [hfetch]
  dsimp only
  rw [AsyncCircuitBreaker.call_of_entered h]

/-- A domain that is not in the cache is asked for under its normalised name. -/
theorem lookup_of_miss (h : Misses lib c q) :
    lookup lib cfg c q = queryRegistry lib cfg { c with cache := found lib c q } q
      (normaliseDomain lib q.indicator.value) := by
  obtain ⟨htype, hget⟩ := h
  unfold keyOf at hget
  unfold lookup
  rw [if_neg (not_not_intro htype)]
  dsimp only
  rw [hget]
  rfl

/-- Every lookup ends in one of these ways. -/
theorem lookup_answer (lib : Library) (cfg : BreakerConfig) (c : Client) (q : Query) :
    Answer lib cfg c q (lookup lib cfg c q) := by
  by_cases hmiss : Misses lib c q
  · rw [lookup_of_miss hmiss]
    cases henter : c.breaker.enter cfg q.clock.entered with
    | error e =>
      rw [queryRegistry_of_refused (c := { c with cache := found lib c q }) henter]
      exact .refused hmiss ⟨e, henter⟩
    | ok cb =>
      -- past the cache and the breaker, the fetch decides
      rcases hfetched : fetched lib c q with ⟨result, state⟩
      have hfetch := hfetched
      unfold fetched at hfetch
      cases result with
      | ok data =>
        rw [queryRegistry_of_ok (c := { c with cache := found lib c q }) henter hfetch]
        exact .registered hmiss henter hfetched
      | error e =>
        rw [queryRegistry_of_error (c := { c with cache := found lib c q }) henter hfetch]
        cases e with
        | notFound => exact .unregistered hmiss henter hfetched
        | timeout detail => exact .failed hmiss henter hfetched (by simp) (by decide)
        | network detail => exact .failed hmiss henter hfetched (by simp) (by decide)
        | other detail => exact .failed hmiss henter hfetched (by simp) (by decide)
  · -- no miss: the indicator is of another type, or the cache has an entry
    unfold lookup
    split
    · rename_i htype
      exact .notConfigured htype
    · rename_i htype
      rw [not_not] at htype
      dsimp only
      split
      · rename_i members hget
        exact .hit htype hget
      · rename_i v hv hget
        exact .foreign htype hget fun members h => hv members h
      · rename_i hget
        exact absurd ⟨htype, hget⟩ hmiss

theorem step_lookup {c c' : Client} {q : Query} (h : step lib cfg c (.lookup q) = some c') :
    c' = (lookup lib cfg c q).2 :=
  (Option.some.inj h).symm

theorem step_restart {c c' : Client} (h : step lib cfg c .restart = some c') :
    c' = ⟨c.cache, .init, none⟩ :=
  (Option.some.inj h).symm

/-- A result that is built from data contributes. -/
theorem buildResult_status {now : Datetime} {data : List (String × Json)} {cached : Bool}
    {seconds : Option ℤ} {r : EnrichmentResult}
    (h : buildResult lib now data cached seconds = .ok r) : r.status = .contributed := by
  unfold buildResult at h
  split at h
  · rw [← Except.ok.inj h]
    rfl
  · obtain ⟨summary, -, h⟩ := Except.bind_eq_ok.mp h
    rw [← Except.ok.inj h]
    rfl

/-! ### The history of the breaker -/

/-- The lookup gets past the cache and the breaker. -/
def Asks (lib : Library) (cfg : BreakerConfig) (c : Client) (q : Query) : Prop :=
  Misses lib c q ∧ (c.breaker.enter cfg q.clock.entered).isOk = true

instance (lib : Library) (cfg : BreakerConfig) (c : Client) (q : Query) :
    Decidable (Asks lib cfg c q) :=
  inferInstanceAs (Decidable (_ ∧ _))

/-- What the breaker lets in after a miss reaches a registry. -/
theorem asks_of_enter {cb : AsyncCircuitBreaker} (hmiss : Misses lib c q)
    (henter : c.breaker.enter cfg q.clock.entered = .ok cb) : Asks lib cfg c q :=
  ⟨hmiss, by rw [henter]; rfl⟩

theorem not_asks_of_type (htype : q.indicator.type ≠ .domain) : ¬ Asks lib cfg c q :=
  fun h => htype h.1.1

theorem not_asks_of_get {v : Json}
    (hget : (c.cache.get q.clock.read (keyOf lib q)).1 = some v) : ¬ Asks lib cfg c q := by
  intro h
  rw [h.1.2] at hget
  contradiction

/-- What the breaker refuses reaches none. -/
theorem not_asks_of_refused (henter : ∃ e, c.breaker.enter cfg q.clock.entered = .error e) :
    ¬ Asks lib cfg c q := by
  rintro ⟨-, hopen⟩
  obtain ⟨e, he⟩ := henter
  rw [he] at hopen
  contradiction

/-- What a step tells the breaker: only a registration is a success. -/
def outcomeOf (lib : Library) (cfg : BreakerConfig) (m : Move Client Act) :
    Option (ℚ × Outcome) :=
  match m.act with
  | .lookup q =>
    if Asks lib cfg m.pre q then
      some (q.clock.ended, if (fetched lib m.pre q).1.isOk then .success else .failure)
    else
      none
  | .restart => none

def Act.isRestart : Act → Bool
  | .lookup _ => false
  | .restart => true

/-- The outcomes since the process was started, newest first. -/
def history (lib : Library) (cfg : BreakerConfig) (tr : List (Move Client Act)) :
    History :=
  (tr.reverse.takeWhile fun m => !m.act.isRestart).filterMap (outcomeOf lib cfg)

/-- A lookup puts its outcome, if it has one, before the older ones. -/
theorem history_lookup {m : Move Client Act} (hm : m.act = .lookup q) :
    history lib cfg (tr ++ [m]) = (outcomeOf lib cfg m).toList ++ history lib cfg tr := by
  unfold history
  rw [List.reverse_append, List.reverse_singleton, List.singleton_append,
    List.takeWhile_cons_of_pos (by simp [hm, Act.isRestart])]
  cases hout : outcomeOf lib cfg m with
  | none => rw [List.filterMap_cons_none hout]; rfl
  | some e => rw [List.filterMap_cons_some hout]; rfl

/-- A new process has no history. -/
theorem history_restart {m : Move Client Act} (hm : m.act = .restart) :
    history lib cfg (tr ++ [m]) = [] := by
  unfold history
  rw [List.reverse_append, List.reverse_singleton, List.singleton_append,
    List.takeWhile_cons_of_neg (by simp [hm, Act.isRestart])]
  rfl

/-- A lookup that reaches a registry has an outcome, at the time of its end. -/
theorem outcomeOf_of_asks {m : Move Client Act} (hm : m.act = .lookup q)
    (h : Asks lib cfg m.pre q) :
    outcomeOf lib cfg m =
      some (q.clock.ended, if (fetched lib m.pre q).1.isOk then .success else .failure) := by
  unfold outcomeOf
  rw [hm]
  exact if_pos h

/-- A lookup that reaches none leaves the history as it is. -/
theorem outcomeOf_of_not_asks {m : Move Client Act} (hm : m.act = .lookup q)
    (h : ¬ Asks lib cfg m.pre q) : outcomeOf lib cfg m = none := by
  unfold outcomeOf
  rw [hm]
  exact if_neg h

/-- Along every run the breaker is settled in the history. -/
theorem settled (h : Run (step lib cfg) init tr s) : Settled cfg (history lib cfg tr) s.breaker := by
  refine h.history (P := fun tr s => Settled cfg (history lib cfg tr) s.breaker)
    AsyncCircuitBreaker.settled_init ?_
  intro tr s a s' _ hI hstep
  cases a with
  | restart =>
    rw [history_restart rfl]
    obtain rfl := step_restart hstep
    exact AsyncCircuitBreaker.settled_init
  | lookup q =>
    rw [history_lookup rfl]
    have hs' := step_lookup hstep
    have hans := lookup_answer lib cfg s q
    have hnot : ¬ Asks lib cfg s q → outcomeOf lib cfg ⟨s, .lookup q, s'⟩ = none := by
      intro h
      exact outcomeOf_of_not_asks rfl h
    generalize lookup lib cfg s q = res at hans hs'
    -- only the last three kinds of answer come from a registry and are told to the breaker
    cases hans with
    | notConfigured htype =>
      rw [hnot (not_asks_of_type htype), hs']
      exact hI
    | hit htype hget =>
      rw [hnot (not_asks_of_get hget), hs']
      exact hI
    | foreign htype hget =>
      rw [hnot (not_asks_of_get hget), hs']
      exact hI
    | refused hmiss henter =>
      rw [hnot (not_asks_of_refused henter), hs']
      exact hI
    | registered hmiss henter hfetch =>
      rw [outcomeOf_of_asks rfl (asks_of_enter hmiss henter), hfetch, hs']
      exact AsyncCircuitBreaker.settled_onSuccess ..
    | unregistered hmiss henter hfetch =>
      rw [outcomeOf_of_asks rfl (asks_of_enter hmiss henter), hfetch, hs']
      exact hI.onFailure henter
    | failed hmiss henter hfetch =>
      rw [outcomeOf_of_asks rfl (asks_of_enter hmiss henter), hfetch, hs']
      exact hI.onFailure henter

/-! ### Runs -/

/-- The lookup answers that the breaker is open. -/
def ReportsOpen (lib : Library) (cfg : BreakerConfig) (c : Client) (q : Query) : Prop :=
  ∃ r, (lookup lib cfg c q).1 = .ok r ∧ r.status = .failing ∧
    r.failureReason = some .circuitBreakerOpen

/-- A lookup reports an open breaker iff it misses the cache and the breaker refuses it. -/
theorem reportsOpen_iff :
    ReportsOpen lib cfg c q ↔
      Misses lib c q ∧ ∃ e, c.breaker.enter cfg q.clock.entered = .error e := by
  unfold ReportsOpen
  have hans := lookup_answer lib cfg c q
  generalize lookup lib cfg c q = res at hans
  constructor
  · rintro ⟨r, hr, hstatus, hreason⟩
    -- the other failing answers have other reasons, and the rest contribute
    cases hans with
    | refused hmiss henter => exact ⟨hmiss, henter⟩
    | notConfigured htype =>
      obtain rfl := Except.ok.inj hr
      cases hstatus
    | hit htype hget =>
      dsimp only at hr
      rw [buildResult_status hr] at hstatus
      cases hstatus
    | foreign htype hget => cases hr
    | registered hmiss henter hfetch =>
      dsimp only at hr
      rw [buildResult_status hr] at hstatus
      cases hstatus
    | unregistered hmiss henter hfetch =>
      obtain rfl := Except.ok.inj hr
      cases hstatus
    -- an error of the registry is reported under its own reason
    | failed hmiss henter hfetch he hne =>
      obtain rfl := Except.ok.inj hr
      exact absurd (Option.some.inj hreason) hne
  · rintro ⟨hmiss, e, he⟩
    cases hans with
    | refused _ _ => exact ⟨_, rfl, rfl, rfl⟩
    | notConfigured htype => exact absurd hmiss.1 htype
    | hit _ hget =>
      rw [hmiss.2] at hget
      contradiction
    | foreign _ hget =>
      rw [hmiss.2] at hget
      contradiction
    | registered _ henter =>
      rw [he] at henter
      contradiction
    | unregistered _ henter =>
      rw [he] at henter
      contradiction
    | failed _ henter =>
      rw [he] at henter
      contradiction

instance (lib : Library) (cfg : BreakerConfig) (c : Client) (q : Query) :
    Decidable (ReportsOpen lib cfg c q) :=
  decidable_of_iff
    (Misses lib c q ∧
      c.breaker.state = .open_ ∧ q.clock.entered - c.breaker.openedAt < cfg.resetTimeout)
    (by rw [reportsOpen_iff, AsyncCircuitBreaker.enter_eq_error])

/-- No lookup answers that the breaker is open. -/
def NotRefused (lib : Library) (cfg : BreakerConfig) (m : Move Client Act) : Prop :=
  match m.act with
  | .lookup q => ¬ ReportsOpen lib cfg m.pre q
  | .restart => True

instance (lib : Library) (cfg : BreakerConfig) : DecidablePred (NotRefused lib cfg) := fun m =>
  match m with
  | ⟨c, .lookup q, _⟩ => inferInstanceAs (Decidable (¬ ReportsOpen lib cfg c q))
  | ⟨_, .restart, _⟩ => inferInstanceAs (Decidable True)

/-- A domain that is not in the cache is looked up outside the cooldowns. -/
def WaitsOut (lib : Library) (cfg : BreakerConfig) (before : List (Move Client Act))
    (m : Move Client Act) : Prop :=
  match m.act with
  | .lookup q => Misses lib m.pre q → ¬ CoolingDown cfg (history lib cfg before) q.clock.entered
  | .restart => True

/-- In every run no lookup answers that the breaker is open, exactly when each domain that is not in
the cache is looked up outside the cooldowns: fewer than `fail_max` lookups in a row before it were
without a registration, or `reset_timeout` has passed since the last. -/
theorem open_reported_iff (h : Run (step lib cfg) init tr s) :
    (∀ m ∈ tr, NotRefused lib cfg m) ↔ Throughout (WaitsOut lib cfg) tr := by
  rw [← throughout_forall]
  refine h.throughout_iff fun tr₁ m hrun _ => ?_
  unfold NotRefused WaitsOut
  cases m.act with
  | lookup q =>
    dsimp only
    rw [reportsOpen_iff, (settled hrun).enter_iff, not_and]
  | restart => exact Iff.rfl

/-- The registry that is asked answers, with an object or that the domain is not registered; or there
is none for the label of the domain. -/
def RegistryAnswers (lib : Library) (m : Move Client Act) : Bool :=
  match m.act with
  | .lookup q =>
    match (RdapBootstrap.getBaseUrl lib.lower ⟨m.pre.tldMap, found lib m.pre q⟩ q.clock.fetching
        q.bootstrap (normaliseDomain lib q.indicator.value)).1, q.reply with
    | .ok .null, _ => true
    | .ok _, .response 404 _ => true
    | .ok _, .response 200 (.ok (.obj _)) => true
    | _, _ => false
  | .restart => true

/-! ### Samples -/

/-- A library for names in lower case and responses without dates. -/
def sampleLibrary : Library where
  lower := id
  str := Json.plainStr
  fromisoformat _ := none
  excText := PyError.sampleText

/-- A lookup of a domain at `t`, with the table of the source for the registries. -/
def sampleQuery (t : ℚ) (domain : String) (status : ℕ) (body : Except String Json) : Query where
  indicator := ⟨.domain, domain⟩
  reply := .response status body
  bootstrap := none
  clock := ⟨t, t, t, t, t, .yearOne⟩

/-- Three domains that are not registered, two whose labels lead to no registry, and one that is
registered. -/
def answeredLookups : List Act :=
  [.lookup (sampleQuery 0 "alpha.com" 404 (.error "")),
    .lookup (sampleQuery 1 "beta.com" 404 (.error "")),
    .lookup (sampleQuery 2 "gamma.net" 404 (.error "")),
    .lookup (sampleQuery 3 "printer.lan" 404 (.error "")),
    .lookup (sampleQuery 4 "host.internal" 404 (.error "")),
    .lookup (sampleQuery 5 "example.com" 200 (.ok (.obj [])))]

/-- Six domains in six seconds. -/
theorem open_reported_sample :
    (runFrom (step sampleLibrary ⟨5, 60⟩) init answeredLookups).1.length = 6 ∧
      ((∀ m ∈ (runFrom (step sampleLibrary ⟨5, 60⟩) init answeredLookups).1,
          NotRefused sampleLibrary ⟨5, 60⟩ m) ↔
        Throughout (WaitsOut sampleLibrary ⟨5, 60⟩)
          (runFrom (step sampleLibrary ⟨5, 60⟩) init answeredLookups).1) :=
  ⟨rfl, open_reported_iff (run_runFrom _ _)⟩

/-- Every registry answers, and the sixth lookup is refused. -/
theorem opened_by_answers :
    (∀ m ∈ (runFrom (step sampleLibrary ⟨5, 60⟩) init answeredLookups).1,
        RegistryAnswers sampleLibrary m = true) ∧
      ¬ ∀ m ∈ (runFrom (step sampleLibrary ⟨5, 60⟩) init answeredLookups).1,
        NotRefused sampleLibrary ⟨5, 60⟩ m := by
  constructor
  · decide +kernel
  · decide +kernel

end Verdix.Rdap
