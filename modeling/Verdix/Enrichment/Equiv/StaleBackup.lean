import Verdix.Enrichment.Equiv.Virustotal

/-!
# The entries of an indicator and the responses it got

`lookup` stores a response before it parses it.  `stale_discipline_iff`: both entries of an indicator
hold its last response that parsed to `CONTRIBUTED`, and a failing lookup leaves them alone, exactly
when every response fetched and stored parses to `CONTRIBUTED`.  It is about indicators whose names
do not end in `:stale`: the entry of such a name is the backup of another.
-/

open TransitionSystem

namespace Verdix.Virustotal

variable {fl : FloatArith} {lower : String → String} {cfg : Config} {c : Client}
  {tr : List (Move Client Act)} {s s' : Client}

/-- The response parses to `CONTRIBUTED`. -/
def contributes (fl : FloatArith) (raw : Json) : Bool :=
  match parseVtResponse fl .yearOne raw false none with
  | .ok r => r.status = .contributed
  | .error _ => false

/-- Whether it does depends on the response alone. -/
theorem contributes_of_parse {now : Datetime} {raw : Json} {cached : Bool} {seconds : Option ℤ}
    {r : EnrichmentResult} (h : parseVtResponse fl now raw cached seconds = .ok r) :
    contributes fl raw = decide (r.status = .contributed) := by
  unfold contributes
  unfold parseVtResponse at h ⊢
  cases hget : raw.get "_not_found" with
  | error e =>
    rw [hget] at h
    contradiction
  | ok v =>
    rw [hget] at h
    simp only [bind, Except.bind, pure, Except.pure] at h ⊢
    split at h
    · obtain rfl := Except.ok.inj h
      rename_i hv
      rw [if_pos hv]
      rfl
    · rename_i hv
      rw [if_neg hv]
      -- the clock is in no field; a `KeyError` or a `TypeError` is caught
      cases hattrs : parseAttributes fl raw with
      | ok d =>
        rw [hattrs] at h
        obtain rfl := Except.ok.inj h
        rfl
      | error e =>
        rw [hattrs] at h
        cases e
        case keyError =>
          obtain rfl := Except.ok.inj h
          rfl
        case typeError =>
          obtain rfl := Except.ok.inj h
          rfl
        all_goals contradiction

/-- The indicator and the response of a step that fetches one that parses to `CONTRIBUTED`. -/
def contributedBy (fl : FloatArith) (cfg : Config) (m : Move Client Act) :
    Option (TextIndicator × Json) :=
  (fetchedBy cfg m).filter fun f => contributes fl f.2

/-- The last response of an indicator that parsed to `CONTRIBUTED`. -/
def lastContributed (fl : FloatArith) (cfg : Config) (tr : List (Move Client Act))
    (ind : TextIndicator) : Option Json :=
  lastUnder (contributedBy fl cfg) tr ind

theorem contributes_of_lastContributed {ind : TextIndicator} {raw : Json}
    (h : lastContributed fl cfg tr ind = some raw) : contributes fl raw = true := by
  obtain ⟨m, -, hm⟩ := exists_of_lastUnder h
  exact (Option.filter_eq_some_iff.mp hm).2

theorem lastContributed_snoc_of_fetched {m : Move Client Act} {ind : TextIndicator} {raw : Json}
    (h : fetchedBy cfg m = some (ind, raw)) (hraw : contributes fl raw = true)
    (ind' : TextIndicator) :
    lastContributed fl cfg (tr ++ [m]) ind' =
      if ind = ind' then some raw else lastContributed fl cfg tr ind' :=
  lastUnder_snoc_of_some (Option.filter_eq_some_iff.mpr ⟨h, hraw⟩) ind'

theorem lastContributed_snoc_of_none {m : Move Client Act} (h : fetchedBy cfg m = none)
    (ind : TextIndicator) :
    lastContributed fl cfg (tr ++ [m]) ind = lastContributed fl cfg tr ind :=
  lastUnder_snoc_of_none (by rw [contributedBy, h, Option.filter_none]) ind

/-- Both entries of the indicator, as far as they are there, are its last contributed response. -/
def HoldsLast (fl : FloatArith) (cfg : Config) (tr : List (Move Client Act)) (c : Client)
    (ind : TextIndicator) : Prop :=
  ∀ k e, KeyOf ind k → c.cache.store k = some e →
    lastContributed fl cfg tr ind = some e.1.response

/-- A lookup whose result is `FAILING` leaves both entries of its indicator as they were. -/
def FailingKeeps (fl : FloatArith) (lower : String → String) (cfg : Config) (c c' : Client)
    (q : Query) : Prop :=
  ∀ r, (lookup fl lower cfg c q).1 = .ok r → r.status = .failing →
    ∀ t k, q.clock.read ≤ t → q.clock.later ≤ t → KeyOf q.indicator k →
      c'.cache.peek t k = c.cache.peek t k

/-- What is asked of a step: a failing lookup leaves the entries alone, and before and after every
lookup they are the last contributed response. -/
def Disciplined (fl : FloatArith) (lower : String → String) (cfg : Config)
    (before : List (Move Client Act)) (m : Move Client Act) : Prop :=
  match m.act with
  | .lookup q =>
    FailingKeeps fl lower cfg m.pre m.post q ∧ HoldsLast fl cfg before m.pre q.indicator ∧
      HoldsLast fl cfg (before ++ [m]) m.post q.indicator
  | .restart => True

/-- The names looked up do not end in `:stale`. -/
def PlainName (m : Move Client Act) : Prop :=
  ∀ q, m.act = .lookup q → PyStr.endswith q.indicator.value ":stale" = false

/-- The response a step fetches and stores parses to `CONTRIBUTED`. -/
def FetchesContributed (fl : FloatArith) (cfg : Config) (m : Move Client Act) : Prop :=
  ∀ ind raw, fetchedBy cfg m = some (ind, raw) → contributes fl raw = true

/-- A lookup that fetches nothing but contributed responses keeps the entries of an indicator. -/
theorem HoldsLast.next {q : Query} {ind : TextIndicator} (hI : HoldsLast fl cfg tr s ind)
    (hind : PyStr.endswith ind.value ":stale" = false)
    (hstep : step fl lower cfg s (.lookup q) = some s') (hplain : PlainName ⟨s, .lookup q, s'⟩)
    (hcontrib : FetchesContributed fl cfg ⟨s, .lookup q, s'⟩) :
    HoldsLast fl cfg (tr ++ [⟨s, .lookup q, s'⟩]) s' ind := by
  have hs' := step_lookup hstep
  have hans := lookup_answer fl lower cfg s q
  intro k e hk hstore
  generalize lookup fl lower cfg s q = res at hans hs'
  cases hans with
  | direct hfetched hkept | replay hfetched hkept | raised hfetched hkept =>
    have hnone : fetchedBy cfg ⟨s, .lookup q, s'⟩ = none := by
      simp only [fetchedBy, hfetched, Option.map_none]
    rw [lastContributed_snoc_of_none hnone]
    rw [hs'] at hstore
    exact hI k e hk (hkept.entries k e hstore)
  | @fresh raw c₁ hfetched hkept =>
    have hsome : fetchedBy cfg ⟨s, .lookup q, s'⟩ = some (q.indicator, raw) := by
      simp only [fetchedBy, hfetched, Option.map_some]
    rw [lastContributed_snoc_of_fetched hsome (hcontrib _ _ hsome)]
    rw [hs'] at hstore
    rcases store_stored hstore with ⟨hq, hraw⟩ | ⟨hq, hold⟩
    · rw [if_pos (eq_of_keyOf (hplain q rfl) hind hq hk), hraw]
    · have hne : q.indicator ≠ ind := fun heq => hq (heq ▸ hk)
      rw [if_neg hne]
      exact hI k e hk (hkept.entries k e hold)

/-- Along such runs every entry is a last contributed response. -/
theorem holdsLast (h : Run (step fl lower cfg) init tr s)
    (hG : ∀ m ∈ tr, PlainName m ∧ FetchesContributed fl cfg m) {ind : TextIndicator}
    (hind : PyStr.endswith ind.value ":stale" = false) : HoldsLast fl cfg tr s ind := by
  refine h.history_of_moves (P := fun tr s => HoldsLast fl cfg tr s ind) ?_ ?_ hG
  · intro k e _ hstore
    contradiction
  · intro tr s a s' _ hI hstep hm
    cases a with
    | lookup q => exact hI.next hind hstep hm.1 hm.2
    | restart =>
      obtain rfl := step_restart hstep
      intro k e hk hstore
      rw [lastContributed_snoc_of_none rfl]
      exact hI k e hk hstore

/-- A failing lookup that has not fetched its failure leaves the cache as it was. -/
theorem failingKeeps {q : Query} (hstep : step fl lower cfg s (.lookup q) = some s')
    (hcontrib : FetchesContributed fl cfg ⟨s, .lookup q, s'⟩) :
    FailingKeeps fl lower cfg s s' q := by
  have hs' := step_lookup hstep
  have hans := lookup_answer fl lower cfg s q
  intro r hr hfailing t k hread hlater _
  generalize lookup fl lower cfg s q = res at hans hs' hr
  rw [hs']
  cases hans with
  | direct _ hkept | replay _ hkept | raised _ hkept => exact hkept.peek t k hread hlater
  | @fresh raw c₁ hfetched hkept =>
    have hsome : fetchedBy cfg ⟨s, .lookup q, s'⟩ = some (q.indicator, raw) := by
      simp only [fetchedBy, hfetched, Option.map_some]
    have hraw := hcontrib _ _ hsome
    rw [contributes_of_parse hr, hfailing] at hraw
    contradiction

/-- In every run over plain names the entries of an indicator are its last contributed response, and
failing lookups leave them alone, exactly when every response fetched and stored parses to
`CONTRIBUTED`. -/
theorem stale_discipline_iff (h : Run (step fl lower cfg) init tr s)
    (hplain : ∀ m ∈ tr, PlainName m) :
    Throughout (Disciplined fl lower cfg) tr ↔ ∀ m ∈ tr, FetchesContributed fl cfg m := by
  constructor
  · rintro hall ⟨s₁, a, s₂⟩ hm ind raw hfetched
    cases a with
    | restart => contradiction
    | lookup q =>
      obtain ⟨before, after, htr⟩ := List.append_of_mem hm
      have hlast := (hall before _ after htr).2.2
      have hs₂ := step_lookup (h.step_of_mem hm).2
      have hans := lookup_answer fl lower cfg s₁ q
      dsimp only at hs₂ hlast
      generalize lookup fl lower cfg s₁ q = res at hans hs₂
      cases hans with
      | direct hnone | replay hnone | raised hnone => simp [fetchedBy, hnone] at hfetched
      | @fresh raw' c₁ hsome hkept =>
        simp only [fetchedBy, hsome, Option.map_some, Option.some.injEq, Prod.mk.injEq] at hfetched
        obtain ⟨rfl, rfl⟩ := hfetched
        -- the backup is the response just fetched, so that is the last contributed one
        obtain ⟨e, hstore, hraw⟩ := store_staleKey cfg c₁.cache q.clock q.indicator raw'
        have hcache : s₂.cache = stored cfg c₁.cache q.clock (cacheKey q.indicator) raw' :=
          congrArg Client.cache hs₂
        rw [← hcache] at hstore
        rw [← hraw]
        exact contributes_of_lastContributed (hlast _ e (.inr rfl) hstore)
  · rintro hcontrib tr₁ ⟨s₁, a, s₂⟩ tr₂ rfl
    have hboth : ∀ m ∈ tr₁ ++ ⟨s₁, a, s₂⟩ :: tr₂, PlainName m ∧ FetchesContributed fl cfg m :=
      fun m hm => ⟨hplain m hm, hcontrib m hm⟩
    obtain ⟨hrun, hstep⟩ := h.split
    have hself := hboth _ (List.mem_append_right _ List.mem_cons_self)
    cases a with
    | restart => trivial
    | lookup q =>
      have hpre := holdsLast hrun (fun m hm => hboth m (List.mem_append_left _ hm))
        (hself.1 q rfl)
      exact ⟨failingKeeps hstep hself.2, hpre, hpre.next (hself.1 q rfl) hstep hself.1 hself.2⟩

/-- A lookup that gets a good response. -/
def goodQuery : Query :=
  sampleQuery 0 (sampleBody (.obj [("malicious", .int 3), ("harmless", .int 60)]))

/-- A lookup that gets a bad one, when the first has expired. -/
def badQuery : Query := sampleQuery 90000 (.obj [("bad", .str "data")])

theorem stale_discipline_sample :
    let run := runFrom (step noFloats id sampleConfig) init [.lookup goodQuery, .lookup badQuery]
    run.1.length = 2 ∧ (Throughout (Disciplined noFloats id sampleConfig) run.1 ↔
      ∀ m ∈ run.1, FetchesContributed noFloats sampleConfig m) := by
  refine ⟨by decide +kernel, stale_discipline_iff (run_runFrom _ _) fun m hm q hq => ?_⟩
  have hact := act_mem_of_mem_runFrom hm
  rw [hq] at hact
  simp only [List.mem_cons, Act.lookup.injEq, List.not_mem_nil, or_false] at hact
  rcases hact with rfl | rfl
  · decide +kernel
  · decide +kernel

/-- The bad response fails, and takes the place of the good one in the backup. -/
theorem backup_overwritten :
    ¬ Throughout (Disciplined noFloats id sampleConfig)
      (runFrom (step noFloats id sampleConfig) init [.lookup goodQuery, .lookup badQuery]).1 := by
  have hbad : ((lookup noFloats id sampleConfig
      (lookup noFloats id sampleConfig init goodQuery).2 badQuery).2.cache.store
        (staleKey (cacheKey badQuery.indicator))).map
          (fun e => contributes noFloats e.1.response) = some false := by
    decide +kernel
  simp only [runFrom, step]
  generalize (lookup noFloats id sampleConfig init goodQuery).2 = c₁ at hbad ⊢
  generalize (lookup noFloats id sampleConfig c₁ badQuery).2 = c₂ at hbad ⊢
  intro h
  have hlast := (h [_] _ [] rfl).2.2
  obtain ⟨e, hstore, he⟩ := Option.map_eq_some_iff.mp hbad
  rw [contributes_of_lastContributed (hlast _ e (.inr rfl) hstore)] at he
  contradiction

end Verdix.Virustotal
