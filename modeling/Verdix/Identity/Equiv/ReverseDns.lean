import Verdix.Identity.ReverseDns
import Verdix.Infra.Equiv.CircuitBreaker

/-!
# When the empty name is stored

`resolve_ip` stores the empty name for every lookup without a name, however it ended.
`sentinel_iff`: it is stored only after an answer that there is no record, and a lookup that failed
or was refused stores nothing, exactly when every lookup that asks the resolver gets a name or such
an answer.  Then the breaker stays closed, so none is refused.
-/

open TransitionSystem

namespace Verdix.ReverseDns

variable {cfg : Config} {p p' : Provider} {q : Query} {tr : List (Move Provider Act)} {s : Provider}

/-! ### How a lookup ends -/

/-- `HOST_NOT_FOUND` and `NO_DATA` of `netdb.h`; the other numbers of an `herror` are failures of
the resolver. -/
def DefiniteErrno (errno : ℤ) : Prop := errno = 1 ∨ errno = 4

instance (errno : ℤ) : Decidable (DefiniteErrno errno) :=
  inferInstanceAs (Decidable (errno = 1 ∨ errno = 4))

inductive LookupEnd
  | answered (name : String)
  | noRecord
  | failed
  | refused
  deriving DecidableEq

/-- How a lookup that asks the resolver ends. -/
def endOfReply (cfg : Config) (reply : Reply) : LookupEnd :=
  if reply.timedOut then .failed
  else if cfg.dnsServer.getD "" ≠ "" then
    match reply.resolver with
    | .record text => .answered (PyStr.rstrip '.' text)
    | .nxdomain => .noRecord
    | .noAnswer => .noRecord
    | .raised => .failed
  else
    match reply.socket with
    | .hostname name => .answered name
    | .herror errno => if DefiniteErrno errno then .noRecord else .failed
    | .raised => .failed

/-- The address is in scope and not in the cache. -/
def NeedsLookup (cfg : Config) (p : Provider) (q : Query) : Prop :=
  cfg.enabled = true ∧ "HOME_NET" ∈ cfg.suricata.membershipForIp (.str q.ip) ∧
    (p.cache.get q.clock.read (cacheKey q.ip)).1 = none

instance (cfg : Config) (p : Provider) (q : Query) : Decidable (NeedsLookup cfg p q) :=
  inferInstanceAs (Decidable (_ ∧ _ ∧ _))

/-- How the lookup of a `resolve_ip` ends, if it needs one. -/
def lookupEnd (cfg : Config) (p : Provider) (q : Query) : Option LookupEnd :=
  if NeedsLookup cfg p q then
    match p.breaker.enter cfg.breaker q.clock.entered with
    | .error _ => some .refused
    | .ok _ => some (endOfReply cfg q.reply)
  else
    none

/-- The cache as the lookup finds it: without the entry of the address. -/
def found (p : Provider) (q : Query) : TTLCache String :=
  (p.cache.get q.clock.read (cacheKey q.ip)).2

/-- What is asked of a `resolve_ip`. -/
structure Disciplined (cfg : Config) (p p' : Provider) (q : Query) : Prop where
  /-- A lookup without an answer leaves the cache alone, and the next one asks again. -/
  kept : lookupEnd cfg p q = some .failed ∨ lookupEnd cfg p q = some .refused →
    p'.cache = found p q ∧ ∀ t, (p'.cache.get t (cacheKey q.ip)).1 = none
  /-- The empty name is there only after an answer that there is no record, or if it was there
  before and no lookup was needed. -/
  sentinel : ∀ expiry, p'.cache.store (cacheKey q.ip) = some ("", expiry) →
    lookupEnd cfg p q = some .noRecord ∨
      lookupEnd cfg p q = none ∧ p.cache.store (cacheKey q.ip) = some ("", expiry)

/-- An answer: a name, or that there is none. -/
def Definite (e : LookupEnd) : Prop := e = .noRecord ∨ ∃ name, name ≠ "" ∧ e = .answered name

/-- The lookup gets past the cache and the breaker. -/
def Asks (cfg : Config) (p : Provider) (q : Query) : Prop :=
  NeedsLookup cfg p q ∧ ∃ cb, p.breaker.enter cfg.breaker q.clock.entered = .ok cb

/-- When it is asked the resolver answers. -/
def AsksDefinite (cfg : Config) (m : Move Provider Act) : Prop :=
  ∀ q, m.act = .resolve q → Asks cfg m.pre q → Definite (endOfReply cfg q.reply)

theorem lookupEnd_of_asks (h : Asks cfg p q) : lookupEnd cfg p q = some (endOfReply cfg q.reply) := by
  obtain ⟨hneeds, cb, hentered⟩ := h
  rw [lookupEnd, if_pos hneeds, hentered]

/-! ### What a step does -/

/-- The text that is stored. -/
def LookupEnd.stored : LookupEnd → String
  | .answered name => name
  | .noRecord => ""
  | .failed => ""
  | .refused => ""

theorem lookupInternal_cases (cfg : Config) (reply : Reply) :
    (∃ hostname, lookupInternal cfg reply = .ok hostname ∧
        hostname.getD "" = (endOfReply cfg reply).stored) ∨
      lookupInternal cfg reply = .error () ∧ endOfReply cfg reply = .failed := by
  unfold lookupInternal endOfReply
  split
  · exact .inr ⟨rfl, rfl⟩
  · split
    · cases reply.resolver with
      | record text => exact .inl ⟨_, rfl, rfl⟩
      | nxdomain => exact .inl ⟨_, rfl, rfl⟩
      | noAnswer => exact .inl ⟨_, rfl, rfl⟩
      | raised => exact .inr ⟨rfl, rfl⟩
    · cases reply.socket with
      | hostname name => exact .inl ⟨_, rfl, rfl⟩
      | herror errno =>
        refine .inl ⟨none, rfl, ?_⟩
        dsimp only
        split
        · rfl
        · rfl
      | raised => exact .inr ⟨rfl, rfl⟩

theorem doLookup_of_refused {e : CircuitBreakerOpen}
    (h : p.breaker.enter cfg.breaker q.clock.entered = .error e) :
    doLookup cfg p.breaker q.clock q.reply = (none, p.breaker) := by
  unfold doLookup AsyncCircuitBreaker.call
  rw [h]

theorem doLookup_of_entered {cb : AsyncCircuitBreaker}
    (h : p.breaker.enter cfg.breaker q.clock.entered = .ok cb) :
    (∃ hostname, doLookup cfg p.breaker q.clock q.reply = (hostname, cb.onSuccess) ∧
        hostname.getD "" = (endOfReply cfg q.reply).stored) ∨
      doLookup cfg p.breaker q.clock q.reply = (none, cb.onFailure cfg.breaker q.clock.ended) ∧
        endOfReply cfg q.reply = .failed := by
  unfold doLookup AsyncCircuitBreaker.call
  rw [h]
  rcases lookupInternal_cases cfg q.reply with ⟨hostname, hreply, hstored⟩ | ⟨hreply, hend⟩
  · rw [hreply]
    exact .inl ⟨hostname, rfl, hstored⟩
  · rw [hreply]
    exact .inr ⟨rfl, hend⟩

/-- A lookup stores a text, in whatever way it ends. -/
theorem resolveIp_of_end {e : LookupEnd} (h : lookupEnd cfg p q = some e) :
    (resolveIp cfg p q).2 =
      ⟨(found p q).set q.clock.later (cacheKey q.ip) e.stored cfg.cacheTtl,
        (doLookup cfg p.breaker q.clock q.reply).2⟩ := by
  unfold lookupEnd at h
  split at h
  · rename_i hneeds
    obtain ⟨henabled, hhome, hmiss⟩ := hneeds
    have hstored : (doLookup cfg p.breaker q.clock q.reply).1.getD "" = e.stored := by
      split at h
      · rename_i hrefused
        obtain rfl := Option.some.inj h
        rw [doLookup_of_refused hrefused]
        rfl
      · rename_i cb hentered
        obtain rfl := Option.some.inj h
        rcases doLookup_of_entered hentered with ⟨hostname, heq, hstored⟩ | ⟨heq, hend⟩
        · rw [heq, hstored]
        · rw [heq, hend]
          rfl
    unfold resolveIp
    rw [if_neg (by simp [henabled]), if_neg (by simp [hhome])]
    dsimp only
    rw [hmiss]
    dsimp only
    rw [hstored]
    rfl
  · contradiction

/-- Without a lookup nothing is stored, and the breaker is not asked. -/
theorem resolveIp_of_none (h : lookupEnd cfg p q = none) :
    ((resolveIp cfg p q).2.cache = p.cache ∨ (resolveIp cfg p q).2.cache = found p q) ∧
      (resolveIp cfg p q).2.breaker = p.breaker := by
  unfold resolveIp
  split
  · exact ⟨.inl rfl, rfl⟩
  · rename_i henabled
    split
    · exact ⟨.inl rfl, rfl⟩
    · rename_i hhome
      dsimp only
      split
      · exact ⟨.inr rfl, rfl⟩
      · rename_i hmiss
        have hneeds : NeedsLookup cfg p q :=
          ⟨by simpa using henabled, by simpa using hhome, hmiss⟩
        rw [lookupEnd, if_pos hneeds] at h
        split at h
        · contradiction
        · contradiction

theorem needsLookup_of_end {e : LookupEnd} (h : lookupEnd cfg p q = some e) :
    NeedsLookup cfg p q := by
  unfold lookupEnd at h
  split at h
  · assumption
  · contradiction

theorem step_resolve (h : step cfg p (.resolve q) = some p') : p' = (resolveIp cfg p q).2 :=
  (Option.some.inj h).symm

/-! ### Runs -/

/-- A disciplined lookup got a name or the answer that there is none. -/
theorem definite_of_disciplined {e : LookupEnd} (hend : lookupEnd cfg p q = some e)
    (hstep : step cfg p (.resolve q) = some p') (h : Disciplined cfg p p' q) : Definite e := by
  have hp' : p'.cache.store (cacheKey q.ip) =
      some (e.stored, q.clock.later + cfg.cacheTtl) := by
    rw [step_resolve hstep, resolveIp_of_end hend]
    exact TTLCache.store_set_self
  -- the entry is new, so it is no empty name unless there is none
  have hempty : e.stored = "" → e = .noRecord := by
    intro hstored
    rw [hstored] at hp'
    rcases h.sentinel _ hp' with hnone | ⟨hnone, -⟩
    · rw [hend] at hnone
      exact Option.some.inj hnone
    · rw [hend] at hnone
      contradiction
  cases e with
  | answered name =>
    refine .inr ⟨name, fun hname => ?_, rfl⟩
    have := hempty hname
    contradiction
  | noRecord => exact .inl rfl
  | failed =>
    have := hempty rfl
    contradiction
  | refused =>
    have := hempty rfl
    contradiction

/-- A step is disciplined if no lookup fails or is refused. -/
theorem disciplined_of_definite (hstep : step cfg p (.resolve q) = some p')
    (h : ∀ e, lookupEnd cfg p q = some e → Definite e) : Disciplined cfg p p' q := by
  have hp' := step_resolve hstep
  cases hend : lookupEnd cfg p q with
  | none =>
    refine ⟨by simp [hend], ?_⟩
    intro expiry hstore
    rw [hp'] at hstore
    rcases (resolveIp_of_none hend).1 with hcache | hcache
    · rw [hcache] at hstore
      -- without a lookup the entry was there before
      exact .inr ⟨hend, hstore⟩
    · rw [hcache] at hstore
      exact .inr ⟨hend, TTLCache.store_get hstore⟩
  | some e =>
    have hdefinite := h e hend
    refine ⟨?_, ?_⟩
    · rw [hend]
      rintro (he | he)
      · obtain rfl := Option.some.inj he
        rcases hdefinite with hnone | ⟨name, -, hname⟩
        · contradiction
        · contradiction
      · obtain rfl := Option.some.inj he
        rcases hdefinite with hnone | ⟨name, -, hname⟩
        · contradiction
        · contradiction
    · intro expiry hstore
      rcases hdefinite with rfl | ⟨name, hname, rfl⟩
      · -- the resolver said that there is no name
        exact .inl hend
      · rw [hp', resolveIp_of_end hend] at hstore
        rw [TTLCache.store_set_self] at hstore
        exact absurd (Prod.mk.inj (Option.some.inj hstore)).1 hname

/-- While the breaker is closed every lookup asks the resolver. -/
theorem asks_of_closed (hclosed : p.breaker.state = .closed) {e : LookupEnd}
    (hend : lookupEnd cfg p q = some e) : Asks cfg p q ∧ e = endOfReply cfg q.reply := by
  have hasks : Asks cfg p q :=
    ⟨needsLookup_of_end hend, p.breaker, AsyncCircuitBreaker.enter_of_closed hclosed⟩
  rw [lookupEnd_of_asks hasks] at hend
  exact ⟨hasks, (Option.some.inj hend).symm⟩

/-- Answers leave a closed breaker closed. -/
theorem closed_next {a : Act} (hclosed : p.breaker.state = .closed) (hstep : step cfg p a = some p')
    (h : AsksDefinite cfg ⟨p, a, p'⟩) : p'.breaker.state = .closed := by
  cases a with
  | restart =>
    obtain rfl := Option.some.inj hstep
    rfl
  | resolve q =>
    rw [step_resolve hstep]
    cases hend : lookupEnd cfg p q with
    | none => rwa [(resolveIp_of_none hend).2]
    | some e =>
      obtain ⟨hasks, rfl⟩ := asks_of_closed hclosed hend
      have hdefinite := h q rfl hasks
      rw [resolveIp_of_end hend]
      rcases doLookup_of_entered (AsyncCircuitBreaker.enter_of_closed hclosed) with
        ⟨hostname, heq, -⟩ | ⟨-, hfailed⟩
      · rw [heq]
        rfl
      · rw [hfailed] at hdefinite
        rcases hdefinite with hnone | ⟨name, -, hname⟩
        · contradiction
        · contradiction

/-- In every run the empty name is stored only after an answer that there is no record, and lookups
without an answer store nothing, exactly when the resolver answers every lookup that asks it. -/
theorem sentinel_iff (h : Run (step cfg) init tr s) :
    (∀ m ∈ tr, ∀ q, m.act = .resolve q → Disciplined cfg m.pre m.post q) ↔
      ∀ m ∈ tr, AsksDefinite cfg m := by
  constructor
  · rintro hall m hm q hact hasks
    have hstep := (h.step_of_mem hm).2
    rw [hact] at hstep
    exact definite_of_disciplined (lookupEnd_of_asks hasks) hstep (hall m hm q hact)
  · intro hdefinite m hm q hact
    obtain ⟨tr₁, tr₂, rfl⟩ := List.append_of_mem hm
    obtain ⟨hrun, hstep⟩ := h.split
    have hclosed : m.pre.breaker.state = .closed := by
      refine hrun.invariant_of_moves (I := fun p => p.breaker.state = .closed)
        (G := AsksDefinite cfg) rfl ?_ ?_
      · exact fun s a s' _ hI hstep hG => closed_next hI hstep hG
      · exact fun m' hm' => hdefinite m' (List.mem_append_left _ hm')
    rw [hact] at hstep
    refine disciplined_of_definite hstep fun e hend => ?_
    obtain ⟨hasks, rfl⟩ := asks_of_closed hclosed hend
    exact hdefinite m hm q hact hasks

/-! ### Samples -/

/-- The addresses of 10.0.0.0/8 are at home; the system resolver is asked. -/
def sampleConfig : Config where
  suricata := ⟨[.v4 (Ipaddress.subnet4 10 0 0 0 8)], [], SuricataConfig.homeNetApart_nil⟩
  enabled := true
  dnsServer := none
  cacheTtl := 3600
  breaker := ⟨5, 60⟩

/-- A lookup at `t` that the resolver answers in some way. -/
def sampleQuery (t : ℚ) (timedOut : Bool) (socket : SocketAnswer) : Query where
  ip := "10.0.0.50"
  reply := ⟨timedOut, socket, .raised⟩
  clock := ⟨t, t, t, t, .yearOne⟩

/-- A lookup without a record, and one that times out when the first has expired. -/
def sampleActs : List Act :=
  [.resolve (sampleQuery 0 false (.herror 1)), .resolve (sampleQuery 7200 true .raised)]

theorem sentinel_sample :
    (runFrom (step sampleConfig) init sampleActs).1.length = 2 ∧
      ((∀ m ∈ (runFrom (step sampleConfig) init sampleActs).1, ∀ q, m.act = .resolve q →
          Disciplined sampleConfig m.pre m.post q) ↔
        ∀ m ∈ (runFrom (step sampleConfig) init sampleActs).1, AsksDefinite sampleConfig m) :=
  ⟨rfl, sentinel_iff (run_runFrom _ _)⟩

/-- A lookup that timed out stores the empty name: a minute later the address is not asked for. -/
theorem timeout_stored :
    ¬ ∀ m ∈ (runFrom (step sampleConfig) init [.resolve (sampleQuery 0 true .raised)]).1,
      ∀ q, m.act = .resolve q → Disciplined sampleConfig m.pre m.post q := by
  intro h
  have hdisc := h ⟨init, .resolve (sampleQuery 0 true .raised), _⟩ List.mem_cons_self _ rfl
  have hfailed : lookupEnd sampleConfig init (sampleQuery 0 true .raised) = some .failed := by
    decide +kernel
  have hlater := (hdisc.kept (.inl hfailed)).2 60
  have hstored : ((resolveIp sampleConfig init (sampleQuery 0 true .raised)).2.cache.get 60
      (cacheKey "10.0.0.50")).1 = some "" := by
    decide +kernel
  exact absurd (hstored.symm.trans hlater) (by simp)

end Verdix.ReverseDns
