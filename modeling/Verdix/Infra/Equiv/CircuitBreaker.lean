import Verdix.Infra.CircuitBreaker
import Mathlib.Tactic.Linarith

/-!
# What the circuit breaker does to overlapping calls

A breaker remembers three numbers; what they stand for is the history of the outcomes it was told,
newest first.  `CoolingDown` says of such a history that it ends in at least `fail_max` failures in a
row, the last of them less than `reset_timeout` ago, and `Agrees.enter_iff` that a call is refused
exactly then: the breaker is a function of the outcomes and of nothing else.  `Settled` is the same
for calls that come one after the other.

* `probing_refused_iff`: once the breaker has been open for `reset_timeout`, the first call to start
  is the probe, and every call that comes while it runs is refused, exactly when each of them falls
  into a cooldown.  The half-open state itself refuses nobody, and a success ends a cooldown.
  Which calls are probes is noted by an observer of the run, who misses none (`probes_watched`,
  `isDue_of_enter`).
* `cooldown_kept_iff`: once open, the breaker starts nothing before `reset_timeout` has passed, is
  left only through the half-open state and is not closed by a call let in before, exactly when no
  such call succeeds until the breaker is closed again.
-/

open TransitionSystem

namespace Verdix.AsyncCircuitBreaker

/-! ### Histories of outcomes -/

/-- Outcomes with the time each was told to the breaker, newest first. -/
abbrev History := List (ℚ × Outcome)

/-- The failures since the last success. -/
def streak : History → ℕ
  | (_, .failure) :: log => streak log + 1
  | (_, .cancelled) :: log => streak log
  | _ => 0

/-- The time of the last failure, if no success came after it. -/
def lastFailure : History → Option ℚ
  | (t, .failure) :: _ => some t
  | (_, .cancelled) :: log => lastFailure log
  | _ => none

/-- The last outcomes are `fail_max` failures or more, the last less than `reset_timeout` ago. -/
def CoolingDown (cfg : BreakerConfig) (log : History) (now : ℚ) : Prop :=
  ∃ t, lastFailure log = some t ∧ cfg.failMax ≤ streak log ∧ now - t < cfg.resetTimeout

variable {cfg : BreakerConfig} {log : History} {now t : ℚ} {cb cb' : AsyncCircuitBreaker}

instance (cfg : BreakerConfig) (log : History) (now : ℚ) : Decidable (CoolingDown cfg log now) :=
  decidable_of_iff
    (∃ t ∈ lastFailure log, cfg.failMax ≤ streak log ∧ now - t < cfg.resetTimeout) Iff.rfl

/-- The breaker is in the state the history calls for. -/
structure Agrees (cfg : BreakerConfig) (log : History) (now : ℚ) (cb : AsyncCircuitBreaker) :
    Prop where
  failures : cb.failures = streak log
  closed : cb.state = .closed → lastFailure log = none ∨ streak log < cfg.failMax
  opened : cb.state ≠ .closed → lastFailure log = some cb.openedAt ∧ cfg.failMax ≤ streak log
  waited : cb.state = .halfOpen → cfg.resetTimeout ≤ now - cb.openedAt

theorem agrees_init : Agrees cfg [] now init where
  failures := rfl
  closed _ := .inl rfl
  opened h := absurd rfl h
  waited h := by contradiction

theorem Agrees.later (h : Agrees cfg log now cb) (ht : now ≤ t) : Agrees cfg log t cb where
  failures := h.failures
  closed := h.closed
  opened := h.opened
  waited hs := by
    have hw := h.waited hs
    linarith

/-! ### Entering -/

theorem enter_eq_ok (h : cb.enter cfg now = .ok cb') :
    cb' = cb.checkReset cfg now ∧ cb'.state ≠ .open_ := by
  unfold enter at h
  dsimp only at h
  split at h
  · contradiction
  · rename_i hopen
    obtain rfl := Except.ok.inj h
    exact ⟨rfl, hopen⟩

theorem enter_of_closed (h : cb.state = .closed) : cb.enter cfg now = .ok cb := by
  have hreset : cb.checkReset cfg now = cb := if_neg fun hdue => by
    rw [h] at hdue
    exact absurd hdue.1 (by decide)
  have hopen : cb.state ≠ .open_ := by
    rw [h]
    decide
  unfold enter
  rw [hreset]
  exact if_neg hopen

theorem checkReset_state :
    (cb.checkReset cfg now).state = .open_ ↔
      cb.state = .open_ ∧ now - cb.openedAt < cfg.resetTimeout := by
  unfold checkReset
  split
  · rename_i hdue
    constructor
    · intro h
      contradiction
    · rintro ⟨-, hlt⟩
      exact absurd hdue.2 (not_le.mpr hlt)
  · rename_i hdue
    constructor
    · intro hopen
      exact ⟨hopen, not_le.mp fun hle => hdue ⟨hopen, hle⟩⟩
    · exact And.left

/-- A call is refused by an open breaker whose time is not up. -/
theorem enter_eq_error :
    (∃ e, cb.enter cfg now = .error e) ↔
      cb.state = .open_ ∧ now - cb.openedAt < cfg.resetTimeout := by
  rw [← checkReset_state]
  unfold enter
  dsimp only
  split
  · rename_i hopen
    exact ⟨fun _ => hopen, fun _ => ⟨_, rfl⟩⟩
  · rename_i hopen
    exact ⟨fun ⟨_, h⟩ => by contradiction, fun h => absurd h hopen⟩

theorem Agrees.checkReset (h : Agrees cfg log now cb) :
    Agrees cfg log now (cb.checkReset cfg now) := by
  unfold AsyncCircuitBreaker.checkReset
  split
  · rename_i hdue
    have hopened := h.opened (by rw [hdue.1]; decide)
    exact ⟨h.failures, fun hs => by contradiction, fun _ => hopened, fun _ => hdue.2⟩
  · exact h

theorem Agrees.enter (h : Agrees cfg log now cb) (hok : cb.enter cfg now = .ok cb') :
    Agrees cfg log now cb' := by
  obtain ⟨rfl, -⟩ := enter_eq_ok hok
  exact h.checkReset

/-- A call is refused exactly during a cooldown. -/
theorem Agrees.enter_iff (h : Agrees cfg log now cb) :
    (∃ e, cb.enter cfg now = .error e) ↔ CoolingDown cfg log now := by
  rw [enter_eq_error]
  constructor
  · rintro ⟨hopen, hlt⟩
    have hopened := h.opened (by rw [hopen]; decide)
    exact ⟨cb.openedAt, hopened.1, hopened.2, hlt⟩
  · rintro ⟨t, ht, hmax, hlt⟩
    -- neither a closed nor a half-open breaker agrees with a history that is cooling down
    have hclosed : cb.state ≠ .closed := fun hs => by
      rcases h.closed hs with hnone | hfew
      · rw [hnone] at ht
        contradiction
      · omega
    obtain ⟨hlast, -⟩ := h.opened hclosed
    obtain rfl : cb.openedAt = t := Option.some.inj (hlast.symm.trans ht)
    refine ⟨?_, hlt⟩
    cases hs : cb.state with
    | closed => exact absurd hs hclosed
    | open_ => rfl
    | halfOpen => exact absurd (h.waited hs) (not_le.mpr hlt)

/-! ### Ending -/

theorem Agrees.onFailure (h : Agrees cfg log t cb) :
    Agrees cfg ((now, .failure) :: log) now (cb.onFailure cfg now) := by
  have hstreak : streak ((now, .failure) :: log) = cb.failures + 1 := by rw [h.failures]; rfl
  unfold AsyncCircuitBreaker.onFailure
  dsimp only
  split
  · rename_i hopens
    refine ⟨hstreak.symm, fun hs => by contradiction, fun _ => ⟨rfl, ?_⟩, fun hs => by contradiction⟩
    rcases hopens with hmax | hhalf
    · rwa [hstreak]
    · have hmax := (h.opened (by rw [hhalf]; decide)).2
      rw [hstreak, h.failures]
      omega
  · rename_i hstays
    rw [not_or, not_le] at hstays
    have hfew : streak ((now, .failure) :: log) < cfg.failMax := by rw [hstreak]; exact hstays.1
    refine ⟨hstreak.symm, fun _ => .inr hfew, fun hs => ?_, fun hs => absurd hs hstays.2⟩
    -- an open breaker has seen `fail_max` failures already
    have hmax := (h.opened hs).2
    have hlt := hstays.1
    rw [h.failures] at hlt
    omega

theorem Agrees.settle (h : Agrees cfg log now cb) (o : Outcome) :
    Agrees cfg ((now, o) :: log) now (cb.settle cfg now o) := by
  cases o with
  | success => exact ⟨rfl, fun _ => .inl rfl, fun hs => absurd rfl hs, fun hs => by contradiction⟩
  | failure => exact h.onFailure
  | cancelled => exact ⟨h.failures, h.closed, h.opened, h.waited⟩

/-! ### Calls one after the other -/

/-- Between calls that do not overlap the breaker is not half open, and it agrees with the history
whatever the time is. -/
structure Settled (cfg : BreakerConfig) (log : History) (cb : AsyncCircuitBreaker) : Prop where
  state : cb.state ≠ .halfOpen
  agrees : ∀ t, Agrees cfg log t cb

theorem settled_init : Settled cfg [] init where
  state := by decide
  agrees _ := ⟨rfl, fun _ => .inl rfl, fun h => absurd rfl h, fun h => by contradiction⟩

variable {ε α : Type} {ended : ℚ} {func : Except ε α}

theorem Settled.enter_iff (h : Settled cfg log cb) :
    (∃ e, cb.enter cfg now = .error e) ↔ CoolingDown cfg log now :=
  (h.agrees now).enter_iff

/-- A call that is refused leaves the breaker as it is. -/
theorem call_of_refused {e : CircuitBreakerOpen} (h : cb.enter cfg now = .error e) :
    cb.call cfg now ended func = (.refused e, cb) := by
  unfold call
  rw [h]

theorem call_of_entered (h : cb.enter cfg now = .ok cb') :
    cb.call cfg now ended func =
      match func with
      | .ok a => (.returned a, cb'.onSuccess)
      | .error e => (.raised e, cb'.onFailure cfg ended) := by
  cases func with
  | ok a => simp only [call, h]
  | error e => simp only [call, h]

theorem settled_onSuccess (cfg : BreakerConfig) (log : History) (cb : AsyncCircuitBreaker) (t : ℚ) :
    Settled cfg ((t, .success) :: log) cb.onSuccess where
  state := by simp [onSuccess]
  agrees _ := ⟨rfl, fun _ => .inl rfl, fun h => absurd rfl h, fun h => by contradiction⟩

theorem Settled.onFailure (h : Settled cfg log cb) (hcb : cb.enter cfg now = .ok cb') :
    Settled cfg ((t, .failure) :: log) (cb'.onFailure cfg t) := by
  have hstate : (cb'.onFailure cfg t).state ≠ .halfOpen := by
    unfold AsyncCircuitBreaker.onFailure
    dsimp only
    split
    · simp
    · rename_i hstays
      exact (not_or.mp hstays).2
  have hfail : Agrees cfg ((t, .failure) :: log) t (cb'.onFailure cfg t) :=
    ((h.agrees now).enter hcb).onFailure
  refine ⟨hstate, fun u => ?_⟩
  exact ⟨hfail.failures, hfail.closed, hfail.opened, fun hs => absurd hs hstate⟩

/-! ### Runs of overlapping calls -/

namespace Calls

/-- What a step tells the breaker. -/
def outcomeOf : Act → Option (ℚ × Outcome)
  | .call _ _ => none
  | .finish _ t o => some (t, o)

/-- The outcomes of a run, newest first. -/
def history (tr : List (Move Calls Act)) : History := (tr.filterMap fun m => outcomeOf m.act).reverse

theorem history_snoc (tr : List (Move Calls Act)) (m : Move Calls Act) :
    history (tr ++ [m]) = (outcomeOf m.act).toList ++ history tr := by
  unfold history
  rw [List.filterMap_append, List.reverse_append]
  congr 1
  cases h : outcomeOf m.act <;> simp [h]

variable {t₀ : ℚ} {tr : List (Move Calls Act)} {s s' : Calls} {a : Act} {i : ℕ} {o : Outcome}

/-- The two ways a call can enter. -/
theorem step_call (h : step cfg s (.call i t) = some s') :
    s.now ≤ t ∧ ((∃ e, s.breaker.enter cfg t = .error e) ∧ s' = { s with now := t } ∨
      ∃ cb, s.breaker.enter cfg t = .ok cb ∧
        s' = ⟨cb, t, s.running ++ [⟨i, cb.state = .halfOpen⟩]⟩) := by
  rw [step] at h
  split at h
  · rename_i hen
    refine ⟨hen.1, ?_⟩
    split at h
    · rename_i e he
      exact .inl ⟨⟨e, he⟩, (Option.some.inj h).symm⟩
    · rename_i cb hcb
      exact .inr ⟨cb, hcb, (Option.some.inj h).symm⟩
  · contradiction

/-- A call that is refused only passes the time. -/
theorem step_of_refused (h : step cfg s (.call i t) = some s')
    (href : ∃ e, s.breaker.enter cfg t = .error e) : s' = { s with now := t } := by
  obtain ⟨-, ⟨-, hs'⟩ | ⟨cb, hcb, -⟩⟩ := step_call h
  · exact hs'
  · obtain ⟨e, he⟩ := href
    rw [he] at hcb
    contradiction

theorem step_finish (h : step cfg s (.finish i t o) = some s') :
    s.now ≤ t ∧ s' = ⟨s.breaker.settle cfg t o, t, s.running.filter fun c => c.id ≠ i⟩ := by
  rw [step] at h
  split at h
  · rename_i hen
    exact ⟨hen.1, (Option.some.inj h).symm⟩
  · contradiction

/-- Along every run the breaker agrees with the outcomes so far. -/
theorem agrees (h : Run (step cfg) (init t₀) tr s) : Agrees cfg (history tr) s.now s.breaker := by
  refine h.history (P := fun tr s => Agrees cfg (history tr) s.now s.breaker) agrees_init ?_
  intro tr s a s' _ hI hstep
  rw [history_snoc]
  cases a with
  | call i t =>
    obtain ⟨hle, ⟨-, rfl⟩ | ⟨cb, hcb, rfl⟩⟩ := step_call hstep
    · exact hI.later hle
    · exact (hI.later hle).enter hcb
  | finish i t o =>
    obtain ⟨hle, rfl⟩ := step_finish hstep
    exact (hI.later hle).settle o

/-- Along every run a call is refused exactly during a cooldown. -/
theorem refused_iff (h : Run (step cfg) (init t₀) tr s) (ht : s.now ≤ t) :
    (∃ e, s.breaker.enter cfg t = .error e) ↔ CoolingDown cfg (history tr) t :=
  ((agrees h).later ht).enter_iff

theorem now_le (h : step cfg s a = some s') : s.now ≤ s'.now := by
  cases a with
  | call i t =>
    obtain ⟨hle, ⟨-, rfl⟩ | ⟨cb, -, rfl⟩⟩ := step_call h
    · exact hle
    · exact hle
  | finish i t o =>
    obtain ⟨hle, rfl⟩ := step_finish h
    exact hle

/-- A call that ends without success leaves an open breaker open. -/
theorem settle_open (hopen : cb.state = .open_) (ho : o ≠ .success) :
    (cb.settle cfg t o).state = .open_ := by
  cases o with
  | success => contradiction
  | failure =>
    rw [settle, onFailure]
    split
    · rfl
    · exact hopen
  | cancelled => exact hopen

/-- No outcome makes a cooldown shorter. -/
theorem le_settle_openedAt {u : ℚ} (hcb : u ≤ cb.openedAt) (ht : u ≤ t) :
    u ≤ (cb.settle cfg t o).openedAt := by
  cases o with
  | success => exact hcb
  | failure =>
    rw [settle, onFailure]
    split
    · exact ht
    · exact hcb
  | cancelled => exact hcb

/-- Only a failure opens a breaker, at its own time. -/
theorem openedAt_of_opens (h : step cfg s a = some s') (hpre : s.breaker.state ≠ .open_)
    (hpost : s'.breaker.state = .open_) : s'.breaker.openedAt = s'.now := by
  cases a with
  | call i t =>
    obtain ⟨-, ⟨-, rfl⟩ | ⟨cb, hcb, rfl⟩⟩ := step_call h
    · exact absurd hpost hpre
    · exact absurd hpost (enter_eq_ok hcb).2
  | finish i t o =>
    obtain ⟨-, rfl⟩ := step_finish h
    cases o with
    | success => contradiction
    | failure =>
      dsimp only [settle, onFailure] at hpost ⊢
      split
      · rfl
      · rename_i hstays
        rw [if_neg hstays] at hpost
        exact absurd hpost hpre
    | cancelled => exact absurd hpost hpre

/-! ### One probe at a time -/

/-- A call at `t` raises `CircuitBreakerOpen` and its `func` is not started. -/
def Refuses (cfg : BreakerConfig) (m : Move Calls Act) (t : ℚ) : Prop :=
  (∃ e, m.pre.breaker.enter cfg t = .error e) ∧ m.post.running = m.pre.running

instance (m : Move Calls Act) (t : ℚ) : Decidable (Refuses cfg m t) :=
  decidable_of_iff
    ((m.pre.breaker.state = .open_ ∧ t - m.pre.breaker.openedAt < cfg.resetTimeout) ∧
      m.post.running = m.pre.running)
    (and_congr_left' enter_eq_error.symm)

/-- What is asked of each call that comes at some time. -/
def OnCall (Q : ℚ → Prop) : Act → Prop
  | .call _ t => Q t
  | .finish _ _ _ => True

instance (Q : ℚ → Prop) [DecidablePred Q] : DecidablePred (OnCall Q) := fun a =>
  match a with
  | .call _ t => inferInstanceAs (Decidable (Q t))
  | .finish _ _ _ => inferInstanceAs (Decidable True)

/-- What an observer of a run notes down. -/
structure Watch where
  /-- When the breaker opened, while it is open. -/
  openSince : Option ℚ
  /-- It has been open for `reset_timeout`, and no `func` has been started since. -/
  due : Bool
  /-- The probes under way. -/
  probes : List ℕ

/-- By `t` a probe is due. -/
def Watch.isDue (cfg : BreakerConfig) (w : Watch) (t : ℚ) : Bool :=
  w.due || w.openSince.any fun opened => opened + cfg.resetTimeout ≤ t

/-- What the observer notes at a step. -/
def Watch.next (cfg : BreakerConfig) (w : Watch) (m : Move Calls Act) : Watch where
  openSince := if m.post.breaker.state = .open_ then w.openSince.getD m.post.now else none
  -- a late success that closes the breaker leaves the probe due
  due := w.isDue cfg m.post.now && m.post.running.all fun c => m.pre.IsRunning c.id
  -- the first call started when a probe is due, and the calls let in by a half-open breaker
  probes := (m.post.running.filter fun c =>
    c.probe || w.probes.contains c.id ||
      w.isDue cfg m.post.now && !decide (m.pre.IsRunning c.id)).map RunningCall.id

/-- What the observer has noted along a run. -/
def watch (cfg : BreakerConfig) (tr : List (Move Calls Act)) : Watch :=
  tr.foldl (Watch.next cfg) ⟨none, false, []⟩

theorem watch_snoc (tr : List (Move Calls Act)) (m : Move Calls Act) :
    watch cfg (tr ++ [m]) = (watch cfg tr).next cfg m := by
  rw [watch, List.foldl_append]
  rfl

/-- While a probe is under way every other call is refused. -/
def ProbeAlone (cfg : BreakerConfig) (before : List (Move Calls Act)) (m : Move Calls Act) : Prop :=
  (watch cfg before).probes ≠ [] → OnCall (Refuses cfg m) m.act

instance (before : List (Move Calls Act)) (m : Move Calls Act) :
    Decidable (ProbeAlone cfg before m) :=
  inferInstanceAs (Decidable ((watch cfg before).probes ≠ [] → OnCall (Refuses cfg m) m.act))

/-- While a probe is under way every call falls into a cooldown. -/
def ProbeCoolsDown (cfg : BreakerConfig) (before : List (Move Calls Act)) (m : Move Calls Act) :
    Prop :=
  (watch cfg before).probes ≠ [] → OnCall (CoolingDown cfg (history before)) m.act

instance (before : List (Move Calls Act)) (m : Move Calls Act) :
    Decidable (ProbeCoolsDown cfg before m) :=
  inferInstanceAs
    (Decidable ((watch cfg before).probes ≠ [] → OnCall (CoolingDown cfg (history before)) m.act))

/-- The probes noted are calls under way, and no call let in by a half-open breaker is missed. -/
theorem probes_watched (h : Run (step cfg) (init t₀) tr s) :
    (∀ i ∈ (watch cfg tr).probes, s.IsRunning i) ∧
      ∀ c ∈ s.running, c.probe = true → c.id ∈ (watch cfg tr).probes := by
  refine h.history (P := fun tr s => (∀ i ∈ (watch cfg tr).probes, s.IsRunning i) ∧
    ∀ c ∈ s.running, c.probe = true → c.id ∈ (watch cfg tr).probes) ?_ ?_
  · exact ⟨fun i hi => absurd hi List.not_mem_nil, fun c hc => absurd hc List.not_mem_nil⟩
  · intro tr s a s' _ _ _
    rw [watch_snoc, Watch.next]
    constructor
    · intro i hi
      obtain ⟨c, hc, rfl⟩ := List.mem_map.mp hi
      exact ⟨c, List.mem_of_mem_filter hc, rfl⟩
    · intro c hc hprobe
      exact List.mem_map_of_mem (List.mem_filter.mpr ⟨hc, by simp [hprobe]⟩)

theorem openSince_of_not_open (h : Run (step cfg) (init t₀) tr s) :
    s.breaker.state ≠ .open_ → (watch cfg tr).openSince = none := by
  refine h.history
    (P := fun tr s => s.breaker.state ≠ .open_ → (watch cfg tr).openSince = none) ?_ ?_
  · exact fun _ => rfl
  · intro tr s a s' _ _ _ hpost
    rw [watch_snoc]
    exact if_neg hpost

/-- The time since which the breaker is open is noted, and its last cooldown began no earlier. -/
theorem openSince_watched (h : Run (step cfg) (init t₀) tr s) (hopen : s.breaker.state = .open_) :
    ∃ opened, (watch cfg tr).openSince = some opened ∧ opened ≤ s.breaker.openedAt := by
  have hinv : s.breaker.state = .open_ → ∃ opened, (watch cfg tr).openSince = some opened ∧
      opened ≤ s.breaker.openedAt ∧ opened ≤ s.now := by
    refine h.history (P := fun tr s => s.breaker.state = .open_ → ∃ opened,
      (watch cfg tr).openSince = some opened ∧ opened ≤ s.breaker.openedAt ∧ opened ≤ s.now) ?_ ?_
    · intro hinit
      contradiction
    · intro tr s a s' hrun ih hstep hpost
      have hnext : (watch cfg (tr ++ [⟨s, a, s'⟩])).openSince =
          some ((watch cfg tr).openSince.getD s'.now) := by
        rw [watch_snoc]
        exact if_pos hpost
      have hnow := now_le hstep
      -- open before and after, the first of these times stays
      by_cases hpre : s.breaker.state = .open_
      · obtain ⟨opened, hopened, hle, hlenow⟩ := ih hpre
        rw [hopened] at hnext
        refine ⟨opened, hnext, ?_, hlenow.trans hnow⟩
        cases a with
        | call i t =>
          obtain ⟨-, ⟨-, rfl⟩ | ⟨cb, hcb, rfl⟩⟩ := step_call hstep
          · exact hle
          · exact absurd hpost (enter_eq_ok hcb).2
        | finish i t o =>
          obtain ⟨-, rfl⟩ := step_finish hstep
          exact le_settle_openedAt hle (hlenow.trans hnow)
      · have hat := openedAt_of_opens hstep hpre hpost
        have hnone : (watch cfg tr).openSince = none := openSince_of_not_open hrun hpre
        rw [hnone] at hnext
        exact ⟨s'.now, hnext, hat.ge, le_rfl⟩
  obtain ⟨opened, hopened, hle, -⟩ := hinv hopen
  exact ⟨opened, hopened, hle⟩

/-- The call that turns an open breaker half open finds a probe due. -/
theorem isDue_of_enter (h : Run (step cfg) (init t₀) tr s) (hopen : s.breaker.state = .open_)
    (henter : s.breaker.enter cfg t = .ok cb) : (watch cfg tr).isDue cfg t = true := by
  obtain ⟨opened, hopened, hle⟩ := openSince_watched h hopen
  obtain ⟨rfl, hne⟩ := enter_eq_ok henter
  rw [ne_eq, checkReset_state, not_and, not_lt] at hne
  have hdue : opened + cfg.resetTimeout ≤ t := by
    have hwaited := hne hopen
    linarith
  rw [Watch.isDue, hopened]
  simp [hdue]

theorem refuses_iff {m : Move Calls Act} (h : Run (step cfg) (init t₀) tr m.pre)
    (hcall : m.act = .call i t) (hstep : step cfg m.pre m.act = some m.post) :
    Refuses cfg m t ↔ CoolingDown cfg (history tr) t := by
  rw [hcall] at hstep
  rw [← refused_iff h (step_call hstep).1]
  constructor
  · exact And.left
  · intro href
    refine ⟨href, ?_⟩
    rw [step_of_refused hstep href]

/-- While a probe is under way no other `func` is started, in every run and exactly when each call
that comes meanwhile falls into a cooldown: a failure of an earlier call has opened the breaker
again, less than `reset_timeout` ago, and no call has succeeded since. -/
theorem probing_refused_iff (h : Run (step cfg) (init t₀) tr s) :
    Throughout (ProbeAlone cfg) tr ↔ Throughout (ProbeCoolsDown cfg) tr := by
  refine h.throughout_iff fun tr₁ m hrun hstep => ?_
  refine imp_congr_right fun _ => ?_
  cases hact : m.act with
  | call i t => exact refuses_iff hrun hact hstep
  | finish i t o => exact Iff.rfl

/-- Two calls overlap the failure that opens the breaker; the second fails while the probe runs. -/
def lateFailure : List Act :=
  [.call 1 0, .call 2 0, .finish 1 1 .failure, .call 3 61, .finish 2 62 .failure, .call 4 63]

theorem probing_refused_late :
    (runFrom (step ⟨1, 60⟩) (init 0) lateFailure).1.length = 6 ∧
      Throughout (ProbeAlone ⟨1, 60⟩) (runFrom (step ⟨1, 60⟩) (init 0) lateFailure).1 :=
  ⟨by decide +kernel, (probing_refused_iff (run_runFrom _ _)).mpr (by decide +kernel)⟩

/-- The probe runs from 61 on; at 62 a second `func` is started. -/
theorem two_probes :
    ¬ Throughout (ProbeAlone ⟨1, 60⟩) (runFrom (step ⟨1, 60⟩) (init 0)
      [.call 1 0, .finish 1 1 .failure, .call 2 61, .call 3 62]).1 := by
  decide +kernel

-- a late success closes the breaker when the probe is due, and two calls start together
example : ¬ Throughout (ProbeAlone ⟨1, 60⟩) (runFrom (step ⟨1, 60⟩) (init 0)
    [.call 1 0, .call 2 0, .finish 1 1 .failure, .finish 2 62 .success, .call 3 63,
      .call 4 63]).1 := by
  decide +kernel

/-! ### The cooldown -/

/-- The breaker opens. -/
def Opens (m : Move Calls Act) : Prop := m.pre.breaker.state ≠ .open_ ∧ m.post.breaker.state = .open_

instance (m : Move Calls Act) : Decidable (Opens m) :=
  inferInstanceAs
    (Decidable (m.pre.breaker.state ≠ .open_ ∧ m.post.breaker.state = .open_))

/-- When `m` opens the breaker, a call in a later step `m'` that comes before `reset_timeout` has
passed is refused. -/
def CoolsAfter (cfg : BreakerConfig) (m m' : Move Calls Act) : Prop :=
  Opens m → OnCall (fun t => t < m.post.now + cfg.resetTimeout → Refuses cfg m' t) m'.act

instance (m m' : Move Calls Act) : Decidable (CoolsAfter cfg m m') :=
  inferInstanceAs (Decidable
    (Opens m → OnCall (fun t => t < m.post.now + cfg.resetTimeout → Refuses cfg m' t) m'.act))

/-- A call that leaves the breaker half open once the time is up. -/
def TurnsHalfOpen (cfg : BreakerConfig) (m : Move Calls Act) : Prop :=
  m.post.breaker.state = .halfOpen ∧
    match m.act with
    | .call _ t => cfg.resetTimeout ≤ t - m.pre.breaker.openedAt
    | .finish _ _ _ => False

/-- The open state is left only through the half-open one, after `reset_timeout`. -/
def LeftHalfOpen (cfg : BreakerConfig) (m : Move Calls Act) : Prop :=
  m.pre.breaker.state = .open_ → m.post.breaker.state ≠ .open_ → TurnsHalfOpen cfg m

/-- What is asked of a call that succeeds. -/
def OnSuccess (Q : ℕ → Prop) : Act → Prop
  | .finish i _ .success => Q i
  | _ => True

instance (Q : ℕ → Prop) [DecidablePred Q] : DecidablePred (OnSuccess Q) := fun a =>
  match a with
  | .finish i _ .success => inferInstanceAs (Decidable (Q i))
  | .finish _ _ .failure | .finish _ _ .cancelled | .call _ _ =>
    inferInstanceAs (Decidable True)

/-- The calls under way that were let in before the breaker last opened. -/
def lateCalls (tr : List (Move Calls Act)) : List ℕ :=
  tr.foldl (fun late m =>
    if Opens m then m.post.running.map RunningCall.id
    else late.filter fun i => m.post.IsRunning i) []

/-- A late success does not close a breaker that is open or half open. -/
def LateKeeps (before : List (Move Calls Act)) (m : Move Calls Act) : Prop :=
  OnSuccess (fun i => i ∈ lateCalls before → m.pre.breaker.state ≠ .closed →
    m.post.breaker.state ≠ .closed) m.act

instance (before : List (Move Calls Act)) (m : Move Calls Act) : Decidable (LateKeeps before m) :=
  inferInstanceAs (Decidable (OnSuccess (fun i => i ∈ lateCalls before →
    m.pre.breaker.state ≠ .closed → m.post.breaker.state ≠ .closed) m.act))

/-- Once open, the breaker starts nothing before `reset_timeout` has passed, is left only through
the half-open state, and no late success closes it. -/
structure CooldownKept (cfg : BreakerConfig) (tr : List (Move Calls Act)) : Prop where
  cools : tr.Pairwise (CoolsAfter cfg)
  left : ∀ m ∈ tr, LeftHalfOpen cfg m
  late : Throughout LateKeeps tr

/-- A call let in before the breaker last opened succeeds only once the breaker is closed again. -/
def NoLateSuccess (before : List (Move Calls Act)) (m : Move Calls Act) : Prop :=
  OnSuccess (fun i => i ∈ lateCalls before → m.pre.breaker.state = .closed) m.act

instance (before : List (Move Calls Act)) (m : Move Calls Act) :
    Decidable (NoLateSuccess before m) :=
  inferInstanceAs (Decidable
    (OnSuccess (fun i => i ∈ lateCalls before → m.pre.breaker.state = .closed) m.act))

/-- No call succeeds while the breaker is open. -/
def NoSuccessWhileOpen (m : Move Calls Act) : Prop :=
  OnSuccess (fun _ => m.pre.breaker.state ≠ .open_) m.act

theorem lateCalls_snoc (tr : List (Move Calls Act)) (m : Move Calls Act) :
    lateCalls (tr ++ [m]) =
      if Opens m then m.post.running.map RunningCall.id
      else (lateCalls tr).filter fun i => m.post.IsRunning i := by
  rw [lateCalls, List.foldl_append]
  rfl

theorem isRunning_of_finish (h : step cfg s (.finish i t o) = some s') : s.IsRunning i := by
  rw [step] at h
  split at h
  · rename_i hen
    exact hen.2
  · contradiction

/-- No call is let in by a step that leaves the breaker open. -/
theorem isRunning_of_post_open (h : step cfg s a = some s') (hopen : s'.breaker.state = .open_)
    (hi : s'.IsRunning i) : s.IsRunning i := by
  obtain ⟨c, hc, rfl⟩ := hi
  cases a with
  | call j t =>
    obtain ⟨-, ⟨-, rfl⟩ | ⟨cb, hcb, rfl⟩⟩ := step_call h
    · exact ⟨c, hc, rfl⟩
    · exact absurd hopen (enter_eq_ok hcb).2
  | finish j t o =>
    obtain ⟨-, rfl⟩ := step_finish h
    exact ⟨c, List.mem_of_mem_filter hc, rfl⟩

/-- While the breaker is open, every call under way was let in before it opened. -/
theorem late_of_open (h : Run (step cfg) (init t₀) tr s) :
    s.breaker.state = .open_ → ∀ i, s.IsRunning i → i ∈ lateCalls tr := by
  refine h.history (P := fun tr s =>
    s.breaker.state = .open_ → ∀ i, s.IsRunning i → i ∈ lateCalls tr) ?_ ?_
  · intro hopen
    contradiction
  · intro tr s a s' _ hlate hstep hopen i hi
    rw [lateCalls_snoc]
    split_ifs with hopens
    · obtain ⟨c, hc, rfl⟩ := hi
      exact List.mem_map_of_mem hc
    · -- the breaker was open before, and nothing has been let in
      have hpre : s.breaker.state = .open_ := by
        by_contra hne
        exact hopens ⟨hne, hopen⟩
      have hmem : i ∈ lateCalls tr := hlate hpre i (isRunning_of_post_open hstep hopen hi)
      exact List.mem_filter.mpr ⟨hmem, decide_eq_true hi⟩

theorem noSuccessWhileOpen_of_late {m : Move Calls Act} (hrun : Run (step cfg) (init t₀) tr m.pre)
    (hstep : step cfg m.pre m.act = some m.post) (h : NoLateSuccess tr m) :
    NoSuccessWhileOpen m := by
  obtain ⟨s, a, s'⟩ := m
  cases a with
  | call i t => trivial
  | finish i t o =>
    cases o with
    | success =>
      intro hopen
      have hclosed : s.breaker.state = .closed :=
        h (late_of_open hrun hopen i (isRunning_of_finish hstep))
      rw [hclosed] at hopen
      contradiction
    | failure => trivial
    | cancelled => trivial

/-- A success closes the breaker, so a late one must find it closed. -/
theorem lateKeeps_iff {m : Move Calls Act} (hstep : step cfg m.pre m.act = some m.post) :
    LateKeeps tr m ↔ NoLateSuccess tr m := by
  obtain ⟨s, a, s'⟩ := m
  cases a with
  | call i t => exact Iff.rfl
  | finish i t o =>
    cases o with
    | failure => exact Iff.rfl
    | cancelled => exact Iff.rfl
    | success =>
      have hclosed : s'.breaker.state = .closed := by
        obtain ⟨-, hs'⟩ := step_finish hstep
        exact congrArg (fun s : Calls => s.breaker.state) hs'
      refine imp_congr_right fun _ => ?_
      show (s.breaker.state ≠ .closed → s'.breaker.state ≠ .closed) ↔ _
      rw [hclosed]
      simp

theorem NoSuccessWhileOpen.ne_success (h : NoSuccessWhileOpen ⟨s, .finish i t o, s'⟩)
    (hopen : s.breaker.state = .open_) : o ≠ .success := by
  rintro rfl
  exact h hopen

/-- What the steps so far keep when none of them is a success of an open breaker. -/
structure Cooling (cfg : BreakerConfig) (tr : List (Move Calls Act)) (s : Calls) : Prop where
  past : ∀ m ∈ tr, m.post.now ≤ s.now
  shut : ∀ m ∈ tr, Opens m → s.now < m.post.now + cfg.resetTimeout →
    s.breaker.state = .open_ ∧ m.post.now ≤ s.breaker.openedAt
  cools : tr.Pairwise (CoolsAfter cfg)
  left : ∀ m ∈ tr, LeftHalfOpen cfg m

/-- A call during the cooldown of `m` is refused, and the breaker is as it was. -/
theorem Cooling.refuses (hC : Cooling cfg tr s) (hstep : step cfg s (.call i t) = some s')
    {m : Move Calls Act} (hm : m ∈ tr) (hopens : Opens m)
    (ht : t < m.post.now + cfg.resetTimeout) :
    Refuses cfg ⟨s, .call i t, s'⟩ t ∧ s' = { s with now := t } := by
  have hlt := lt_of_le_of_lt (step_call hstep).1 ht
  obtain ⟨hopen, hopenedAt⟩ := hC.shut m hm hopens hlt
  have href : ∃ e, s.breaker.enter cfg t = .error e := by
    rw [enter_eq_error]
    exact ⟨hopen, by linarith⟩
  obtain rfl := step_of_refused hstep href
  exact ⟨⟨href, rfl⟩, rfl⟩

/-- The step out of an open state, when it is not a success. -/
theorem leftHalfOpen_step (h : step cfg s a = some s') (hG : NoSuccessWhileOpen ⟨s, a, s'⟩) :
    LeftHalfOpen cfg ⟨s, a, s'⟩ := by
  intro hopen hleft
  cases a with
  | call i t =>
    obtain ⟨-, ⟨-, rfl⟩ | ⟨cb, hcb, rfl⟩⟩ := step_call h
    · exact absurd hopen hleft
    · obtain ⟨rfl, hne⟩ := enter_eq_ok hcb
      have hdue : cfg.resetTimeout ≤ t - s.breaker.openedAt := by
        rw [ne_eq, checkReset_state, not_and, not_lt] at hne
        exact hne hopen
      refine ⟨?_, hdue⟩
      show (s.breaker.checkReset cfg t).state = .halfOpen
      rw [checkReset, if_pos ⟨hopen, hdue⟩]
  | finish i t o =>
    obtain ⟨-, rfl⟩ := step_finish h
    exact absurd (settle_open hopen (hG.ne_success hopen)) hleft

theorem Cooling.next (hC : Cooling cfg tr s) (h : step cfg s a = some s')
    (hG : NoSuccessWhileOpen ⟨s, a, s'⟩) : Cooling cfg (tr ++ [⟨s, a, s'⟩]) s' := by
  have hnow := now_le h
  refine ⟨?_, ?_, ?_, ?_⟩
  · rw [List.forall_mem_append, List.forall_mem_singleton]
    exact ⟨fun m hm => (hC.past m hm).trans hnow, le_rfl⟩
  · rw [List.forall_mem_append, List.forall_mem_singleton]
    constructor
    · -- a cooldown that began earlier still lasts
      intro m hm hopens hlt
      obtain ⟨hopen, hopenedAt⟩ := hC.shut m hm hopens (lt_of_le_of_lt hnow hlt)
      cases a with
      | call i t =>
        have hle := (step_call h).1
        have hpost : s'.now = t := by
          obtain ⟨-, ⟨-, rfl⟩ | ⟨cb, -, rfl⟩⟩ := step_call h
          · rfl
          · rfl
        rw [hpost] at hlt
        obtain ⟨-, rfl⟩ := hC.refuses h hm hopens hlt
        exact ⟨hopen, hopenedAt⟩
      | finish i t o =>
        obtain ⟨hle, rfl⟩ := step_finish h
        exact ⟨settle_open hopen (hG.ne_success hopen),
          le_settle_openedAt hopenedAt ((hC.past m hm).trans hle)⟩
    · intro hopens _
      exact ⟨hopens.2, (openedAt_of_opens h hopens.1 hopens.2).ge⟩
  · rw [List.pairwise_append]
    refine ⟨hC.cools, List.pairwise_singleton _ _, ?_⟩
    intro m hm n hn hopens
    obtain rfl := List.mem_singleton.mp hn
    cases a with
    | call i t => exact fun ht => (hC.refuses h hm hopens ht).1
    | finish i t o => trivial
  · rw [List.forall_mem_append, List.forall_mem_singleton]
    exact ⟨hC.left, leftHalfOpen_step h hG⟩

/-- The cooldown is kept along a run exactly when no call let in before the breaker last opened
succeeds while it is open or half open. -/
theorem cooldown_kept_iff (h : Run (step cfg) (init t₀) tr s) :
    CooldownKept cfg tr ↔ Throughout NoLateSuccess tr := by
  constructor
  · intro hkept
    refine (h.throughout_iff fun tr₁ m _ hstep => ?_).mp hkept.late
    exact lateKeeps_iff hstep
  · intro hG
    have hopen : ∀ m ∈ tr, NoSuccessWhileOpen m := by
      intro m hm
      obtain ⟨tr₁, tr₂, rfl⟩ := List.append_of_mem hm
      exact noSuccessWhileOpen_of_late h.split.1 h.split.2 (hG tr₁ m tr₂ rfl)
    have hC : Cooling cfg tr s := by
      refine h.history_of_moves (P := Cooling cfg) ?_ ?_ hopen
      · exact ⟨by simp, by simp, .nil, by simp⟩
      · exact fun tr s a s' _ hC hstep hm => hC.next hstep hm
    refine ⟨hC.cools, hC.left, ?_⟩
    refine (h.throughout_iff fun tr₁ m _ hstep => ?_).mpr hG
    exact lateKeeps_iff hstep

theorem cooldown_kept_late :
    (runFrom (step ⟨1, 60⟩) (init 0) lateFailure).1.length = 6 ∧
      CooldownKept ⟨1, 60⟩ (runFrom (step ⟨1, 60⟩) (init 0) lateFailure).1 :=
  ⟨by decide +kernel, (cooldown_kept_iff (run_runFrom _ _)).mpr (by decide +kernel)⟩

/-- Two calls overlap the failure that opens the breaker at 1; the second succeeds at 2, and at 3 a
`func` is started, 58 seconds before the cooldown is over. -/
theorem closed_by_late_success :
    ¬ CooldownKept ⟨1, 60⟩ (runFrom (step ⟨1, 60⟩) (init 0)
      [.call 1 0, .call 2 0, .finish 1 1 .failure, .finish 2 2 .success, .call 3 3]).1 := by
  intro h
  have hcools := h.cools
  revert hcools
  decide +kernel

-- the second call succeeds at 62, while the probe runs, and closes the half-open breaker
example : ¬ CooldownKept ⟨1, 60⟩ (runFrom (step ⟨1, 60⟩) (init 0)
    [.call 1 0, .call 2 0, .finish 1 1 .failure, .call 3 61, .finish 2 62 .success]).1 := by
  intro h
  have hlate := h.late
  revert hlate
  decide +kernel

end Calls

end Verdix.AsyncCircuitBreaker
