import Verdix.Web.Login
import Verdix.Lib.SlidingWindow
import Mathlib.Tactic.Linarith

/-!
# What the lockout bounds

The lockout belongs to the key that `_client_ip` makes of a request.  Under one key, and between two
right passwords, at most five wrong passwords are checked in less than 60 seconds, and none at all
while the key is locked out (`throttled_of_key`).  A peer is not held to that: it chooses the header
that the key is made of, and a right password clears the count (`unthrottled_peer`).
-/

open TransitionSystem SlidingWindow

namespace Verdix.Login

variable {expected : String} {s s' : Login} {request : Request} {tr : List (Move Login Request)}

/-- What the call of this step does. -/
def outcome (expected : String) (m : Move Login Request) : Outcome :=
  postLogin expected m.pre.lockout m.act

/-- When the calls check a wrong password. -/
def wrongTimes (expected : String) (tr : List (Move Login Request)) : List ℚ :=
  tr.filterMap fun m =>
    if (outcome expected m).checked = some false then some m.act.clock.verify else none

/-- No window shorter than 60 seconds holds more than five checks of a wrong password. -/
def FewWrong (expected : String) (tr : List (Move Login Request)) : Prop :=
  ∀ w, inWindow lockoutSeconds (wrongTimes expected tr) w ≤ maxFailures

/-- One of the calls has locked its key out beyond the time `now`. -/
def LockedOut (expected : String) (tr : List (Move Login Request)) (now : ℚ) : Prop :=
  ∃ m ∈ tr, ∃ lockedUntil ∈ (outcome expected m).locks, now < lockedUntil

instance (expected : String) (tr : List (Move Login Request)) (now : ℚ) :
    Decidable (LockedOut expected tr now) :=
  inferInstanceAs (Decidable (∃ m ∈ tr, ∃ lockedUntil ∈ (outcome expected m).locks,
    now < lockedUntil))

/-- No password is checked during a lock that one of the calls before has started. -/
def NoneWhileLocked (expected : String) (tr : List (Move Login Request)) : Prop :=
  Throughout (fun before m => LockedOut expected before m.act.clock.verify →
    (outcome expected m).checked = none) tr

/-! ### One call -/

/-- The entry that `record_failure` starts from. -/
def entry (lockout : Lockout) (ip : String) : LockoutEntry := (lockout ip).getD ⟨0, 0⟩

/-- The check refuses until the lockout of the key is over. -/
theorem checkLockout_eq {lockout : Lockout} {ip : String} {now : ℚ} (hnow : 0 ≤ now) :
    checkLockout lockout ip now =
      if now < (entry lockout ip).lockedUntil then some (entry lockout ip).lockedUntil else none := by
  unfold checkLockout entry
  cases lockout ip with
  | none => exact (if_neg (not_lt.mpr hnow)).symm
  | some e =>
    show (if e.lockedUntil ≠ 0 ∧ now < e.lockedUntil then some e.lockedUntil else none) =
      if now < e.lockedUntil then some e.lockedUntil else none
    by_cases hlt : now < e.lockedUntil
    · rw [if_pos hlt, if_pos ⟨(lt_of_le_of_lt hnow hlt).ne', hlt⟩]
    · rw [if_neg hlt, if_neg fun h => hlt h.2]

theorem recordFailure_eq (lockout : Lockout) (ip : String) (clock : Clock) :
    recordFailure lockout ip clock =
      (((record (entry lockout ip) clock).1.failures, (record (entry lockout ip) clock).2),
        Function.update lockout ip (some (record (entry lockout ip) clock).1)) := rfl

/-- A call checks the password unless its key is locked out; it changes the entry of its key only. -/
theorem postLogin_cases (expected : String) (lockout : Lockout) (request : Request) :
    (request.clock.check < (entry lockout (clientIp request)).lockedUntil ∧
      (postLogin expected lockout request).checked = none ∧
      (postLogin expected lockout request).locks = none ∧
      (postLogin expected lockout request).lockout = lockout) ∨
    ((entry lockout (clientIp request)).lockedUntil ≤ request.clock.check ∧
      (postLogin expected lockout request).checked = some true ∧
      (postLogin expected lockout request).locks = none ∧
      (postLogin expected lockout request).lockout = clearFailures lockout (clientIp request)) ∨
    ((entry lockout (clientIp request)).lockedUntil ≤ request.clock.check ∧
      (postLogin expected lockout request).checked = some false ∧
      (postLogin expected lockout request).locks =
        (record (entry lockout (clientIp request)) request.clock).2 ∧
      (postLogin expected lockout request).lockout = Function.update lockout (clientIp request)
        (some (record (entry lockout (clientIp request)) request.clock).1)) := by
  unfold postLogin
  simp only [checkLockout_eq request.clock.check_nonneg, recordFailure_eq]
  by_cases hlt : request.clock.check < (entry lockout (clientIp request)).lockedUntil
  · left
    rw [if_pos hlt]
    exact ⟨hlt, rfl, rfl, rfl⟩
  · right
    rw [if_neg hlt]
    by_cases hright : verifyPassword expected request.password = true
    · left
      rw [if_pos hright]
      exact ⟨not_lt.mp hlt, rfl, rfl, rfl⟩
    · right
      rw [if_neg hright]
      cases (record (entry lockout (clientIp request)) request.clock).2 with
      | none => exact ⟨not_lt.mp hlt, rfl, rfl, rfl⟩
      | some lockedUntil => exact ⟨not_lt.mp hlt, rfl, rfl, rfl⟩

theorem entry_update (lockout : Lockout) (ip ip' : String) (e : LockoutEntry) :
    entry (Function.update lockout ip (some e)) ip' = if ip' = ip then e else entry lockout ip' := by
  unfold entry
  rw [Function.update_apply]
  split
  · rfl
  · rfl

/-- The right password forgets the failures of its key. -/
theorem entry_clearFailures (lockout : Lockout) (ip ip' : String) :
    entry (clearFailures lockout ip) ip' = if ip' = ip then ⟨0, 0⟩ else entry lockout ip' := by
  unfold entry clearFailures
  rw [Function.update_apply]
  split
  · rfl
  · rfl

theorem Clock.check_le_lock (clock : Clock) : clock.check ≤ clock.lock :=
  (clock.check_le_verify.trans clock.verify_le_expiry).trans clock.expiry_le_lock

theorem Clock.verify_le_lock (clock : Clock) : clock.verify ≤ clock.lock :=
  clock.verify_le_expiry.trans clock.expiry_le_lock

theorem Clock.check_le_answer (clock : Clock) : clock.check ≤ clock.answer :=
  clock.check_le_lock.trans clock.lock_le_answer

/-- A request comes after the answer to the one before. -/
theorem step_eq_some_iff : step expected s request = some s' ↔
    s.now ≤ request.clock.check ∧
      s' = ⟨(postLogin expected s.lockout request).lockout, request.clock.answer⟩ := by
  unfold step
  split
  · rename_i hnow
    rw [Option.some.injEq]
    exact ⟨fun h => ⟨hnow, h.symm⟩, fun h => h.2.symm⟩
  · rename_i hnow
    exact ⟨fun h => (Option.some_ne_none _ h.symm).elim, fun h => absurd h.1 hnow⟩

theorem now_le_of_step (h : step expected s request = some s') : s.now ≤ s'.now := by
  obtain ⟨hnow, rfl⟩ := step_eq_some_iff.mp h
  exact hnow.trans request.clock.check_le_answer

/-- A call leaves the entries of the other keys alone. -/
theorem entry_of_step {ip : String} (h : step expected s request = some s')
    (hip : clientIp request ≠ ip) : entry s'.lockout ip = entry s.lockout ip := by
  obtain ⟨-, rfl⟩ := step_eq_some_iff.mp h
  show entry (postLogin expected s.lockout request).lockout ip = entry s.lockout ip
  rcases postLogin_cases expected s.lockout request with
    ⟨-, -, -, hpost⟩ | ⟨-, -, -, hpost⟩ | ⟨-, -, -, hpost⟩
  · rw [hpost]
  · rw [hpost, entry_clearFailures, if_neg (Ne.symm hip)]
  · rw [hpost, entry_update, if_neg (Ne.symm hip)]

/-! ### The entry of a key -/

/-- A lock is set from the fifth failure on. -/
structure Counts (e : LockoutEntry) : Prop where
  unlocked : e.failures < maxFailures → e.lockedUntil = 0
  locked : maxFailures ≤ e.failures → 0 < e.lockedUntil

theorem counts_zero : Counts ⟨0, 0⟩ := ⟨fun _ => rfl, fun h => absurd h (by decide)⟩

theorem Counts.expire {e : LockoutEntry} (h : Counts e) (now : ℚ) : Counts (expire e now) := by
  unfold Login.expire
  split
  · exact counts_zero
  · exact h

/-- A failure is counted, or it locks the key out for 60 seconds. -/
theorem record_cases {e : LockoutEntry} (h : Counts e) (clock : Clock) :
    ((record e clock).1.failures < maxFailures ∧ (record e clock).1.lockedUntil = 0 ∧
      (record e clock).2 = none ∧ (expire e clock.expiry).lockedUntil = 0 ∧
      (record e clock).1.failures = (expire e clock.expiry).failures + 1) ∨
    (maxFailures ≤ (record e clock).1.failures ∧
      (record e clock).1.lockedUntil = clock.lock + lockoutSeconds ∧
      (record e clock).2 = some (clock.lock + lockoutSeconds)) := by
  unfold record
  by_cases hmax : maxFailures ≤ (expire e clock.expiry).failures + 1
  · right
    rw [if_pos hmax]
    exact ⟨hmax, rfl, rfl⟩
  · left
    rw [if_neg hmax]
    have hunlocked := (h.expire clock.expiry).unlocked (by omega)
    exact ⟨not_le.mp hmax, hunlocked, rfl, hunlocked, rfl⟩

/-- A failure locks if it is the fifth or a later one. -/
theorem Counts.record {e : LockoutEntry} (h : Counts e) (clock : Clock) :
    Counts (record e clock).1 := by
  rcases record_cases h clock with ⟨hlt, huntil, -⟩ | ⟨hle, huntil, -⟩
  · exact ⟨fun _ => huntil, fun hle => absurd hle (not_le.mpr hlt)⟩
  · refine ⟨fun hlt => absurd hlt (not_lt.mpr hle), fun _ => ?_⟩
    rw [huntil]
    have hpos : (0 : ℚ) < lockoutSeconds := by norm_num [lockoutSeconds]
    exact add_pos_of_nonneg_of_pos (clock.check_nonneg.trans clock.check_le_lock) hpos

/-- A request leaves the entries of all keys counting. -/
theorem step_counts (h : step expected s request = some s')
    (hs : ∀ ip, Counts (entry s.lockout ip)) (ip : String) : Counts (entry s'.lockout ip) := by
  obtain ⟨-, rfl⟩ := step_eq_some_iff.mp h
  show Counts (entry (postLogin expected s.lockout request).lockout ip)
  rcases postLogin_cases expected s.lockout request with
    ⟨-, -, -, hlockout⟩ | ⟨-, -, -, hlockout⟩ | ⟨-, -, -, hlockout⟩
  · rw [hlockout]
    exact hs ip
  · rw [hlockout, entry_clearFailures]
    split
    · exact counts_zero
    · exact hs ip
  · rw [hlockout, entry_update]
    split
    · exact (hs _).record request.clock
    · exact hs ip

theorem counts_of_run {s₀ : Login} (h₀ : ∀ ip, Counts (entry s₀.lockout ip))
    (h : Run (step expected) s₀ tr s) : ∀ ip, Counts (entry s.lockout ip) :=
  h.invariant h₀ fun _ _ _ hs hstep => step_counts hstep hs

/-! ### The wrong passwords under a key -/

/-- What the entry of a key says about the times `xs` at which a wrong password was checked under
it: the failures before the counted ones, and all of them once a lock is over, are 60 seconds ago. -/
structure Tracks (xs : List ℚ) (now : ℚ) (e : LockoutEntry) : Prop where
  sorted : xs.Pairwise (· ≤ ·)
  le_now : ∀ x ∈ xs, x ≤ now
  spaced : Spaced maxFailures lockoutSeconds xs
  counted : e.lockedUntil = 0 → ∀ x ∈ xs.rdrop e.failures, x + lockoutSeconds ≤ now
  locked : e.lockedUntil ≠ 0 → ∀ x ∈ xs, x + lockoutSeconds ≤ e.lockedUntil

variable {xs : List ℚ} {now now' : ℚ} {e : LockoutEntry}

theorem Tracks.nil : Tracks [] now e :=
  ⟨.nil, List.forall_mem_nil _, spaced_nil, fun _ x hx => by simp [List.rdrop] at hx,
    fun _ => List.forall_mem_nil _⟩

theorem Tracks.mono (h : Tracks xs now e) (hnow : now ≤ now') : Tracks xs now' e :=
  { h with
    le_now := fun x hx => (h.le_now x hx).trans hnow
    counted := fun hzero x hx => (h.counted hzero x hx).trans hnow }

theorem Tracks.expire (h : Tracks xs now e) (hover : e.lockedUntil ≤ now) (t : ℚ) :
    Tracks xs now (expire e t) := by
  unfold Login.expire
  split
  · rename_i hset
    refine { h with counted := fun _ x hx => ?_, locked := fun hne => absurd rfl hne }
    rw [List.rdrop_zero] at hx
    exact (h.locked hset.1 x hx).trans hover
  · exact h

/-- When no lock is on, all but the last four failures are 60 seconds ago. -/
theorem Tracks.old (h : Tracks xs now e) (he : Counts e) (hover : e.lockedUntil ≤ now) :
    ∀ x ∈ xs.rdrop 4, x + lockoutSeconds ≤ now := by
  intro x hx
  by_cases hmax : e.failures < maxFailures
  · have hfew : e.failures ≤ 4 := Nat.le_of_lt_succ hmax
    refine h.counted (he.unlocked hmax) x (List.take_subset_take_left xs ?_ hx)
    omega
  · have hpos := he.locked (not_lt.mp hmax)
    exact (h.locked hpos.ne' x (List.mem_of_mem_take hx)).trans hover

theorem expire_lockedUntil_le (hover : e.lockedUntil ≤ now) (hnow : 0 ≤ now) (t : ℚ) :
    (expire e t).lockedUntil ≤ now := by
  unfold expire
  split
  · exact hnow
  · exact hover

/-- A failure that is recorded extends the times by that of its check. -/
theorem Tracks.record {clock : Clock} (h : Tracks xs clock.check e) (he : Counts e)
    (hover : e.lockedUntil ≤ clock.check) :
    Tracks (xs ++ [clock.verify]) clock.answer (record e clock).1 := by
  have hexpire := h.expire hover clock.expiry
  have hold := hexpire.old (he.expire _) (expire_lockedUntil_le hover clock.check_nonneg _)
  have hle : ∀ x ∈ xs ++ [clock.verify], x ≤ clock.lock := by
    rw [List.forall_mem_append, List.forall_mem_singleton]
    exact ⟨fun x hx => (h.le_now x hx).trans clock.check_le_lock, clock.verify_le_lock⟩
  refine ⟨?_, ?_, ?_, ?_, ?_⟩
  · rw [List.pairwise_append]
    refine ⟨h.sorted, List.pairwise_singleton _ _, fun x hx y hy => ?_⟩
    rw [List.mem_singleton.mp hy]
    exact (h.le_now x hx).trans clock.check_le_verify
  · exact fun x hx => (hle x hx).trans clock.lock_le_answer
  · exact Spaced.snoc h.spaced fun x hx => (hold x hx).trans clock.check_le_verify
  · intro hzero
    rcases record_cases he clock with ⟨-, -, -, hreset, hfailures⟩ | ⟨hmax, -⟩
    · rw [hfailures, List.rdrop_concat_succ]
      exact fun x hx => (hexpire.counted hreset x hx).trans clock.check_le_answer
    · exact absurd hzero ((he.record clock).locked hmax).ne'
  · intro hne
    rcases record_cases he clock with ⟨-, hzero, -⟩ | ⟨-, huntil, -⟩
    · exact absurd hzero hne
    · rw [huntil]
      exact fun x hx => add_le_add_left (hle x hx) lockoutSeconds

/-- The requests of a run under a key. -/
def under (ip : String) (tr : List (Move Login Request)) : List (Move Login Request) :=
  tr.filter fun m => clientIp m.act = ip

theorem wrongTimes_append (expected : String) (tr tr' : List (Move Login Request)) :
    wrongTimes expected (tr ++ tr') = wrongTimes expected tr ++ wrongTimes expected tr' :=
  List.filterMap_append

theorem under_append (ip : String) (tr tr' : List (Move Login Request)) :
    under ip (tr ++ tr') = under ip tr ++ under ip tr' := List.filter_append _ _

theorem under_singleton (ip : String) (m : Move Login Request) :
    under ip [m] = if clientIp m.act = ip then [m] else [] := by
  by_cases hip : clientIp m.act = ip
  · rw [if_pos hip]
    exact List.filter_cons_of_pos (by simpa using hip)
  · rw [if_neg hip]
    exact List.filter_cons_of_neg (by simpa using hip)

theorem wrongTimes_singleton (expected : String) (m : Move Login Request) :
    wrongTimes expected [m] =
      if (outcome expected m).checked = some false then [m.act.clock.verify] else [] := by
  unfold wrongTimes
  rw [List.filterMap_cons]
  split
  · rename_i hnone
    split at hnone
    · contradiction
    · rename_i hwrong
      rw [if_neg hwrong]
      rfl
  · rename_i x hsome
    split at hsome
    · rename_i hwrong
      rw [if_pos hwrong, Option.some.inj hsome]
      rfl
    · contradiction

/-- A request keeps the entry of a key in step with the wrong passwords under it. -/
theorem tracks_step {ip : String} (h : step expected s request = some s')
    (hs : ∀ ip, Counts (entry s.lockout ip)) (htracks : Tracks xs s.now (entry s.lockout ip))
    (hright : clientIp request = ip → (outcome expected ⟨s, request, s'⟩).checked ≠ some true) :
    Tracks (xs ++ wrongTimes expected (under ip [⟨s, request, s'⟩])) s'.now
      (entry s'.lockout ip) := by
  obtain ⟨hnow, hs'⟩ := step_eq_some_iff.mp h
  have hlater := htracks.mono (now_le_of_step h)
  have hlockout : s'.lockout = (postLogin expected s.lockout request).lockout := by rw [hs']
  rw [under_singleton]
  by_cases hip : clientIp request = ip
  · subst hip
    rw [if_pos rfl, wrongTimes_singleton]
    rcases postLogin_cases expected s.lockout request with
      ⟨-, hchecked, -, hpost⟩ | ⟨-, hchecked, -⟩ | ⟨hover, hchecked, -, hpost⟩
    · -- locked out: nothing is checked and nothing changes
      have hnone : (outcome expected ⟨s, request, s'⟩).checked = none := hchecked
      rw [if_neg (by rw [hnone]; decide), List.append_nil, hlockout, hpost]
      exact hlater
    · exact absurd hchecked (hright rfl)
    · have hwrong : (outcome expected ⟨s, request, s'⟩).checked = some false := hchecked
      rw [if_pos hwrong, hlockout, hpost, entry_update, if_pos rfl, hs']
      exact (htracks.mono hnow).record (hs _) hover
  · have hother : wrongTimes expected [] = [] := rfl
    rw [if_neg hip, hother, List.append_nil, entry_of_step h hip]
    exact hlater

/-- As long as no right password is checked under a key, its entry tracks the wrong ones. -/
theorem tracks_of_run {s₀ : Login} (h₀ : ∀ ip, Counts (entry s₀.lockout ip))
    (h : Run (step expected) s₀ tr s) (ip : String)
    (hright : ∀ m ∈ tr, clientIp m.act = ip → (outcome expected m).checked ≠ some true) :
    Tracks (wrongTimes expected (under ip tr)) s.now (entry s.lockout ip) := by
  refine h.history_of_moves
    (P := fun tr s => Tracks (wrongTimes expected (under ip tr)) s.now (entry s.lockout ip))
    .nil ?_ hright
  intro tr s request s' hrun htracks hstep hm
  rw [under_append, wrongTimes_append]
  exact tracks_step hstep (counts_of_run h₀ hrun) htracks hm

theorem counts_init (ip : String) : Counts (entry init.lockout ip) := counts_zero

/-! ### While a key is locked out -/

/-- A lock that a call has started is over, or the entry of the key still holds it. -/
def Kept (expected ip : String) (tr : List (Move Login Request)) (s : Login) : Prop :=
  ∀ m ∈ under ip tr, ∀ lockedUntil ∈ (outcome expected m).locks,
    lockedUntil ≤ s.now ∨ lockedUntil ≤ (entry s.lockout ip).lockedUntil

/-- A request keeps the locks of the key, or they are over. -/
theorem kept_step {ip : String} (h : step expected s request = some s')
    (hs : ∀ ip, Counts (entry s.lockout ip)) (hkept : Kept expected ip tr s) :
    Kept expected ip (tr ++ [⟨s, request, s'⟩]) s' := by
  obtain ⟨hnow, hs'⟩ := step_eq_some_iff.mp h
  have hlater := now_le_of_step h
  have hcheck : request.clock.check ≤ s'.now := by
    rw [hs']
    exact request.clock.check_le_answer
  have hlockout : s'.lockout = (postLogin expected s.lockout request).lockout := by rw [hs']
  unfold Kept
  rw [under_append, List.forall_mem_append]
  by_cases hip : clientIp request = ip
  · subst hip
    rw [under_singleton, if_pos rfl, List.forall_mem_singleton]
    rcases postLogin_cases expected s.lockout request with
      ⟨-, -, hlocks, hpost⟩ | ⟨hover, -, hlocks, hpost⟩ | ⟨hover, -, hlocks, hpost⟩
    · have hnone : (outcome expected ⟨s, request, s'⟩).locks = none := hlocks
      rw [hnone, hlockout, hpost]
      refine ⟨fun m hm u hu => ?_, fun u hu => absurd hu (by simp)⟩
      exact (hkept m hm u hu).imp_left fun hle => hle.trans hlater
    · have hnone : (outcome expected ⟨s, request, s'⟩).locks = none := hlocks
      rw [hnone]
      refine ⟨fun m hm u hu => .inl ?_, fun u hu => absurd hu (by simp)⟩
      rcases hkept m hm u hu with hle | hle
      · exact hle.trans hlater
      · exact (hle.trans hover).trans hcheck
    · refine ⟨fun m hm u hu => .inl ?_, fun u hu => .inr ?_⟩
      · rcases hkept m hm u hu with hle | hle
        · exact hle.trans hlater
        · exact (hle.trans hover).trans hcheck
      · have hrecord : (record (entry s.lockout (clientIp request)) request.clock).2 = some u := by
          rw [← hlocks]
          exact hu
        rw [hlockout, hpost, entry_update, if_pos rfl]
        rcases record_cases (hs (clientIp request)) request.clock with
          ⟨-, -, hnone, -⟩ | ⟨-, huntil, hsome⟩
        · rw [hnone] at hrecord
          contradiction
        · rw [hsome, Option.some.injEq] at hrecord
          rw [huntil, hrecord]
  · rw [under_singleton, if_neg hip]
    refine ⟨fun m hm u hu => ?_, List.forall_mem_nil _⟩
    rw [entry_of_step h hip]
    exact (hkept m hm u hu).imp_left fun hle => hle.trans hlater

/-- So does every run. -/
theorem kept_of_run (h : Run (step expected) init tr s) (ip : String) : Kept expected ip tr s :=
  h.history (P := fun tr s => Kept expected ip tr s) (List.forall_mem_nil _)
    fun _ _ _ _ hrun hkept hstep => kept_step hstep (counts_of_run counts_init hrun) hkept

/-- Under one key no password is checked while it is locked out. -/
theorem noneWhileLocked_under (h : Run (step expected) init tr s) (ip : String) :
    NoneWhileLocked expected (under ip tr) := by
  refine throughout_filter ?_
  rintro before m after rfl hip ⟨m', hm', lockedUntil, hlocks, hlt⟩
  obtain ⟨hrun, hstep⟩ := h.split
  obtain ⟨hnow, -⟩ := step_eq_some_iff.mp hstep
  have hcheck : m.act.clock.check < lockedUntil :=
    lt_of_le_of_lt m.act.clock.check_le_verify hlt
  have hip : clientIp m.act = ip := by simpa using hip
  subst hip
  have hlocked : m.act.clock.check < (entry m.pre.lockout (clientIp m.act)).lockedUntil := by
    rcases kept_of_run hrun _ m' hm' lockedUntil hlocks with hle | hle
    · exact absurd (hle.trans hnow) (not_le.mpr hcheck)
    · exact lt_of_lt_of_le hcheck hle
  rcases postLogin_cases expected m.pre.lockout m.act with ⟨-, hnone, -⟩ | ⟨hover, -⟩ | ⟨hover, -⟩
  · exact hnone
  · exact absurd hover (not_le.mpr hlocked)
  · exact absurd hover (not_le.mpr hlocked)

/-! ### The bounds -/

/-- Under one key, and as long as no right password is checked under it, at most five wrong ones are
checked in less than 60 seconds; none at all is checked while the key is locked out. -/
theorem throttled_of_key (h : Run (step expected) init tr s) (ip : String) :
    (∀ stretch, stretch <:+: tr →
      (∀ m ∈ under ip stretch, (outcome expected m).checked ≠ some true) →
      FewWrong expected (under ip stretch)) ∧
    NoneWhileLocked expected (under ip tr) := by
  refine ⟨?_, noneWhileLocked_under h ip⟩
  rintro stretch ⟨before, after, rfl⟩ hright
  obtain ⟨s₂, hrun, -⟩ := h.of_append
  obtain ⟨s₁, hbefore, hstretch⟩ := hrun.of_append
  have htracks := tracks_of_run (counts_of_run counts_init hbefore) hstretch ip
    fun m hm hip => hright m (List.mem_filter.mpr ⟨hm, by simpa using hip⟩)
  exact htracks.spaced.inWindow_le htracks.sorted

/-! ### Examples -/

/-- A clock that stands still during the call. -/
def Clock.still (now : ℕ) : Clock where
  check := now
  verify := now
  expiry := now
  lock := now
  answer := now
  check_nonneg := Nat.cast_nonneg now
  check_le_verify := le_rfl
  verify_le_expiry := le_rfl
  expiry_le_lock := le_rfl
  lock_le_answer := le_rfl

/-- A request of one peer. -/
def attempt (forwarded : Option String) (password : String) (now : ℕ) : Request :=
  ⟨forwarded, some "198.51.100.7", password, Clock.still now⟩

/-- Five guesses, which lock the peer out, and then the password. -/
def guesses : List Request :=
  [attempt none "a" 0, attempt none "b" 1, attempt none "c" 2, attempt none "d" 3,
    attempt none "e" 4, attempt none "secret" 5]

theorem throttled_of_key_guesses :
    FewWrong "secret" (under "198.51.100.7" (runFrom (step "secret") init guesses).1) ∧
    NoneWhileLocked "secret" (under "198.51.100.7" (runFrom (step "secret") init guesses).1) := by
  have hrun : Run (step "secret") init _ _ := run_runFrom init guesses
  have h := throttled_of_key hrun "198.51.100.7"
  exact ⟨h.1 _ List.infix_rfl (by decide +kernel), h.2⟩

/-- The same peer under another header. -/
def elsewhere : Request := attempt (some "203.0.113.9, 198.51.100.7") "f" 6

/-- Four guesses, the password, and four more. -/
def pardoned : List Request :=
  [attempt none "a" 0, attempt none "b" 1, attempt none "c" 2, attempt none "d" 3,
    attempt none "secret" 4, attempt none "e" 5, attempt none "f" 6, attempt none "g" 7,
    attempt none "h" 8]

/-- With another header the sixth guess is checked while the peer is locked out; and after the right
password the count starts again. -/
theorem unthrottled_peer :
    (∃ tr s, Run (step "secret") init tr s ∧ (∀ m ∈ tr, m.act.client = some "198.51.100.7") ∧
      ¬ FewWrong "secret" tr ∧ ¬ NoneWhileLocked "secret" tr) ∧
    ∃ tr s, Run (step "secret") init tr s ∧ (∀ m ∈ tr, m.act.client = some "198.51.100.7") ∧
      ¬ FewWrong "secret" tr := by
  constructor
  · have hrun : Run (step "secret") init _ _ := run_runFrom init guesses
    refine ⟨_, _, hrun.snoc (a := elsewhere) (step_eq_some_iff.mpr ⟨by decide +kernel, rfl⟩), ?_, ?_,
      ?_⟩
    · decide +kernel
    · intro h
      exact absurd (h 0) (by decide +kernel)
    · intro h
      exact absurd (h _ _ [] rfl (by decide +kernel)) (by decide +kernel)
  · refine ⟨_, _, run_runFrom init pardoned, by decide +kernel, fun h => ?_⟩
    exact absurd (h 0) (by decide +kernel)

end Verdix.Login
