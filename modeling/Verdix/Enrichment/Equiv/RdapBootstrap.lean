import Mathlib.Tactic.NormNum
import Verdix.Enrichment.RdapBootstrap
import Verdix.Lib.Except
import Verdix.Lib.TransitionSystem

/-!
# Which map the bootstrap answers with

The calls of a process and its restarts, on a cache that outlives them.  `Holds`: the map of the
process and the one in the cache are those of the last download that was tried, where a failed one
counts as the table in the source.

`lawful_iff`: that table is used for the call only whose download failed, and a downloaded map for a
week only, exactly when no download fails and no call comes later than a week after the download
of the map that its process holds.
-/

open TransitionSystem

namespace Verdix.RdapBootstrap

/-! ### Calls and restarts -/

/-- What happens to the bootstrap: a call, with what the download would bring, or a new process. -/
inductive Act
  | call (domain : String) (now : ℚ) (reply : Option Json)
  | restart

/-- A process that has called nothing yet, on an empty cache. -/
def init : State := ⟨none, TTLCache.empty⟩

def step (lower : String → String) (s : State) : Act → Option State
  | .call domain now reply => some (getBaseUrl lower s now reply domain).2
  | .restart => some { s with tldMap := none }

/-- The domain has a label to look up. -/
def hasTld (lower : String → String) (domain : String) : Bool :=
  match extractTld lower domain with
  | some tld => tld ≠ ""
  | none => false

/-- A call at `now` finds no map and tries the download. -/
def attempts (s : State) (now : ℚ) : Bool :=
  s.tldMap.isNone && (s.cache.peek now cacheKey).isNone

/-- The time and the reply of a download that a call tries and gets a map from. -/
def attemptOf (lower : String → String) (m : Move State Act) : Option (ℚ × Option Json) :=
  match m.act with
  | .call domain now reply =>
    if hasTld lower domain && attempts m.pre now && (download lower reply).toBool then
      some (now, reply)
    else none
  | .restart => none

/-- The last such download. -/
def lastAttempt (lower : String → String) (tr : List (Move State Act)) : Option (ℚ × Option Json) :=
  (tr.filterMap (attemptOf lower)).getLast?

variable {lower : String → String} {s s' : State} {now : ℚ} {reply : Option Json} {domain : String}
  {tr : List (Move State Act)} {m : Move State Act}

/-- A step that gets no map from a download leaves the last one. -/
theorem lastAttempt_snoc_of_none (h : attemptOf lower m = none) :
    lastAttempt lower (tr ++ [m]) = lastAttempt lower tr := by
  unfold lastAttempt
  rw [List.filterMap_append, List.filterMap_cons_none h, List.filterMap_nil, List.append_nil]

/-- A step that does is the last one. -/
theorem lastAttempt_snoc_of_some {e : ℚ × Option Json} (h : attemptOf lower m = some e) :
    lastAttempt lower (tr ++ [m]) = some e := by
  unfold lastAttempt
  rw [List.filterMap_append, List.filterMap_cons_some h, List.filterMap_nil, List.getLast?_concat]

theorem exists_of_lastAttempt {e : ℚ × Option Json} (h : lastAttempt lower tr = some e) :
    ∃ m ∈ tr, attemptOf lower m = some e :=
  List.mem_filterMap.mp (List.mem_of_getLast? h)

/-- A call that tries the download has no map from its process. -/
theorem tldMap_of_attempts (h : attempts s now = true) : s.tldMap = none := by
  unfold attempts at h
  rw [Bool.and_eq_true, Option.isNone_iff_eq_none] at h
  exact h.1

/-- A process that holds a map does not try the download. -/
theorem attempts_eq_false_of_held {v : Json} (h : s.tldMap = some v) : attempts s now = false := by
  simp [attempts, h]

/-- Nor does one that finds a map in the cache. -/
theorem attempts_eq_false_of_cached {v : Json} {expiry : ℚ}
    (hstore : s.cache.store cacheKey = some (v, expiry)) (hlive : now ≤ expiry) :
    attempts s now = false := by
  have hpeek : s.cache.peek now cacheKey = some v := by
    rw [TTLCache.peek_eq, hstore, Option.bind_some, if_neg hlive.not_gt]
  simp [attempts, hpeek]

/-! ### One call -/

/-- Where the map of a call comes from, and what the call leaves behind. -/
inductive Looks (lower : String → String) (s : State) (now : ℚ) (reply : Option Json) :
    Except PyError Json × State → Prop
  | held {v : Json} (h : s.tldMap = some v) : Looks lower s now reply (.ok v, s)
  | cached {v : Json} {expiry : ℚ} (h : s.tldMap = none)
      (hstore : s.cache.store cacheKey = some (v, expiry)) (hlive : now ≤ expiry) :
      Looks lower s now reply (.ok v, ⟨some v, s.cache⟩)
  | unreadable {e : PyError} {after : State} (h : attempts s now = true)
      (hdownload : download lower reply = .error e) (htldMap : after.tldMap = none)
      (hstore : after.cache.store cacheKey = none) : Looks lower s now reply (.error e, after)
  | downloaded {members : List (String × Json)} {after : State} (h : attempts s now = true)
      (hdownload : download lower reply = .ok members)
      (htldMap : after.tldMap = some (.obj members))
      (hstore : after.cache.store cacheKey = some (.obj members, now + cacheTtl)) :
      Looks lower s now reply (.ok (.obj members), after)

/-- `_get_tld_map` looks in the process, in the cache, and then downloads. -/
theorem getTldMap_looks (lower : String → String) (s : State) (now : ℚ) (reply : Option Json) :
    Looks lower s now reply (getTldMap lower s now reply) := by
  unfold getTldMap
  split
  · rename_i v hv
    exact .held hv
  · rename_i htldMap
    -- nothing in the process: the cache is next
    cases hget : (s.cache.get now cacheKey).1 with
    | some v =>
      obtain ⟨expiry, hstore, hlive, hcache⟩ := TTLCache.get_eq_some hget
      simp only [hget, hcache]
      exact .cached htldMap hstore hlive
    | none =>
      have hattempts : attempts s now = true := by
        simp [attempts, htldMap, TTLCache.peek, hget]
      simp only [hget]
      cases hdownload : download lower reply with
      | error e => exact .unreadable hattempts hdownload rfl (TTLCache.store_of_get_eq_none hget)
      | ok members => exact .downloaded hattempts hdownload rfl TTLCache.store_set_self

/-- `get_base_url` leaves what `_get_tld_map` leaves, if the domain has a label to look for. -/
theorem getBaseUrl_state (lower : String → String) (s : State) (now : ℚ) (reply : Option Json)
    (domain : String) :
    (getBaseUrl lower s now reply domain).2 =
      if hasTld lower domain then (getTldMap lower s now reply).2 else s := by
  unfold getBaseUrl hasTld
  cases extractTld lower domain with
  | none => rfl
  | some tld => by_cases htld : tld = "" <;> simp [htld]

/-! ### The maps are those of the last download -/

/-- The map `v` is that of the last download, tried at `t`. -/
def LastMap (lower : String → String) (tr : List (Move State Act)) (v : Json) (t : ℚ) : Prop :=
  ∃ reply members, lastAttempt lower tr = some (t, reply) ∧ download lower reply = .ok members ∧
    v = .obj members

/-- Both maps are those of the last download. -/
structure Holds (lower : String → String) (tr : List (Move State Act)) (s : State) : Prop where
  tldMap : ∀ v, s.tldMap = some v → ∃ t, LastMap lower tr v t
  cache : ∀ v expiry, s.cache.store cacheKey = some (v, expiry) →
    ∃ t, LastMap lower tr v t ∧ expiry = t + cacheTtl

theorem LastMap.snoc {v : Json} {t : ℚ} (h : LastMap lower tr v t) (hm : attemptOf lower m = none) :
    LastMap lower (tr ++ [m]) v t := by
  obtain ⟨reply, members, hlast, hrest⟩ := h
  exact ⟨reply, members, by rw [lastAttempt_snoc_of_none hm, hlast], hrest⟩

/-- A step without a download keeps the maps those of the last one. -/
theorem Holds.snoc (h : Holds lower tr s) (hm : attemptOf lower m = none) :
    Holds lower (tr ++ [m]) s where
  tldMap v hv := by
    obtain ⟨t, ht⟩ := h.tldMap v hv
    exact ⟨t, ht.snoc hm⟩
  cache v expiry hv := by
    obtain ⟨t, ht, hexpiry⟩ := h.cache v expiry hv
    exact ⟨t, ht.snoc hm, hexpiry⟩

/-- A call that has a map, or is answered without one, leaves the maps of the last download. -/
theorem Holds.call {after : State} {r : Except PyError Json} (h : Holds lower tr s)
    (hlooks : Looks lower s now reply (r, after))
    (hm : ∀ members, attempts s now = true → download lower reply = .ok members →
      attemptOf lower m = some (now, reply))
    (hno : attempts s now = false ∨ (∃ e, download lower reply = .error e) →
      attemptOf lower m = none) :
    Holds lower (tr ++ [m]) after := by
  cases hlooks with
  | held hv => exact h.snoc (hno (.inl (attempts_eq_false_of_held hv)))
  | @cached v expiry hnone hstore hlive =>
    have hm' : attemptOf lower m = none := hno (.inl (attempts_eq_false_of_cached hstore hlive))
    -- the process takes over the map of the cache, which is that of the last download
    refine ⟨fun w hw => ?_, (h.snoc hm').cache⟩
    obtain rfl := Option.some.inj hw
    obtain ⟨t, ht, -⟩ := (h.snoc hm').cache v expiry hstore
    exact ⟨t, ht⟩
  | unreadable _ _ htldMap hstore =>
    refine ⟨fun v hv => ?_, fun v expiry hv => ?_⟩
    · rw [htldMap] at hv
      cases hv
    · rw [hstore] at hv
      cases hv
  | @downloaded members _ hattempts hdownload htldMap hstore =>
    -- the map goes to the process and to the cache, for a week
    have hlast : LastMap lower (tr ++ [m]) (.obj members) now :=
      ⟨reply, members, lastAttempt_snoc_of_some (hm members hattempts hdownload), hdownload, rfl⟩
    refine ⟨fun v hv => ?_, fun v expiry hv => ?_⟩
    · rw [htldMap] at hv
      obtain rfl := Option.some.inj hv
      exact ⟨now, hlast⟩
    · rw [hstore] at hv
      obtain ⟨rfl, rfl⟩ := Prod.mk.inj (Option.some.inj hv)
      exact ⟨now, hlast, rfl⟩

/-- Along every run both maps are those of the last download. -/
theorem run_holds (hrun : Run (step lower) init tr s) : Holds lower tr s := by
  refine hrun.history ⟨fun v hv => (by cases hv), fun v expiry hv => (by cases hv)⟩ ?_
  intro tr s a s' _ hholds hstep
  cases a with
  | restart =>
    obtain rfl := Option.some.inj hstep
    -- a restart keeps the cache and drops the map of the process
    refine ⟨fun v hv => (by cases hv), (hholds.snoc (m := ⟨s, .restart, _⟩) rfl).cache⟩
  | call domain now reply =>
    obtain rfl := Option.some.inj hstep
    rw [getBaseUrl_state]
    by_cases htld : hasTld lower domain = true
    · rw [if_pos htld]
      refine hholds.call (getTldMap_looks lower s now reply) (fun members hattempts hdownload => ?_)
        fun hno => ?_
      · simp [attemptOf, htld, hattempts, hdownload, Except.toBool]
      · rcases hno with hno | ⟨e, he⟩
        · simp [attemptOf, hno]
        · simp [attemptOf, he, Except.toBool]
    · rw [if_neg htld]
      exact hholds.snoc (by simp [attemptOf, htld])

/-! ### The law -/

/-- Seven days. -/
def week : ℚ := 7 * 24 * 3600

/-- The map that a call uses is that of the last download.  After a failed one it is used for this call
only and stored nowhere; after a successful one for a week. -/
def Lawful (lower : String → String) (tr : List (Move State Act)) (m : Move State Act) : Prop :=
  match m.act with
  | .call domain now reply => hasTld lower domain = true →
    ∀ v, (getTldMap lower m.pre now reply).1 = .ok v →
      ∃ t attempt members, lastAttempt lower (tr ++ [m]) = some (t, attempt) ∧
        download lower attempt = .ok members ∧ v = .obj members ∧
        (attempt = none → attempts m.pre now = true ∧ m.post.tldMap = none ∧
          m.post.cache.store cacheKey = none) ∧
        (attempt ≠ none → now ≤ t + week)
  | .restart => True

/-- The download of a call does not fail, and the map that its process holds was downloaded at most a
week ago. -/
def Fresh (lower : String → String) (tr : List (Move State Act)) (m : Move State Act) : Prop :=
  match m.act with
  | .call domain now reply => hasTld lower domain = true →
    (attempts m.pre now = true → reply ≠ none) ∧
      ∀ v t attempt, m.pre.tldMap = some v → lastAttempt lower tr = some (t, attempt) →
        now ≤ t + week
  | .restart => True

instance (lower : String → String) (tr : List (Move State Act)) (m : Move State Act) :
    Decidable (Fresh lower tr m) :=
  match m with
  | ⟨pre, .call domain now reply, _⟩ =>
    decidable_of_iff
      (hasTld lower domain = true → (attempts pre now = true → reply ≠ none) ∧
        (pre.tldMap.isSome → ∀ e ∈ lastAttempt lower tr, now ≤ e.1 + week))
      (imp_congr_right fun _ => and_congr_right fun _ => by
        simp only [Option.isSome_iff_exists, Option.mem_def, Prod.forall]
        exact ⟨fun h v t attempt hv => h ⟨v, hv⟩ t attempt, fun h ⟨v, hv⟩ t attempt => h v t attempt hv⟩)
  | ⟨_, .restart, _⟩ => .isTrue trivial

/-- What a call does to the last download. -/
theorem attemptOf_call (now : ℚ) (reply : Option Json) (pre post : State)
    (htld : hasTld lower domain = true) :
    attemptOf lower ⟨pre, .call domain now reply, post⟩ =
      if attempts pre now = true ∧ (download lower reply).toBool = true then some (now, reply)
      else none := by
  simp only [attemptOf, htld, Bool.true_and, Bool.and_eq_true]

/-- A lawful call downloads without a failure, and the map it holds is a week old at most. -/
theorem Fresh.of_lawful {pre post : State} {a : Act} (hstep : step lower pre a = some post)
    (h : Lawful lower tr ⟨pre, a, post⟩) : Fresh lower tr ⟨pre, a, post⟩ := by
  cases a with
  | restart => trivial
  | call domain now reply =>
    intro htld
    specialize h htld
    have hattempt := attemptOf_call now reply pre post htld
    obtain rfl := Option.some.inj hstep
    rw [getBaseUrl_state, if_pos htld] at h hattempt
    have hlooks := getTldMap_looks lower pre now reply
    generalize getTldMap lower pre now reply = r at h hattempt hlooks
    cases hlooks with
    | @held v hv =>
      have hno : attempts pre now = false := attempts_eq_false_of_held hv
      refine ⟨fun hattempts => (by simp [hno] at hattempts), fun w t attempt _ hlast => ?_⟩
      rw [if_neg (by simp [hno])] at hattempt
      obtain ⟨t', attempt', members, hlast', -, -, hfailed, hage⟩ := h v rfl
      rw [lastAttempt_snoc_of_none hattempt, hlast] at hlast'
      obtain ⟨rfl, rfl⟩ := Prod.mk.inj (Option.some.inj hlast')
      -- a failed download is not tried by this call
      exact hage fun hnone => (by simp [hno] at hfailed; exact hfailed hnone)
    | cached hnone hstore hlive =>
      have hno := attempts_eq_false_of_cached hstore hlive
      exact ⟨fun hattempts => (by simp [hno] at hattempts), fun v _ _ hv => (by simp [hnone] at hv)⟩
    | unreadable hattempts hdownload =>
      refine ⟨fun _ hnone => ?_, fun v _ _ hv => ?_⟩
      · rw [hnone] at hdownload
        cases hdownload
      · rw [tldMap_of_attempts hattempts] at hv
        cases hv
    | @downloaded members after hattempts hdownload htldMap =>
      refine ⟨fun _ hnone => ?_, fun v _ _ hv => ?_⟩
      · obtain ⟨t, attempt, members', hlast, -, -, hfailed, -⟩ := h _ rfl
        rw [if_pos ⟨hattempts, by rw [hdownload]; rfl⟩] at hattempt
        rw [lastAttempt_snoc_of_some hattempt] at hlast
        obtain ⟨rfl, rfl⟩ := Prod.mk.inj (Option.some.inj hlast)
        -- the fallback would be stored nowhere, but it is held
        have hstored := (hfailed hnone).2.1
        dsimp only at hstored
        rw [htldMap] at hstored
        cases hstored
      · rw [tldMap_of_attempts hattempts] at hv
        cases hv

/-- A fresh call is lawful, if the last download before it did not fail. -/
theorem Lawful.of_fresh {pre post : State} {a : Act} (hholds : Holds lower tr pre)
    (hstep : step lower pre a = some post) (h : Fresh lower tr ⟨pre, a, post⟩)
    (hsuccess : ∀ t attempt, lastAttempt lower (tr ++ [⟨pre, a, post⟩]) = some (t, attempt) →
      attempt ≠ none) : Lawful lower tr ⟨pre, a, post⟩ := by
  cases a with
  | restart => trivial
  | call domain now reply =>
    intro htld v hv
    specialize h htld
    have hattempt := attemptOf_call now reply pre post htld
    have hlooks := getTldMap_looks lower pre now reply
    generalize getTldMap lower pre now reply = r at hv hlooks
    cases hlooks with
    | held hheld =>
      obtain rfl := Except.ok.inj hv
      rw [if_neg (by simp [attempts_eq_false_of_held hheld])] at hattempt
      obtain ⟨t, attempt, members, hlast, hdownload, rfl⟩ := hholds.tldMap _ hheld
      refine ⟨t, attempt, members, ?_, hdownload, rfl, ?_, fun _ => h.2 _ t attempt hheld hlast⟩
      · rw [lastAttempt_snoc_of_none hattempt, hlast]
      · intro hnone
        rw [← lastAttempt_snoc_of_none hattempt] at hlast
        exact absurd hnone (hsuccess t attempt hlast)
    | cached hnone hstore hlive =>
      obtain rfl := Except.ok.inj hv
      rw [if_neg (by simp [attempts_eq_false_of_cached hstore hlive])] at hattempt
      obtain ⟨t, ⟨attempt, members, hlast, hdownload, rfl⟩, rfl⟩ := hholds.cache _ _ hstore
      rw [← lastAttempt_snoc_of_none hattempt] at hlast
      -- an entry that has not expired is at most a week old
      exact ⟨t, attempt, members, hlast, hdownload, rfl,
        fun hnone => absurd hnone (hsuccess t attempt hlast), fun _ => hlive⟩
    | unreadable => cases hv
    | @downloaded members after hattempts hdownload htldMap =>
      obtain rfl := Except.ok.inj hv
      rw [if_pos ⟨hattempts, by rw [hdownload]; rfl⟩] at hattempt
      have hlast : lastAttempt lower (tr ++ [⟨pre, .call domain now reply, post⟩]) = some (now, reply) :=
        lastAttempt_snoc_of_some hattempt
      refine ⟨now, reply, members, hlast, hdownload, rfl,
        fun hnone => absurd hnone (hsuccess now reply hlast), fun _ => ?_⟩
      exact le_add_of_nonneg_right (by norm_num [week])

/-- The law holds in a run exactly when no download of the run fails, and no call comes later than a
week after the download of the map that its process holds. -/
theorem lawful_iff (hrun : Run (step lower) init tr s) :
    Throughout (Lawful lower) tr ↔ Throughout (Fresh lower) tr := by
  constructor
  · rintro h tr₁ m tr₂ rfl
    exact .of_lawful hrun.split.2 (h tr₁ m tr₂ rfl)
  · rintro h tr₁ m tr₂ rfl
    refine .of_fresh (run_holds hrun.split.1) hrun.split.2 (h tr₁ m tr₂ rfl) ?_
    rintro t attempt hlast rfl
    -- a failed download would have been tried by a call that is not fresh
    obtain ⟨m', hm', hattempt⟩ := exists_of_lastAttempt hlast
    obtain ⟨tr₃, tr₄, hsplit⟩ := List.append_of_mem hm'
    have hfresh := h tr₃ m' (tr₄ ++ tr₂) (by
      rw [List.append_cons tr₁, hsplit, List.append_assoc, List.cons_append])
    rcases m' with ⟨pre, act, post⟩
    cases act with
    | restart => cases hattempt
    | call domain now reply =>
      unfold attemptOf at hattempt
      dsimp only at hattempt
      split at hattempt
      · rename_i hguard
        obtain ⟨rfl, rfl⟩ := Prod.mk.inj (Option.some.inj hattempt)
        simp only [Bool.and_eq_true] at hguard
        exact (hfresh hguard.1.1).1 hguard.1.2 rfl
      · cases hattempt

/-- A registry of one service. -/
def registry : Json :=
  .obj [("services", .arr [.arr [.arr [.str "com"], .arr [.str "https://rdap.example.net/"]]])]

theorem hasTld_sample : hasTld PyStr.lowerAscii "example.com" = true := by decide +kernel

/-- A download, a call that the map of the process answers, and after a restart one that the cache
answers and one in the last hours of the week. -/
def sampleActs : List Act :=
  [.call "example.com" 0 (some registry), .call "example.net" 3600 none, .restart,
    .call "example.com" 86400 none, .call "example.com" 600000 none]

/-- A download, a call with the map of the process, a restart, a call with the map of the cache, and
one more. -/
theorem lawful_sample :
    let tr := (runFrom (step PyStr.lowerAscii) init sampleActs).1
    tr.length = 5 ∧ (tr.filterMap (attemptOf PyStr.lowerAscii)).length = 1 ∧
      Throughout (Lawful PyStr.lowerAscii) tr :=
  ⟨by decide +kernel, by decide +kernel, (lawful_iff (run_runFrom _ _)).mpr (by decide +kernel)⟩

/-- A download fails at `0`, and a minute later the table of the source answers without a download. -/
theorem fallback_stored :
    ∃ s, Run (step PyStr.lowerAscii) init [⟨init, .call "example.com" 0 none, s⟩] s ∧
      ¬Throughout (Lawful PyStr.lowerAscii) [⟨init, .call "example.com" 0 none, s⟩] ∧
      attempts s 60 = false ∧
      (getTldMap PyStr.lowerAscii s 60 (some registry)).1 = .ok (.obj fallbackServices) := by
  have hstate := getBaseUrl_state PyStr.lowerAscii init 0 none "example.com"
  rw [if_pos hasTld_sample] at hstate
  have hstored : (getBaseUrl PyStr.lowerAscii init 0 none "example.com").2.tldMap =
      some (.obj fallbackServices) := by
    rw [hstate]
    rfl
  refine ⟨_, Run.start.snoc rfl, fun h => ?_, attempts_eq_false_of_held hstored, ?_⟩
  · obtain ⟨t, attempt, _, hlast, -, -, hfailed, -⟩ := h [] _ [] rfl hasTld_sample _ rfl
    rw [lastAttempt_snoc_of_some (attemptOf_call _ _ _ _ hasTld_sample)] at hlast
    obtain ⟨rfl, rfl⟩ := Prod.mk.inj (Option.some.inj hlast)
    have hnone := (hfailed rfl).2.1
    dsimp only at hnone
    rw [hstored] at hnone
    cases hnone
  · unfold getTldMap
    rw [hstored]

end Verdix.RdapBootstrap
