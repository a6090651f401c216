import Mathlib.Data.List.Dedup
import Verdix.Triage.Indicators

/-!
# The names collected from a flow

Whether an event puts a name forward depends on the event alone (`offered`).  `mem_collect_iff`: the
loop ends with exactly the names put forward by the events it comes to, and it comes to an event as
long as the events before it put forward fewer than `maxDomains` names.
-/

namespace Verdix.Indicators

open Ipaddress

variable {lower : String → String} {config : Option SuricataConfig} {names : List String}

/-! ### What one event puts forward -/

/-- The name passes every test of the loop but the one for repetitions. -/
def passes (lower : String → String) (config : Option SuricataConfig) (names : List String)
    (domain : String) (serverIp : Json) : Bool :=
  !PyStr.endswith domain ".arpa" && (ipAddress (.str domain)).isNone &&
    !isSkipped lower config names domain serverIp

/-- The name that an event puts forward. -/
def offered (lower : String → String) (config : Option SuricataConfig) (names : List String)
    (event : Json) : Option String :=
  match carriedName event with
  | .ok (some (domain, serverIp)) =>
    if passes lower config names domain serverIp then some domain else none
  | _ => none

theorem offered_eq_some {event : Json} {name : String} :
    offered lower config names event = some name ↔
      ∃ serverIp, carriedName event = .ok (some (name, serverIp)) ∧
        passes lower config names name serverIp := by
  unfold offered
  split
  · rename_i domain serverIp hcarried
    rw [hcarried]
    constructor
    · intro h
      split at h
      · rename_i hpasses
        obtain rfl := Option.some.inj h
        exact ⟨serverIp, rfl, hpasses⟩
      · cases h
    · rintro ⟨server, heq, hpasses⟩
      cases heq
      rw [if_pos hpasses]
  · rename_i hcarried
    constructor
    · intro h
      cases h
    · rintro ⟨server, heq, -⟩
      exact absurd heq (hcarried name server)

/-- A name is added when it passes and is new; nothing else is. -/
theorem takeName_domains (found : Found) (domain : String) (serverIp : Json) :
    (takeName lower config names found domain serverIp).domains =
      if passes lower config names domain serverIp ∧ domain ∉ found.domains then
        found.domains ++ [domain]
      else found.domains := by
  unfold takeName passes
  split_ifs <;> simp_all

theorem collectOne_eq_error {found : Found} {event : Json} {e : PyError} :
    collectOne lower config names found event = .error e ↔ carriedName event = .error e := by
  rw [collectOne, Except.bind_eq_error]
  constructor
  · rintro (h | ⟨c, -, h⟩)
    · exact h
    · cases c <;> cases h
  · exact .inl

/-- The names after an event: those found before it and the one it puts forward, each once. -/
theorem collectOne_domains {found found' : Found} {event : Json} (hnodup : found.domains.Nodup)
    (h : collectOne lower config names found event = .ok found') :
    found'.domains.Nodup ∧ ∀ name, name ∈ found'.domains ↔
      name ∈ found.domains ∨ offered lower config names event = some name := by
  obtain ⟨c, hc, h⟩ := Except.bind_eq_ok.mp h
  cases c with
  | none =>
    obtain rfl := Except.ok.inj h
    refine ⟨hnodup, fun name => ?_⟩
    simp [offered, hc]
  | some c =>
    obtain ⟨domain, serverIp⟩ := c
    obtain rfl := Except.ok.inj h
    have hoffered : offered lower config names event =
        if passes lower config names domain serverIp then some domain else none := by
      simp only [offered, hc]
    rw [takeName_domains, hoffered]
    by_cases hpasses : passes lower config names domain serverIp
    · -- a name that is there takes no second slot
      by_cases hmem : domain ∈ found.domains
      · refine ⟨by simpa [hmem] using hnodup, fun name => ?_⟩
        simp only [hpasses, hmem, not_true, and_false, if_false, if_true, Option.some.injEq]
        constructor
        · exact .inl
        · rintro (h | rfl)
          · exact h
          · exact hmem
      · simp only [hpasses, hmem, not_false_eq_true, and_self, if_true, Option.some.injEq]
        refine ⟨hnodup.append (List.nodup_singleton _) (by simpa using hmem), fun name => ?_⟩
        rw [List.mem_append, List.mem_singleton, eq_comm (a := name)]
    · simpa [hpasses] using hnodup

/-! ### The loop -/

/-- Fewer than `maxDomains` different names come from these events. -/
def Reached (lower : String → String) (config : Option SuricataConfig) (names : List String)
    (before : List Json) : Prop :=
  (before.filterMap (offered lower config names)).dedup.length < maxDomains

/-- The state of the loop after the events `done`. -/
structure Progress (lower : String → String) (config : Option SuricataConfig)
    (names : List String) (done : List Json) (found : Found) : Prop where
  nodup : found.domains.Nodup
  mem_iff : ∀ name, name ∈ found.domains ↔ name ∈ done.filterMap (offered lower config names)
  reached : ∀ before event after, done = before ++ event :: after →
    Reached lower config names before
  readable : ∀ event ∈ done, ∃ c, carriedName event = .ok c

theorem progress_nil (ips : List Json) : Progress lower config names [] ⟨ips, []⟩ where
  nodup := List.nodup_nil
  mem_iff _ := Iff.rfl
  reached _ _ _ h := by simp at h
  readable _ h := nomatch h

/-- The number of names found is the number of different names put forward. -/
theorem Progress.room_iff {done : List Json} {found : Found}
    (h : Progress lower config names done found) :
    found.domains.length < maxDomains ↔ Reached lower config names done := by
  have hperm : found.domains.Perm (done.filterMap (offered lower config names)).dedup := by
    refine (List.perm_ext_iff_of_nodup h.nodup (List.nodup_dedup _)).mpr fun name => ?_
    rw [h.mem_iff, List.mem_dedup]
  rw [Reached, hperm.length_eq]

theorem Progress.step {done : List Json} {event : Json} {found found' : Found}
    (h : Progress lower config names done found) (hroom : found.domains.length < maxDomains)
    (hstep : collectOne lower config names found event = .ok found') :
    Progress lower config names (done ++ [event]) found' := by
  have hdomains := collectOne_domains h.nodup hstep
  obtain ⟨c, hc, -⟩ := Except.bind_eq_ok.mp hstep
  refine ⟨hdomains.1, fun name => ?_, fun before e after heq => ?_, fun e he => ?_⟩
  · rw [hdomains.2, h.mem_iff, List.filterMap_append, List.mem_append]
    simp [List.mem_filterMap]
  · rcases List.eq_nil_or_concat after with rfl | ⟨after, e', rfl⟩
    · obtain ⟨rfl, -⟩ := List.append_inj' heq rfl
      exact h.room_iff.mp hroom
    · rw [List.concat_eq_append, ← List.cons_append, ← List.append_assoc] at heq
      obtain ⟨rfl, -⟩ := List.append_inj' heq rfl
      exact h.reached before e after rfl
  · rcases List.mem_append.mp he with he | he
    · exact h.readable e he
    · obtain rfl := List.mem_singleton.mp he
      exact ⟨c, hc⟩

theorem Reached.of_append {before more : List Json}
    (h : Reached lower config names (before ++ more)) : Reached lower config names before := by
  refine lt_of_le_of_lt ?_ h
  rw [List.filterMap_append]
  refine List.Subperm.length_le ((List.nodup_dedup _).subperm fun name hname => ?_)
  exact List.mem_dedup.mpr (List.mem_append_left _ (List.mem_dedup.mp hname))

/-- The loop ends after some of the events, which are all of them or put enough names forward. -/
theorem collect_progress {ips : List Json} {events : List Json} {found : Found}
    (h : collect lower config names events ⟨ips, []⟩ = .ok found) :
    ∃ done rest, events = done ++ rest ∧ Progress lower config names done found ∧
      (rest = [] ∨ ¬Reached lower config names done) := by
  obtain ⟨done, rest, hevents, hdone, hrest⟩ :=
    Except.foldUntil_eq_ok (I := Progress lower config names)
      (fun done event s t hs hroom hstep => hs.step (by simpa using hroom) hstep)
      (progress_nil ips) (by simp [maxDomains]) h
  rw [List.nil_append] at hdone
  refine ⟨done, rest, hevents, hdone, hrest.imp_right fun hfull hreached => ?_⟩
  have hroom := hdone.room_iff.mpr hreached
  simp only [decide_eq_true_eq] at hfull
  omega

/-- An event that the loop comes to is among those it has done. -/
theorem mem_done {done rest before after : List Json} {event : Json}
    (h : done ++ rest = before ++ event :: after)
    (hrest : rest = [] ∨ ¬Reached lower config names done)
    (hbefore : Reached lower config names before) : event ∈ done := by
  rcases List.append_eq_append_iff.mp h with ⟨more, rfl, rfl⟩ | ⟨more, rfl, hmore⟩
  · -- the loop would have ended before the event, with room for more
    rcases hrest with hrest | hrest
    · simp at hrest
    · exact absurd hbefore.of_append hrest
  · cases more with
    | nil =>
      obtain rfl : event :: after = rest := hmore
      rw [List.append_nil] at hrest
      rcases hrest with hrest | hrest
      · cases hrest
      · exact absurd hbefore hrest
    | cons e more =>
      obtain ⟨rfl, -⟩ := List.cons.inj hmore
      exact List.mem_append_right _ List.mem_cons_self

/-- The names found are those that the events the loop comes to put forward. -/
theorem mem_collect_iff {ips : List Json} {events : List Json} {found : Found} {name : String}
    (h : collect lower config names events ⟨ips, []⟩ = .ok found) :
    name ∈ found.domains ↔ ∃ before event after, events = before ++ event :: after ∧
      Reached lower config names before ∧ offered lower config names event = some name := by
  obtain ⟨done, rest, rfl, hdone, hrest⟩ := collect_progress h
  rw [hdone.mem_iff, List.mem_filterMap]
  constructor
  · rintro ⟨event, hevent, hname⟩
    obtain ⟨before, after, rfl⟩ := List.append_of_mem hevent
    exact ⟨before, event, after ++ rest, by simp, hdone.reached before event after rfl, hname⟩
  · rintro ⟨before, event, after, heq, hbefore, hname⟩
    exact ⟨event, mem_done heq hrest hbefore, hname⟩

/-- The loop raises when an event it comes to cannot be read. -/
theorem collect_eq_error_iff {ips : List Json} {events : List Json} :
    (∃ e, collect lower config names events ⟨ips, []⟩ = .error e) ↔
      ∃ before event after e, events = before ++ event :: after ∧
        Reached lower config names before ∧ carriedName event = .error e := by
  constructor
  · rintro ⟨e, h⟩
    obtain ⟨before, event, after, found, hevents, hbefore, hroom, hevent⟩ :=
      Except.foldUntil_eq_error (I := Progress lower config names)
        (fun done event s t hs hroom hstep => hs.step (by simpa using hroom) hstep)
        (progress_nil ips) (by simp [maxDomains]) h
    rw [List.nil_append] at hbefore
    exact ⟨before, event, after, e, hevents, hbefore.room_iff.mp (by simpa using hroom),
      collectOne_eq_error.mp hevent⟩
  · rintro ⟨before, event, after, e, hevents, hbefore, hevent⟩
    cases h : collect lower config names events ⟨ips, []⟩ with
    | error e' => exact ⟨e', rfl⟩
    | ok found =>
      obtain ⟨done, rest, hdone, hprogress, hrest⟩ := collect_progress h
      obtain ⟨c, hc⟩ :=
        hprogress.readable event (mem_done (hdone.symm.trans hevents) hrest hbefore)
      rw [hevent] at hc
      cases hc

end Verdix.Indicators
