import Verdix.Lib.Replace
import Verdix.Web.Dispositions

/-!
# Which disposition an alert is linked to

The row of a disposition is stamped, committed and linked at three different times, and nothing
orders the requests in between.  `linked_latest_iff`: when all requests have been answered, an alert
is linked to its latest disposition iff the last link was to one that no other link is younger than.
-/

open TransitionSystem

namespace Verdix.Posting

open DispositionStore

variable {now : Datetime} {db : Db} {alerts : AlertLinks} {s s' : Posting}
  {tr : List (Move Posting Act)} {alertId : String}

/-- A request knows the alert of its row. -/
def Sound (r : Request) : Prop :=
  match r.stage with
  | .recording row | .linking row => row.alertId = r.alertId
  | _ => True

/-- The rows of the alert are those that have been linked and those about to be. -/
structure Linking (alertId : String) (links : List Disposition) (s : Posting) : Prop where
  sound : ∀ r ∈ s.requests, Sound r
  stored : ∀ r ∈ s.requests, ∀ d, r.stage = .linking d → d ∈ s.dispositions.rows
  alerts : ∀ a ∈ s.alerts.rows, a.alertId = alertId →
    a.dispositionId = links.getLast?.map Disposition.dispositionId
  rows : ∀ d ∈ s.dispositions.rows, d.alertId = alertId →
    d ∈ links ∨ ∃ r ∈ s.requests, r.stage = .linking d
  links : ∀ d ∈ links, d ∈ s.dispositions.rows ∧ d.alertId = alertId

/-! ### One step -/

/-- Requests come in that are not linking. -/
theorem Linking.add {links : List Disposition} (h : Linking alertId links s) {r : Request}
    (hsound : Sound r) (hstage : ∀ d, r.stage ≠ .linking d) :
    Linking alertId links { s with requests := s.requests ++ [r] } := by
  refine ⟨?_, ?_, h.alerts, fun d hd hid => ?_, h.links⟩
  · exact List.forall_mem_append.mpr ⟨h.sound, List.forall_mem_singleton.mpr hsound⟩
  · refine List.forall_mem_append.mpr ⟨h.stored, List.forall_mem_singleton.mpr fun d hd => ?_⟩
    exact absurd hd (hstage d)
  · rcases h.rows d hd hid with hd | ⟨r', hr', hstage'⟩
    · exact .inl hd
    · exact .inr ⟨r', List.mem_append_left _ hr', hstage'⟩

/-- A request that is not linking moves on, and does not link then either. -/
theorem Linking.move {links : List Disposition} (h : Linking alertId links s) {i : ℕ} {r : Request}
    (hget : s.requests[i]? = some r) (hold : ∀ d, r.stage ≠ .linking d) {stage : Stage}
    (hsound : Sound { r with stage := stage }) (hnew : ∀ d, stage ≠ .linking d) :
    Linking alertId links (s.moveTo i r stage) := by
  refine ⟨Replace.forall_mem_set h.sound hsound, ?_, h.alerts, fun d hd hid => ?_, h.links⟩
  · exact Replace.forall_mem_set h.stored fun d hd => absurd hd (hnew d)
  · rcases h.rows d hd hid with hd | ⟨r', hr', hstage'⟩
    · exact .inl hd
    · refine .inr ⟨r', Replace.mem_set_of_ne hget hr' ?_, hstage'⟩
      rintro rfl
      exact hold d hstage'

/-- A row is committed, and its request is about to link it. -/
theorem Linking.record {links : List Disposition} (h : Linking alertId links s) {i : ℕ} {r : Request}
    {row : Disposition} (hget : s.requests[i]? = some r) (hrow : r.stage = .recording row)
    {dispositions : Dispositions} (hrows : dispositions.rows = s.dispositions.rows ++ [row]) :
    Linking alertId links { s.moveTo i r (.linking row) with dispositions := dispositions } := by
  have hsound := h.sound r (List.mem_of_getElem? hget)
  unfold Sound at hsound
  rw [hrow] at hsound
  refine ⟨Replace.forall_mem_set h.sound hsound, ?_, h.alerts, fun d hd hid => ?_, fun d hd => ?_⟩
  · -- the new row is stored, and so are those of the other requests
    show ∀ r' ∈ s.requests.set i _, ∀ d, r'.stage = .linking d → d ∈ dispositions.rows
    rw [hrows]
    refine Replace.forall_mem_set (fun r' hr' d hd => ?_) fun d hd => ?_
    · exact List.mem_append_left _ (h.stored r' hr' d hd)
    · obtain rfl : row = d := by simpa using hd
      exact List.mem_append_right _ (List.mem_singleton.mpr rfl)
  · have hd : d ∈ s.dispositions.rows ++ [row] := hrows ▸ hd
    rcases List.mem_append.mp hd with hd | hd
    · rcases h.rows d hd hid with hd | ⟨r', hr', hstage'⟩
      · exact .inl hd
      · refine .inr ⟨r', Replace.mem_set_of_ne hget hr' ?_, hstage'⟩
        rintro rfl
        rw [hrow] at hstage'
        contradiction
    · obtain rfl := List.mem_singleton.mp hd
      exact .inr ⟨_, Replace.mem_set_self hget, rfl⟩
  · obtain ⟨hmem, hid⟩ := h.links d hd
    refine ⟨?_, hid⟩
    show d ∈ dispositions.rows
    rw [hrows]
    exact List.mem_append_left _ hmem

/-- The alert is linked. -/
theorem Linking.link {links : List Disposition} (h : Linking alertId links s) {i : ℕ} {r : Request}
    {row : Disposition} (hget : s.requests[i]? = some r) (hrow : r.stage = .linking row) :
    Linking alertId (links ++ if r.alertId = alertId then [row] else [])
      { s.moveTo i r (.done 303) with
        alerts := linkDispositionToAlert s.alerts r.alertId row.dispositionId } := by
  have hmem := List.mem_of_getElem? hget
  have hsound := h.sound r hmem
  unfold Sound at hsound
  rw [hrow] at hsound
  have hstored := h.stored r hmem row hrow
  refine ⟨Replace.forall_mem_set h.sound trivial, ?_, fun a ha hid => ?_, fun d hd hid => ?_, ?_⟩
  · exact Replace.forall_mem_set h.stored fun d hd => by simp at hd
  · obtain ⟨b, hb, rfl⟩ := mem_linkDispositionToAlert.mp ha
    by_cases hsame : b.alertId = r.alertId
    · -- the alert is this request's
      rw [if_pos hsame] at hid ⊢
      rw [if_pos (hsame.symm.trans hid), List.getLast?_concat]
      rfl
    · rw [if_neg (by simpa using hsame)] at hid ⊢
      rw [if_neg (fun heq => hsame (hid.trans heq.symm)), List.append_nil]
      exact h.alerts b hb hid
  · rcases h.rows d hd hid with hd | ⟨r', hr', hstage'⟩
    · exact .inl (List.mem_append_left _ hd)
    · by_cases hr : r' = r
      · rw [hr, hrow] at hstage'
        obtain rfl : row = d := by simpa using hstage'
        rw [if_pos (hsound.symm.trans hid)]
        exact .inl (List.mem_append_right _ (List.mem_singleton.mpr rfl))
      · exact .inr ⟨r', Replace.mem_set_of_ne hget hr' hr, hstage'⟩
  · intro d hd
    rcases List.mem_append.mp hd with hd | hd
    · exact h.links d hd
    · split_ifs at hd with hid
      · obtain rfl := List.mem_singleton.mp hd
        exact ⟨hstored, hsound.trans hid⟩
      · exact absurd hd List.not_mem_nil

theorem Linking.step {links : List Disposition} (h : Linking alertId links s) {a : Act}
    (hstep : step s a = some s') : Linking alertId (links ++ linked alertId [⟨s, a, s'⟩]) s' := by
  cases a with
  | tick t =>
    simp only [Posting.step] at hstep
    split_ifs at hstep
    obtain rfl := Option.some.inj hstep
    rw [show linked alertId _ = [] from rfl, List.append_nil]
    exact ⟨h.sound, h.stored, h.alerts, h.rows, h.links⟩
  | other db =>
    obtain rfl := Option.some.inj hstep
    rw [show linked alertId _ = [] from rfl, List.append_nil]
    exact ⟨h.sound, h.stored, h.alerts, h.rows, h.links⟩
  | post authenticated alertId' action overrideReason =>
    obtain rfl := Option.some.inj hstep
    rw [show linked alertId _ = [] from rfl, List.append_nil]
    -- a new request waits for the verdict, or has its answer
    have hfirst : firstStage authenticated action = .looking ∨
        ∃ statusCode, firstStage authenticated action = .done statusCode := by
      unfold firstStage
      split_ifs
      · exact .inr ⟨_, rfl⟩
      · exact .inr ⟨_, rfl⟩
      · exact .inl rfl
    refine h.add ?_ fun d hd => ?_
    · unfold Sound
      rcases hfirst with heq | ⟨statusCode, heq⟩
      · rw [heq]
        trivial
      · rw [heq]
        trivial
    · rcases hfirst with heq | ⟨statusCode, heq⟩
      · exact absurd (heq.symm.trans hd) (by simp)
      · exact absurd (heq.symm.trans hd) (by simp)
  | lookup i dispositionId =>
    simp only [Posting.step] at hstep
    split at hstep
    · rename_i hget
      obtain rfl := Option.some.inj hstep
      rw [show linked alertId _ = [] from rfl, List.append_nil]
      exact h.move hget (by simp) rfl (by simp)
    · contradiction
  | record i =>
    simp only [Posting.step] at hstep
    rw [show linked alertId _ = [] from rfl, List.append_nil]
    split at hstep
    · rename_i hget
      split at hstep
      · rename_i dispositions hinsert
        obtain rfl := Option.some.inj hstep
        exact h.record hget rfl (Table.insert?_eq_some hinsert).2
      · obtain rfl := Option.some.inj hstep
        exact h.move hget (by simp) trivial (by simp)
    · contradiction
  | link i =>
    simp only [Posting.step] at hstep
    split at hstep
    · rename_i alertId' action overrideReason row hget
      have hlinked :
          linked alertId [⟨s, .link i, s'⟩] = if alertId' = alertId then [row] else [] := by
        unfold linked
        rw [List.filterMap_cons]
        dsimp only
        rw [hget]
        dsimp only
        split_ifs <;> rfl
      rw [hlinked]
      obtain rfl := Option.some.inj hstep
      exact h.link hget rfl
    · contradiction

/-! ### A run -/

theorem linking_of_run (h : Run step (init now db alerts) tr s)
    (hnew : ∀ a ∈ alerts.rows, a.dispositionId = none) : Linking alertId (linked alertId tr) s := by
  refine h.history (P := fun tr s => Linking alertId (linked alertId tr) s) ?_ ?_
  · refine ⟨?_, ?_, fun a ha _ => hnew a ha, ?_, ?_⟩
    · exact fun r hr => absurd hr List.not_mem_nil
    · exact fun r hr => absurd hr List.not_mem_nil
    · exact fun d hd => absurd hd List.not_mem_nil
    · exact fun d hd => absurd hd List.not_mem_nil
  · intro tr s a s' _ hlinking hstep
    rw [linked, List.filterMap_append]
    exact hlinking.step hstep

/-- No link is to a disposition younger than that of the last one. -/
def LastIsLatest (links : List Disposition) : Prop :=
  ∀ last ∈ links.getLast?, ∀ d ∈ links, d.createdAt ≤ last.createdAt

instance (links : List Disposition) : Decidable (LastIsLatest links) :=
  inferInstanceAs (Decidable (∀ last ∈ links.getLast?, ∀ d ∈ links, d.createdAt ≤ last.createdAt))

/-- When all requests have been answered, an alert is linked to its latest disposition iff the
last link was the one to the youngest. -/
theorem linked_latest_iff (h : Run step (init now db alerts) tr s)
    (hnew : ∀ a ∈ alerts.rows, a.dispositionId = none)
    (hdone : ∀ r ∈ s.requests, r.stage.answered = true)
    (hdistinct : ∀ d ∈ s.dispositions.rows, ∀ d' ∈ s.dispositions.rows, d.alertId = alertId →
      d'.alertId = alertId → d.createdAt = d'.createdAt → d = d')
    {a : AlertLink} (ha : a ∈ s.alerts.rows) (hid : a.alertId = alertId)
    (order : ScanOrder Disposition) :
    a.dispositionId =
        (getLatestDisposition s.dispositions order alertId).map Disposition.dispositionId ↔
      LastIsLatest (linked alertId tr) := by
  have hlinking : Linking alertId (linked alertId tr) s := linking_of_run h hnew
  rw [hlinking.alerts a ha hid]
  -- nothing is about to be linked, so all rows of the alert have been
  have hall : ∀ d ∈ s.dispositions.rows, d.alertId = alertId → d ∈ linked alertId tr := by
    intro d hd hd'
    rcases hlinking.rows d hd hd' with hmem | ⟨r, hr, hstage⟩
    · exact hmem
    · have hanswered := hdone r hr
      rw [hstage] at hanswered
      contradiction
  unfold LastIsLatest
  cases hlast : (linked alertId tr).getLast? with
  | none =>
    have hempty := List.getLast?_eq_none_iff.mp hlast
    cases hlatest : getLatestDisposition s.dispositions order alertId with
    | none => simp
    | some d =>
      obtain ⟨hd, hd', -⟩ := getLatestDisposition_eq_some hlatest
      have := hall d hd hd'
      rw [hempty] at this
      contradiction
  | some last =>
    have hmem : last ∈ linked alertId tr := List.mem_of_getLast? hlast
    obtain ⟨hrow, hlastId⟩ := hlinking.links last hmem
    cases hlatest : getLatestDisposition s.dispositions order alertId with
    | none => exact absurd hlastId (getLatestDisposition_eq_none hlatest last hrow)
    | some d =>
      obtain ⟨hd, hdId, hmax⟩ := getLatestDisposition_eq_some hlatest
      constructor
      · intro heq last' hlast' d' hd'
        obtain rfl : last = last' := by simpa using hlast'
        have hsame : last = d := by
          refine s.dispositions.eq_of_key_eq hrow hd ?_
          simpa using heq
        obtain ⟨hd'row, hd'Id⟩ := hlinking.links d' hd'
        rw [hsame]
        exact hmax d' hd'row hd'Id
      · -- the two are of one time, so they are one row
        intro hle
        have h1 := hle last (by simp) d (hall d hd hdId)
        have h2 := hmax last hrow hlastId
        rw [hdistinct last hrow d hd hlastId hdId (le_antisymm h2 h1)]

/-- A table with one alert. -/
def sampleAlerts : AlertLinks := ⟨[⟨"alert", none⟩], List.nodup_singleton _⟩

/-- Two requests for the alert, recorded one after the other. -/
def sampleActs : List Act :=
  [.post true "alert" "accept" "", .post true "alert" "override" "benign scanner", .lookup 0 "first",
    .tick ⟨1, by decide⟩, .lookup 1 "second", .record 0, .record 1]

/-- The requests link in the order of their stamps. -/
theorem linked_latest_in_order :
    let r := runFrom step (init ⟨0, by decide⟩ .empty sampleAlerts) (sampleActs ++ [.link 0, .link 1])
    some "second" = (getLatestDisposition r.2.dispositions (.rowid Disposition) "alert").map
      Disposition.dispositionId :=
  (linked_latest_iff (run_runFrom _ _) (by decide) (by decide +kernel) (by decide +kernel)
    (a := ⟨"alert", some "second"⟩) (by decide +kernel) rfl (.rowid Disposition)).mpr
    (by decide +kernel)

/-- The first request links last. -/
theorem linked_not_latest :
    let r := runFrom step (init ⟨0, by decide⟩ .empty sampleAlerts) (sampleActs ++ [.link 1, .link 0])
    Run step (init ⟨0, by decide⟩ .empty sampleAlerts) r.1 r.2 ∧
      (r.2.requests.map Request.stage = [.done 303, .done 303]) ∧
      r.2.dispositions.rows.map Disposition.createdAt = [⟨0, by decide⟩, ⟨1, by decide⟩] ∧
      r.2.alerts.rows = [⟨"alert", some "first"⟩] ∧
      (getLatestDisposition r.2.dispositions (.rowid Disposition) "alert").map
        Disposition.dispositionId = some "second" :=
  ⟨run_runFrom _ _, by decide +kernel, by decide +kernel, by decide +kernel, by decide +kernel⟩

end Verdix.Posting
