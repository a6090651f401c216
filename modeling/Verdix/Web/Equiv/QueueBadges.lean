import Mathlib.Data.Finset.Card
import Verdix.Lib.AssocList
import Verdix.Web.Equiv.QueueRows

/-!
# What the rows of the queue page say about their groups

`buildQueueRows_partition`: the rows partition the alerts by their keys, newest first, and the badge
of a row is that of every member whose verdict has a category.

An empty `verdict_id` links to no verdict, and the code passes over an empty category; with the empty
category taken for one of its own, a row can show what a member was not given
(`empty_category_hidden`).
-/

namespace Verdix.QueueRows

/-! ### What a row is about -/

/-- The verdict row that an alert links to. -/
def storedVerdict (getVerdict : String → Option Verdict) (a : Alert) : Option Verdict :=
  match a.verdictId with
  | none => none
  | some vid => if vid = "" then none else getVerdict vid

/-- The alerts with the key of the alert that a row links to. -/
def membersOf (alerts : List Alert) (row : QueueRow) : List Alert :=
  alerts.filter fun a => alerts.any fun b => b.alertId = row.alertId && groupKey a = groupKey b

/-- The row links to one of the alerts. -/
def Links (alerts : List Alert) (row : QueueRow) : Prop := ∃ a ∈ alerts, a.alertId = row.alertId

/-- The category of an alert's verdict, as `reading` takes it. -/
def storedCategory (reading : String → Option String) (getVerdict : String → Option Verdict)
    (a : Alert) : Option String :=
  (storedVerdict getVerdict a).bind fun v => reading v.verdictCategory

/-- What a row says about its members. -/
structure Sound (reading : String → Option String) (getVerdict : String → Option Verdict)
    (members : List Alert) (row : QueueRow) : Prop where
  count : row.count = members.length
  mixed_iff : row.verdictMixed = true ↔ ∃ a ∈ members, ∃ b ∈ members, ∃ c d,
    storedCategory reading getVerdict a = some c ∧ storedCategory reading getVerdict b = some d ∧
      c ≠ d
  /-- A category that is shown is that of every member that has one. -/
  shown : ∀ c, row.verdictCategory.bind reading = some c → ∀ a ∈ members, ∀ d,
    storedCategory reading getVerdict a = some d → d = c
  /-- A confidence that is shown is that of the alert the row links to. -/
  confidence : ∀ score, row.confidenceScore = some score → ∀ a ∈ members,
    a.alertId = row.alertId → (storedVerdict getVerdict a).map Verdict.confidenceScore = some score

/-- The rows of a list of alerts. -/
structure Partition (reading : String → Option String) (getVerdict : String → Option Verdict)
    (alerts : List Alert) (rows : List QueueRow) : Prop where
  links : ∀ row ∈ rows, Links alerts row
  /-- Every alert is in one row. -/
  one : ∀ a ∈ alerts, ∃ row ∈ rows, a ∈ membersOf alerts row
  /-- Rows at two places have no member, and no key, in common. -/
  apart : rows.Pairwise fun x y => ∀ a ∈ membersOf alerts x, ∀ b ∈ membersOf alerts y,
    groupKey a ≠ groupKey b
  total : (rows.map QueueRow.count).sum = alerts.length
  newest : rows.Pairwise fun x y => y.ingestTimestamp ≤ x.ingestTimestamp
  sound : ∀ row ∈ rows, Sound reading getVerdict (membersOf alerts row) row

/-- A category that counts: the empty one is passed over. -/
def nonempty (category : String) : Option String := if category = "" then none else some category

variable {getVerdict : String → Option Verdict} {columns : String → AlertColumns}
  {alerts : List Alert}

/-! ### The verdicts that were collected -/

/-- Every entry is what the store has under its id, and no id is empty. -/
def Entries (getVerdict : String → Option Verdict) (verdicts : List (String × Verdict)) : Prop :=
  ∀ e ∈ verdicts, getVerdict e.1 = some e.2 ∧ e.1 ≠ ""

theorem Entries.lookup {verdicts : List (String × Verdict)} (h : Entries getVerdict verdicts)
    {vid : String} {v : Verdict} (hv : verdicts.lookup vid = some v) :
    getVerdict vid = some v ∧ vid ≠ "" := by
  exact h (vid, v) (AssocList.mem_of_lookup hv)

/-- After the alerts so far, every id they link to is looked up as the store would. -/
def Collected (getVerdict : String → Option Verdict) (alerts : List Alert)
    (verdicts : List (String × Verdict)) : Prop :=
  ∀ a ∈ alerts, ∀ vid, a.verdictId = some vid → vid ≠ "" → verdicts.lookup vid = getVerdict vid

/-- One more entry leaves the lookups of the others. -/
theorem lookup_snoc {verdicts : List (String × Verdict)} {vid k : String} {v : Verdict}
    (hv : getVerdict vid = some v) (hk : verdicts.lookup k = getVerdict k) :
    (verdicts ++ [(vid, v)]).lookup k = getVerdict k := by
  rw [List.lookup_append, hk]
  cases hget : getVerdict k with
  | some w => rfl
  | none =>
    have hne : k ≠ vid := by
      rintro rfl
      rw [hget] at hv
      contradiction
    simp [hne]

theorem verdictMap_snoc (getVerdict : String → Option Verdict) (alerts : List Alert) (a : Alert) :
    verdictMap getVerdict (alerts ++ [a]) =
      match a.verdictId with
      | none => verdictMap getVerdict alerts
      | some vid =>
        if vid ≠ "" ∧ ((verdictMap getVerdict alerts).lookup vid).isNone then
          match getVerdict vid with
          | some v => verdictMap getVerdict alerts ++ [(vid, v)]
          | none => verdictMap getVerdict alerts
        else verdictMap getVerdict alerts := by
  unfold verdictMap
  rw [List.foldl_append]
  rfl

theorem verdictMap_spec (getVerdict : String → Option Verdict) (alerts : List Alert) :
    Entries getVerdict (verdictMap getVerdict alerts) ∧
      Collected getVerdict alerts (verdictMap getVerdict alerts) := by
  induction alerts using List.reverseRecOn with
  | nil => exact ⟨List.forall_mem_nil _, List.forall_mem_nil _⟩
  | append_singleton alerts a ih =>
    obtain ⟨hentries, hcollected⟩ := ih
    rw [verdictMap_snoc]
    generalize verdictMap getVerdict alerts = verdicts at hentries hcollected
    -- what is left to show of the new alert, when the entries stay as they are
    have hsame : (∀ vid, a.verdictId = some vid → vid ≠ "" →
        verdicts.lookup vid = getVerdict vid) →
        Entries getVerdict verdicts ∧ Collected getVerdict (alerts ++ [a]) verdicts := by
      intro hnew
      refine ⟨hentries, fun b hb => ?_⟩
      rcases List.mem_append.mp hb with hb | hb
      · exact hcollected b hb
      · rw [List.mem_singleton.mp hb]
        exact hnew
    cases hvid : a.verdictId with
    | none =>
      apply hsame
      intro vid h
      rw [hvid] at h
      contradiction
    | some vid =>
      dsimp only
      split_ifs with hnew
      · have hnone : verdicts.lookup vid = none := Option.isNone_iff_eq_none.mp hnew.2
        cases hget : getVerdict vid with
        | none =>
          apply hsame
          intro k hk _
          obtain rfl : vid = k := Option.some.inj (hvid.symm.trans hk)
          rw [hnone, hget]
        | some v =>
          refine ⟨List.forall_mem_append.mpr ⟨hentries, ?_⟩, fun b hb k hk hk0 => ?_⟩
          · exact List.forall_mem_singleton.mpr ⟨hget, hnew.1⟩
          · rcases List.mem_append.mp hb with hb | hb
            · exact lookup_snoc hget (hcollected b hb k hk hk0)
            · rw [List.mem_singleton.mp hb] at hk
              obtain rfl : vid = k := Option.some.inj (hvid.symm.trans hk)
              rw [List.lookup_append, hnone, hget]
              simp
      · apply hsame
        intro k hk hk0
        obtain rfl : vid = k := Option.some.inj (hvid.symm.trans hk)
        cases hv : verdicts.lookup vid with
        | none => exact absurd ⟨hk0, by rw [hv]; rfl⟩ hnew
        | some v => exact (hentries.lookup hv).1.symm

/-- For the alerts of the page, the collected verdict is the stored one. -/
theorem verdictOf_verdictMap {a : Alert} (ha : a ∈ alerts) :
    verdictOf (verdictMap getVerdict alerts) a = storedVerdict getVerdict a := by
  obtain ⟨hentries, hcollected⟩ := verdictMap_spec getVerdict alerts
  unfold verdictOf storedVerdict
  cases hvid : a.verdictId with
  | none => rfl
  | some vid =>
    by_cases hempty : vid = ""
    · have hnone : (verdictMap getVerdict alerts).lookup vid = none := by
        by_contra hsome
        obtain ⟨v, hv⟩ := Option.ne_none_iff_exists'.mp hsome
        exact (hentries.lookup hv).2 hempty
      show (verdictMap getVerdict alerts).lookup vid = if vid = "" then none else getVerdict vid
      rw [hnone, if_pos hempty]
    · show (verdictMap getVerdict alerts).lookup vid = if vid = "" then none else getVerdict vid
      rw [hcollected a ha vid hvid hempty, if_neg hempty]

/-! ### The verdict of a group -/

/-- The categories that the badge is made of. -/
def categoriesOf (verdicts : List (String × Verdict)) (members : List Alert) : List String :=
  ((members.filter fun m => m.verdictId.any fun vid => vid ≠ "").filterMap fun m =>
    (verdictOf verdicts m).map Verdict.verdictCategory).filter fun c => c ≠ ""

/-- A group has no analyzed member, or shows the verdict of the one it links to. -/
theorem groupVerdict_cases (verdicts : List (String × Verdict)) (rep : Alert)
    (members : List Alert) :
    (∀ m ∈ members, (m.verdictId.any fun vid => vid ≠ "") = false) ∧
        groupVerdict verdicts rep members = ⟨false, [], none, rep.alertId⟩ ∨
      ∃ m ∈ members, ∃ breakdown, groupVerdict verdicts rep members =
        ⟨1 < (categoriesOf verdicts members).dedup.length, breakdown, verdictOf verdicts m,
          m.alertId⟩ := by
  unfold groupVerdict
  dsimp only
  cases hmax : (members.filter fun m => m.verdictId.any fun vid => vid ≠ "").argmax ingestText with
  | none =>
    left
    refine ⟨fun m hm => ?_, rfl⟩
    have hnil := List.filter_eq_nil_iff.mp (List.argmax_eq_none.mp hmax) m hm
    simpa using hnil
  | some m =>
    right
    have hm := List.argmax_mem (Option.mem_def.mpr hmax)
    exact ⟨m, (List.mem_filter.mp hm).1, _, rfl⟩

theorem storedVerdict_of_not_analyzed {m : Alert}
    (h : (m.verdictId.any fun vid => vid ≠ "") = false) : storedVerdict getVerdict m = none := by
  unfold storedVerdict
  cases hvid : m.verdictId with
  | none => rfl
  | some vid =>
    rw [hvid] at h
    have hempty : vid = "" := by simpa using h
    show (if vid = "" then none else getVerdict vid) = none
    rw [if_pos hempty]

theorem nonempty_eq_some {c d : String} : nonempty c = some d ↔ c = d ∧ c ≠ "" := by
  unfold nonempty
  split_ifs with h
  · simp [h]
  · simp [h]

theorem storedCategory_eq_some {m : Alert} {c : String} :
    storedCategory nonempty getVerdict m = some c ↔
      ∃ v, storedVerdict getVerdict m = some v ∧ v.verdictCategory = c ∧ c ≠ "" := by
  unfold storedCategory
  rw [Option.bind_eq_some_iff]
  constructor
  · rintro ⟨v, hv, hc⟩
    obtain ⟨rfl, hne⟩ := nonempty_eq_some.mp hc
    exact ⟨v, hv, rfl, hne⟩
  · rintro ⟨v, hv, rfl, hne⟩
    exact ⟨v, hv, nonempty_eq_some.mpr ⟨rfl, hne⟩⟩

/-- They are the categories of the members' stored verdicts. -/
theorem mem_categoriesOf {members : List Alert} (hsub : ∀ m ∈ members, m ∈ alerts) {c : String} :
    c ∈ categoriesOf (verdictMap getVerdict alerts) members ↔
      ∃ m ∈ members, storedCategory nonempty getVerdict m = some c := by
  unfold categoriesOf
  rw [List.mem_filter, List.mem_filterMap]
  constructor
  · rintro ⟨⟨m, hm, hc⟩, hne⟩
    have hmem := (List.mem_filter.mp hm).1
    rw [verdictOf_verdictMap (hsub m hmem)] at hc
    obtain ⟨v, hv, hcat⟩ := Option.map_eq_some_iff.mp hc
    exact ⟨m, hmem, storedCategory_eq_some.mpr ⟨v, hv, hcat, of_decide_eq_true hne⟩⟩
  · rintro ⟨m, hm, hc⟩
    obtain ⟨v, hv, hcat, hne⟩ := storedCategory_eq_some.mp hc
    refine ⟨⟨m, List.mem_filter.mpr ⟨hm, ?_⟩, ?_⟩, decide_eq_true hne⟩
    · by_contra hnot
      rw [Bool.not_eq_true] at hnot
      rw [storedVerdict_of_not_analyzed hnot] at hv
      contradiction
    · rw [verdictOf_verdictMap (hsub m hm), hv, ← hcat]
      rfl

theorem one_lt_length_dedup {l : List String} :
    1 < l.dedup.length ↔ ∃ a ∈ l, ∃ b ∈ l, a ≠ b := by
  rw [← List.card_toFinset, Finset.one_lt_card]
  simp only [List.mem_toFinset]

/-! ### The row of a group -/

/-- What a group without analyzed members shows. -/
theorem sound_of_pending {verdicts : List (String × Verdict)} {g : KeyGroup groupKey}
    (hnone : ∀ m ∈ g.members, storedVerdict getVerdict m = none)
    (hgroup : groupVerdict verdicts (g.maxBy ingestText) g.members =
      ⟨false, [], none, (g.maxBy ingestText).alertId⟩) :
    Sound nonempty getVerdict g.members (queueRow verdicts columns g) := by
  have hcategory : (queueRow verdicts columns g).verdictCategory = none := by
    unfold queueRow
    dsimp only
    rw [hgroup]
    rfl
  have hconfidence : (queueRow verdicts columns g).confidenceScore = none := by
    unfold queueRow
    dsimp only
    rw [hgroup]
    rfl
  have hmixed : (queueRow verdicts columns g).verdictMixed = false :=
    congrArg GroupVerdict.verdictMixed hgroup
  refine ⟨rfl, ?_, fun c hc => ?_, fun score hscore => ?_⟩
  · rw [hmixed]
    constructor
    · intro h
      contradiction
    · -- two categories would need a member with a verdict
      rintro ⟨a, ha, -, -, c, -, hc, -⟩
      obtain ⟨v, hv, -⟩ := storedCategory_eq_some.mp hc
      rw [hnone a ha] at hv
      contradiction
  · rw [hcategory] at hc
    contradiction
  · rw [hconfidence] at hscore
    contradiction

/-- What a group shows that links to the analyzed member `m`. -/
theorem sound_of_analyzed {g : KeyGroup groupKey} {m : Alert} {breakdown : List (String × ℕ)}
    (hsub : ∀ a ∈ g.members, a ∈ alerts) (hids : (alerts.map Alert.alertId).Nodup)
    (hm : m ∈ g.members)
    (hgroup : groupVerdict (verdictMap getVerdict alerts) (g.maxBy ingestText) g.members =
      ⟨1 < (categoriesOf (verdictMap getVerdict alerts) g.members).dedup.length, breakdown,
        verdictOf (verdictMap getVerdict alerts) m, m.alertId⟩) :
    Sound nonempty getVerdict g.members
      (queueRow (verdictMap getVerdict alerts) columns g) := by
  set verdicts := verdictMap getVerdict alerts with hverdicts
  set row := queueRow verdicts columns g with hrow
  have hlink : row.alertId = m.alertId := congrArg GroupVerdict.linkId hgroup
  have hmixed : row.verdictMixed = true ↔ ∃ c ∈ categoriesOf verdicts g.members,
      ∃ d ∈ categoriesOf verdicts g.members, c ≠ d := by
    rw [← one_lt_length_dedup, show row.verdictMixed = _ from
      congrArg GroupVerdict.verdictMixed hgroup, decide_eq_true_iff]
  -- a row that shows anything shows the verdict of `m`
  have hshown : row.verdictMixed = false →
      row.verdictCategory = (storedVerdict getVerdict m).map Verdict.verdictCategory ∧
        row.confidenceScore = (storedVerdict getVerdict m).map Verdict.confidenceScore := by
    intro hnot
    rw [← verdictOf_verdictMap (hsub m hm)]
    have hfalse : (groupVerdict verdicts (g.maxBy ingestText) g.members).verdictMixed = false := hnot
    have hverdict : (groupVerdict verdicts (g.maxBy ingestText) g.members).verdict =
        verdictOf verdicts m := congrArg GroupVerdict.verdict hgroup
    rw [hrow]
    unfold queueRow
    dsimp only
    rw [hfalse, hverdict]
    exact ⟨rfl, rfl⟩
  have hhidden : row.verdictMixed = true →
      row.verdictCategory = none ∧ row.confidenceScore = none := by
    intro htrue
    have htrue : (groupVerdict verdicts (g.maxBy ingestText) g.members).verdictMixed = true := htrue
    rw [hrow]
    unfold queueRow
    dsimp only
    rw [htrue]
    exact ⟨rfl, rfl⟩
  refine ⟨rfl, ?_, fun c hc a ha d hd => ?_, fun score hscore a ha hid => ?_⟩
  · rw [hmixed]
    constructor
    · rintro ⟨c, hc, d, hd, hne⟩
      obtain ⟨a, ha, hac⟩ := (mem_categoriesOf hsub).mp hc
      obtain ⟨b, hb, hbd⟩ := (mem_categoriesOf hsub).mp hd
      exact ⟨a, ha, b, hb, c, d, hac, hbd, hne⟩
    · rintro ⟨a, ha, b, hb, c, d, hac, hbd, hne⟩
      exact ⟨c, (mem_categoriesOf hsub).mpr ⟨a, ha, hac⟩, d,
        (mem_categoriesOf hsub).mpr ⟨b, hb, hbd⟩, hne⟩
  · cases hmix : row.verdictMixed with
    | true =>
      rw [(hhidden hmix).1] at hc
      contradiction
    | false =>
      obtain ⟨c', hc', hread⟩ := Option.bind_eq_some_iff.mp hc
      obtain ⟨rfl, hne⟩ := nonempty_eq_some.mp hread
      rw [(hshown hmix).1] at hc'
      obtain ⟨v, hv, hcat⟩ := Option.map_eq_some_iff.mp hc'
      have hmc : storedCategory nonempty getVerdict m = some c' :=
        storedCategory_eq_some.mpr ⟨v, hv, hcat, hne⟩
      by_contra hdc
      have hmixed' : row.verdictMixed = true :=
        hmixed.mpr ⟨d, (mem_categoriesOf hsub).mpr ⟨a, ha, hd⟩, c',
          (mem_categoriesOf hsub).mpr ⟨m, hm, hmc⟩, hdc⟩
      rw [hmix] at hmixed'
      contradiction
  · obtain rfl : a = m := List.inj_on_of_nodup_map hids (hsub a ha) (hsub m hm) (hid.trans hlink)
    cases hmix : row.verdictMixed with
    | true =>
      rw [(hhidden hmix).2] at hscore
      contradiction
    | false =>
      rw [(hshown hmix).2] at hscore
      exact hscore

theorem sound_queueRow {g : KeyGroup groupKey} (hsub : ∀ a ∈ g.members, a ∈ alerts)
    (hids : (alerts.map Alert.alertId).Nodup) :
    Sound nonempty getVerdict g.members (queueRow (verdictMap getVerdict alerts) columns g) := by
  rcases groupVerdict_cases (verdictMap getVerdict alerts) (g.maxBy ingestText) g.members with
    ⟨hnone, hgroup⟩ | ⟨m, hm, breakdown, hgroup⟩
  · exact sound_of_pending (fun a ha => storedVerdict_of_not_analyzed (hnone a ha)) hgroup
  · exact sound_of_analyzed hsub hids hm hgroup

/-- A row links to a member. -/
theorem exists_linked (verdicts : List (String × Verdict)) (g : KeyGroup groupKey) :
    ∃ m ∈ g.members, m.alertId = (queueRow verdicts columns g).alertId := by
  rcases groupVerdict_cases verdicts (g.maxBy ingestText) g.members with
    ⟨-, hgroup⟩ | ⟨m, hm, breakdown, hgroup⟩
  · exact ⟨_, KeyGroup.maxBy_mem, (congrArg GroupVerdict.linkId hgroup).symm⟩
  · exact ⟨m, hm, (congrArg GroupVerdict.linkId hgroup).symm⟩

/-- The members of a row are those of its group. -/
theorem membersOf_queueRow {verdicts : List (String × Verdict)} {g : KeyGroup groupKey}
    (hg : g ∈ KeyGroup.groupBy groupKey alerts) (hids : (alerts.map Alert.alertId).Nodup) :
    membersOf alerts (queueRow verdicts columns g) = g.members := by
  have hsub : ∀ a ∈ g.members, a ∈ alerts := fun a ha =>
    KeyGroup.exists_mem_groupBy.mp ⟨g, hg, ha⟩
  obtain ⟨m, hm, hlink⟩ : ∃ m ∈ g.members, m.alertId = (queueRow verdicts columns g).alertId :=
    exists_linked verdicts g
  rw [KeyGroup.members_groupBy hg]
  unfold membersOf
  apply List.filter_congr
  intro a _
  rw [← KeyGroup.key_of_mem hm]
  apply Bool.eq_iff_iff.mpr
  rw [List.any_eq_true, decide_eq_true_iff]
  constructor
  · rintro ⟨b, hb, h⟩
    rw [Bool.and_eq_true, decide_eq_true_iff, decide_eq_true_iff] at h
    obtain rfl : b = m := List.inj_on_of_nodup_map hids hb (hsub m hm) (h.1.trans hlink.symm)
    exact h.2
  · intro h
    exact ⟨m, hsub m hm, by simp [hlink, h]⟩

/-! ### The rows -/

/-- The rows partition the alerts, newest first, and every badge is sound. -/
theorem buildQueueRows_partition (getVerdict : String → Option Verdict)
    (columns : String → AlertColumns) {alerts : List Alert}
    (hids : (alerts.map Alert.alertId).Nodup) :
    Partition nonempty getVerdict alerts (buildQueueRows getVerdict columns alerts) := by
  set groups : List (KeyGroup groupKey) := KeyGroup.groupBy groupKey alerts with hgroups
  set row := queueRow (verdictMap getVerdict alerts) columns with hrow
  have hperm : (buildQueueRows getVerdict columns alerts).Perm (groups.map row) :=
    List.perm_insertionSort _ _
  have hsub : ∀ g ∈ groups, ∀ a ∈ g.members, a ∈ alerts := fun g hg a ha =>
    KeyGroup.exists_mem_groupBy.mp ⟨g, hg, ha⟩
  have hmembers : ∀ g ∈ groups, membersOf alerts (row g) = g.members := fun g hg =>
    membersOf_queueRow hg hids
  -- a row of the page is the row of a group
  have hmem : ∀ r, r ∈ buildQueueRows getVerdict columns alerts ↔ ∃ g ∈ groups, row g = r := by
    intro r
    rw [hperm.mem_iff, List.mem_map]
  refine ⟨fun r hr => ?_, fun a ha => ?_, ?_, sum_count_buildQueueRows _ _, ?_, fun r hr => ?_⟩
  · obtain ⟨g, hg, rfl⟩ := (hmem r).mp hr
    obtain ⟨m, hm, hlink⟩ : ∃ m ∈ g.members, m.alertId = (row g).alertId := exists_linked _ g
    exact ⟨m, hsub g hg m hm, hlink⟩
  · obtain ⟨g, hg, hag⟩ : ∃ g ∈ groups, a ∈ g.members := KeyGroup.exists_mem_groupBy.mpr ha
    exact ⟨row g, (hmem _).mpr ⟨g, hg, rfl⟩, (hmembers g hg).symm ▸ hag⟩
  · have hsymm : ∀ {x y : QueueRow},
        (∀ a ∈ membersOf alerts x, ∀ b ∈ membersOf alerts y, groupKey a ≠ groupKey b) →
        ∀ a ∈ membersOf alerts y, ∀ b ∈ membersOf alerts x, groupKey a ≠ groupKey b :=
      fun h a ha b hb => (h b hb a ha).symm
    rw [List.Perm.pairwise_iff hsymm hperm, List.pairwise_map]
    have hkeys : groups.Pairwise fun g g' => g.keyOf ≠ g'.keyOf :=
      List.pairwise_map.mp (KeyGroup.keys_groupBy_nodup alerts)
    apply hkeys.imp_of_mem
    intro g g' hg hg' hne a ha b hb
    rw [hmembers g hg] at ha
    rw [hmembers g' hg'] at hb
    rw [KeyGroup.key_of_mem ha, KeyGroup.key_of_mem hb]
    exact hne
  · apply (List.pairwise_insertionSort byNewest (groups.map row)).imp
    intro x y hxy
    exact Datetime.isoformat_le_iff.mp hxy
  · obtain ⟨g, hg, rfl⟩ := (hmem r).mp hr
    rw [hmembers g hg]
    exact sound_queueRow (hsub g hg) hids

/-- Four minutes past noon. -/
def pastNoon : Datetime := ⟨63902865840000000, by decide⟩

/-- An alert of one group, with the verdict of its own name. -/
def memberAlert (alertId : String) (ingestTimestamp : Datetime) : Alert where
  alertId := alertId
  sensorId := 1
  signatureId := .integer 2027865
  srcIp := .text "192.168.1.5"
  dstIp := .text "192.168.1.2"
  ingestTimestamp := ingestTimestamp
  status := .analyzed
  autoAnalyzed := true
  verdictId := some alertId

/-- A verdict of this category. -/
def categoryVerdict (verdictId category : String) : Verdict where
  verdictId := verdictId
  alertId := verdictId
  verdictCategory := category
  confidenceScore := "0.4"
  reasoning := "test"
  contributingFacts := "[]"
  evidenceChain := "\x7b\x7d"
  modelVersion := "test"
  promptVersion := "test"
  llmInputs := "\x7b\x7d"
  llmRawOutput := "\x7b\x7d"
  latencyMs := 100
  isCurrent := true
  createdAt := noon

def memberAlerts : List Alert :=
  [memberAlert "a1" noon, memberAlert "a2" noon, memberAlert "a3" pastNoon]

/-- The verdicts of three members, the second with the category `second`. -/
def memberVerdicts (second : String) (vid : String) : Option Verdict :=
  match vid with
  | "a1" => some (categoryVerdict "a1" "likely_fp")
  | "a2" => some (categoryVerdict "a2" second)
  | "a3" => some (categoryVerdict "a3" "likely_fp")
  | _ => none

/-- A group whose members disagree. -/
theorem buildQueueRows_partition_mixed :
    Partition nonempty (memberVerdicts "suspicious_investigate") memberAlerts
      (buildQueueRows (memberVerdicts "suspicious_investigate") (fun _ => sampleColumns)
        memberAlerts) :=
  buildQueueRows_partition _ _ (by decide)

/-- A member with the empty category does not make the row mixed, and the row shows a category that
is not that member's. -/
theorem empty_category_hidden :
    ¬ Partition some (memberVerdicts "") memberAlerts
      (buildQueueRows (memberVerdicts "") (fun _ => sampleColumns) memberAlerts) := by
  intro h
  have hrow : ∃ row ∈ buildQueueRows (memberVerdicts "") (fun _ => sampleColumns) memberAlerts,
      row.verdictMixed = false ∧ membersOf memberAlerts row = memberAlerts := by decide +kernel
  obtain ⟨row, hmem, hmixed, hmembers⟩ := hrow
  have hsound := h.sound row hmem
  rw [hmembers] at hsound
  have hdiffer := hsound.mixed_iff.mpr ⟨memberAlert "a1" noon, by decide,
    memberAlert "a2" noon, by decide,
    "likely_fp", "", rfl, rfl, by decide⟩
  rw [hmixed] at hdiffer
  contradiction

end Verdix.QueueRows
