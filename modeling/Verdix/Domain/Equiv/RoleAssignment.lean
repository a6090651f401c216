import Verdix.Domain.RoleAssignment
import Verdix.Lib.Except

/-!
# When the roles of an alert are well formed

`Decides` says that one of the signals names the roles.  `assignFields_settles`: the roles are then
those of the two endpoints, and without such a signal the result is ambiguous.

* `wellFormed_iff`: the result is well formed exactly when a signal that decides finds both addresses.
* `swap_invariant_iff`: with one endpoint in `HOME_NET` the roles do not depend on the direction of
  the packet exactly when the metadata names the client.
-/

namespace Verdix.RoleAssignment

variable {lower : String → String} {str : Json → String} {config : SuricataConfig} {f : RoleFields}
  {r : RoleAssignment} {alertRaw : Json}

/-! ### What the signals decide -/

/-- The rule declares its target. -/
def Targeted (f : RoleFields) : Prop :=
  f.targetField = .str "src_ip" ∨ f.targetField = .str "dest_ip"

/-- What the metadata names is one of the endpoints, by who is in `HOME_NET`. -/
def HintDecides (srcInternal destInternal : Bool) : Option Hint → Prop
  | some .clientIsVictim => srcInternal ≠ destInternal
  | some .serverIsVictim => srcInternal = true ∨ destInternal = true
  | none => False

/-- The category and the direction name the roles. -/
def PatternDecides (srcInternal destInternal : Bool) : Pattern → Prop
  | .outboundCnc | .inboundAttack => srcInternal ≠ destInternal
  | .attackResponse => srcInternal = false ∧ destInternal = true
  | .scan => True
  | .unknown => False

/-- A signal names the roles. -/
inductive Decides (lower : String → String) (config : SuricataConfig) (f : RoleFields) : Prop
  | target (h : Targeted f)
  | metadata {hint : Option Hint} (h : classifyAttackTarget lower f.attackTargetList = .ok hint)
      (hdecides : HintDecides (isInternal config f.srcIp) (isInternal config f.destIp) hint)
  | category {p : Pattern × Confidence} (h : detectPattern lower f.category = .ok p)
      (hdecides : PatternDecides (isInternal config f.srcIp) (isInternal config f.destIp) p.1)

/-- The signals can be read: the category is a text, and so are the targets of the metadata up to the
first that is known. -/
def Readable (lower : String → String) (f : RoleFields) : Prop :=
  Targeted f ∨ (∃ p, detectPattern lower f.category = .ok p) ∧
    ∃ hint, classifyAttackTarget lower f.attackTargetList = .ok hint

/-- The roles are those of the two endpoints. -/
def Named (f : RoleFields) (r : RoleAssignment) : Prop :=
  r.attackerIp = f.srcIp ∧ r.victimIp = f.destIp ∨ r.attackerIp = f.destIp ∧ r.victimIp = f.srcIp

/-- A result without roles. -/
structure Unnamed (r : RoleAssignment) : Prop where
  confidence : r.confidence = .ambiguous
  attackerIp : r.attackerIp = .null
  victimIp : r.victimIp = .null

/-- The result has roles iff they are decided. -/
structure Settles (f : RoleFields) (r : RoleAssignment) (decided : Prop) : Prop where
  named : decided → r.confidence ≠ .ambiguous ∧ Named f r
  unnamed : ¬ decided → Unnamed r

theorem Settles.congr {decided decided' : Prop} (h : Settles f r decided)
    (hiff : decided ↔ decided') : Settles f r decided' :=
  ⟨fun hd => h.named (hiff.mpr hd), fun hd => h.unnamed fun hd' => hd (hiff.mp hd')⟩

/-! ### The signals one by one -/

theorem byTargetField_eq_none : byTargetField str f = none ↔ ¬ Targeted f := by
  unfold byTargetField Targeted
  rw [← Json.isStr_iff, ← Json.isStr_iff, ← Bool.or_eq_true]
  split <;> simp_all

/-- The field names the two endpoints, with a confidence. -/
theorem named_of_byTargetField (h : byTargetField str f = some r) :
    r.confidence ≠ .ambiguous ∧ Named f r := by
  unfold byTargetField at h
  unfold Named
  cases hsrc : f.targetField.isStr "src_ip" <;> cases hdest : f.targetField.isStr "dest_ip" <;>
    simp [hsrc, hdest] at h <;> simp [← h]

theorem named_of_byAttackTarget {s d : Bool} {used : List String} {hint : Option Hint}
    (h : byAttackTarget str f s d used hint = some r) :
    HintDecides s d hint ∧ r.confidence ≠ .ambiguous ∧ Named f r := by
  unfold byAttackTarget at h
  unfold HintDecides Named
  rcases hint with _ | hint
  · cases h
  · cases hint <;> cases s <;> cases d <;> simp at h <;> simp [← h]

theorem not_of_byAttackTarget {s d : Bool} {used : List String} {hint : Option Hint}
    (h : byAttackTarget str f s d used hint = none) : ¬ HintDecides s d hint := by
  unfold byAttackTarget at h
  unfold HintDecides
  rcases hint with _ | hint
  · exact not_false
  · cases hint <;> cases s <;> cases d <;> simp_all

/-- The category names the roles iff its pattern decides on them. -/
theorem byCategory_settles {s d : Bool} {used : List String} {base : Confidence} {pattern : Pattern}
    (hbase : base ≠ .ambiguous) :
    Settles f (byCategory str f s d used base pattern) (PatternDecides s d pattern) := by
  constructor
  · intro h
    unfold PatternDecides at h
    unfold Named
    cases pattern <;> cases s <;> cases d <;>
      simp_all [byCategory, applyOutboundCnc, applyInboundAttack, applyAttackResponse]
  · intro h
    unfold PatternDecides at h
    cases pattern <;> cases s <;> cases d <;> simp_all <;> exact ⟨rfl, rfl, rfl⟩

/-- No rule of a category is ambiguous of itself. -/
theorem detectPattern_ne_ambiguous {category : Json} {p : Pattern × Confidence}
    (h : detectPattern lower category = .ok p) : p.2 ≠ .ambiguous := by
  have hrules : ∀ rule ∈ categoryRules, rule.2.2 ≠ .ambiguous := by decide
  unfold detectPattern at h
  cases category with
  | str category =>
    dsimp only at h
    split at h
    · rename_i rule hfind
      obtain rfl := Except.ok.inj h
      exact hrules rule (List.mem_of_find?_eq_some hfind)
    · obtain rfl := Except.ok.inj h
      decide
  | _ => cases h

/-! ### All of them -/

/-- The roles that are given are those of the first rule that decides. -/
theorem assignFields_settles (h : assignFields lower str config f = .ok r) :
    Settles f r (Decides lower config f) := by
  unfold assignFields at h
  dsimp only at h
  split at h
  · rename_i result htarget
    obtain rfl := Except.ok.inj h
    have htargeted : Targeted f := by
      by_contra hno
      rw [byTargetField_eq_none.mpr hno] at htarget
      cases htarget
    exact ⟨fun _ => named_of_byTargetField htarget, fun hno => absurd (.target htargeted) hno⟩
  · rename_i htarget
    obtain ⟨p, hp, h⟩ := Except.bind_eq_ok.mp h
    obtain ⟨hint, hhint, h⟩ := Except.bind_eq_ok.mp h
    split at h
    · rename_i result hresult
      obtain rfl := Except.ok.inj h
      obtain ⟨hdecides, hnamed⟩ := named_of_byAttackTarget hresult
      exact ⟨fun _ => hnamed, fun hno => absurd (.metadata hhint hdecides) hno⟩
    · rename_i hresult
      obtain rfl := Except.ok.inj h
      -- the first two rules do not decide, so the third does or none
      refine (byCategory_settles (detectPattern_ne_ambiguous hp)).congr ⟨.category hp, ?_⟩
      intro hdecides
      cases hdecides with
      | target h => exact absurd h (byTargetField_eq_none.mp htarget)
      | metadata h hdecides =>
        obtain rfl := Except.ok.inj (hhint.symm.trans h)
        exact absurd hdecides (not_of_byAttackTarget hresult)
      | category h hdecides =>
        obtain rfl := Except.ok.inj (hp.symm.trans h)
        exact hdecides

/-- The rules raise iff a field cannot be read. -/
theorem assignFields_returns_iff :
    (∃ r, assignFields lower str config f = .ok r) ↔ Readable lower f := by
  unfold assignFields Readable
  dsimp only
  cases htarget : byTargetField str f with
  | some r =>
    have htargeted : Targeted f := by
      by_contra hno
      rw [byTargetField_eq_none.mpr hno] at htarget
      cases htarget
    exact ⟨fun _ => .inl htargeted, fun _ => ⟨r, rfl⟩⟩
  | none =>
    rw [or_iff_right (byTargetField_eq_none.mp htarget)]
    constructor
    · rintro ⟨r, h⟩
      obtain ⟨p, hp, h⟩ := Except.bind_eq_ok.mp h
      obtain ⟨hint, hhint, -⟩ := Except.bind_eq_ok.mp h
      exact ⟨⟨p, hp⟩, hint, hhint⟩
    · rintro ⟨⟨p, hp⟩, hint, hhint⟩
      simp only [hp, hhint, Except.bind_eq_ok, Except.ok.injEq, exists_eq_left']
      split
      · exact ⟨_, rfl⟩
      · exact ⟨_, rfl⟩

/-! ### Well-formed results -/

/-- The alert has this address, a text that is not empty. -/
def HasAddress (alertRaw : Json) (key : String) (v : Json) : Prop :=
  ∃ members s, alertRaw = .obj members ∧ Json.lookup members key = some (.str s) ∧ s ≠ "" ∧ v = .str s

/-- Either ambiguous without roles, or with the two addresses of the alert as attacker and victim. -/
inductive WellFormed (alertRaw : Json) (r : RoleAssignment) : Prop
  | ambiguous (h : Unnamed r)
  | forward (hconfidence : r.confidence ≠ .ambiguous)
      (hattacker : HasAddress alertRaw "src_ip" r.attackerIp)
      (hvictim : HasAddress alertRaw "dest_ip" r.victimIp)
  | reversed (hconfidence : r.confidence ≠ .ambiguous)
      (hattacker : HasAddress alertRaw "dest_ip" r.attackerIp)
      (hvictim : HasAddress alertRaw "src_ip" r.victimIp)

theorem readFields_obj (members : List (String × Json)) :
    readFields (.obj members) =
      (readAlert ((Json.member members "alert").orElse (.obj []))).map fun a =>
        { srcIp := (Json.lookup members "src_ip").getD (.str "")
          destIp := (Json.lookup members "dest_ip").getD (.str "")
          category := a.1
          targetField := a.2.1
          attackTargetList := a.2.2 } := rfl

theorem readFields_endpoints (h : readFields alertRaw = .ok f) :
    ∃ members, alertRaw = .obj members ∧
      f.srcIp = (Json.lookup members "src_ip").getD (.str "") ∧
      f.destIp = (Json.lookup members "dest_ip").getD (.str "") := by
  cases alertRaw with
  | obj members =>
    rw [readFields_obj] at h
    obtain ⟨a, -, rfl⟩ := Except.map_eq_ok.mp h
    exact ⟨members, rfl, rfl, rfl⟩
  | _ => cases h

/-- A field that defaults to the empty text holds an address iff the alert has it. -/
theorem exists_hasAddress {members : List (String × Json)} {key : String} {v : Json}
    (hv : v = (Json.lookup members key).getD (.str "")) :
    (∃ w, HasAddress (.obj members) key w) ↔ HasAddress (.obj members) key v := by
  refine ⟨?_, fun h => ⟨v, h⟩⟩
  rintro ⟨w, members', s, hmembers, hlookup, hs, rfl⟩
  obtain rfl := Json.obj.inj hmembers
  refine ⟨members, s, rfl, hlookup, hs, ?_⟩
  rw [hv, hlookup, Option.getD_some]

/-- A settled result is well formed iff both endpoints have an address when the roles are decided. -/
theorem wellFormed_iff_of_settles (hf : readFields alertRaw = .ok f) {decided : Prop}
    (hr : Settles f r decided) :
    WellFormed alertRaw r ↔
      (decided → (∃ v, HasAddress alertRaw "src_ip" v) ∧ ∃ v, HasAddress alertRaw "dest_ip" v) := by
  obtain ⟨members, rfl, hsrc, hdest⟩ := readFields_endpoints hf
  constructor
  · intro hwell hdecided
    cases hwell with
    | ambiguous h => exact absurd h.confidence (hr.named hdecided).1
    | forward _ hattacker hvictim => exact ⟨⟨_, hattacker⟩, _, hvictim⟩
    | reversed _ hattacker hvictim => exact ⟨⟨_, hvictim⟩, _, hattacker⟩
  · intro h
    by_cases hdecided : decided
    · obtain ⟨hconfidence, hnamed⟩ := hr.named hdecided
      rw [exists_hasAddress hsrc, exists_hasAddress hdest] at h
      obtain ⟨hsrcIp, hdestIp⟩ := h hdecided
      rcases hnamed with ⟨hattacker, hvictim⟩ | ⟨hattacker, hvictim⟩
      · exact .forward hconfidence (hattacker ▸ hsrcIp) (hvictim ▸ hdestIp)
      · exact .reversed hconfidence (hattacker ▸ hdestIp) (hvictim ▸ hsrcIp)
    · exact .ambiguous (hr.unnamed hdecided)

/-- The roles of an alert are well formed exactly when the signals can be read and one that decides
finds both addresses in the alert. -/
theorem wellFormed_iff :
    (∃ r, assignRoles lower str alertRaw config = .ok r ∧ WellFormed alertRaw r) ↔
      ∃ f, readFields alertRaw = .ok f ∧ Readable lower f ∧
        (Decides lower config f →
          (∃ v, HasAddress alertRaw "src_ip" v) ∧ ∃ v, HasAddress alertRaw "dest_ip" v) := by
  constructor
  · rintro ⟨r, hr, hwell⟩
    obtain ⟨f, hf, hr⟩ := Except.bind_eq_ok.mp hr
    refine ⟨f, hf, assignFields_returns_iff.mp ⟨r, hr⟩, ?_⟩
    exact (wellFormed_iff_of_settles hf (assignFields_settles hr)).mp hwell
  · rintro ⟨f, hf, hreadable, hpresent⟩
    obtain ⟨r, hr⟩ := assignFields_returns_iff.mpr hreadable
    refine ⟨r, Except.bind_eq_ok.mpr ⟨f, hf, hr⟩, ?_⟩
    exact (wellFormed_iff_of_settles hf (assignFields_settles hr)).mpr hpresent

/-- An alert without a source whose rule declares the destination as target. -/
def sourceless : Json :=
  .obj [("dest_ip", .str "10.0.0.5"), ("alert", .obj [("target", .str "dest_ip")])]

/-- The empty text is the attacker of an alert without a source, with high confidence. -/
theorem sourceless_attacker :
    ∃ r, assignRoles PyStr.lowerAscii Json.plainStr sourceless ⟨[], [], by simp⟩ = .ok r ∧
      r.confidence = .high ∧ r.attackerIp = .str "" ∧ ¬ WellFormed sourceless r := by
  refine ⟨_, rfl, rfl, rfl, fun h => ?_⟩
  cases h with
  | ambiguous h => exact absurd h.confidence (by decide)
  | forward _ hattacker _ =>
    obtain ⟨_, s, -, -, hs, hv⟩ := hattacker
    exact hs (Json.str.inj hv).symm
  | reversed _ hattacker _ =>
    obtain ⟨_, s, -, -, hs, hv⟩ := hattacker
    exact hs (Json.str.inj hv).symm

/-! ### The direction of the packet -/

/-- The member that holds the other endpoint. -/
def otherEndpoint (key : String) : String :=
  if key = "src_ip" then "dest_ip" else if key = "dest_ip" then "src_ip" else key

/-- The alert with source and destination exchanged. -/
def swapEndpoints : Json → Json
  | .obj members => .obj (members.map fun m => (otherEndpoint m.1, m.2))
  | alertRaw => alertRaw

/-- What is read of such an alert. -/
def RoleFields.swap (f : RoleFields) : RoleFields := { f with srcIp := f.destIp, destIp := f.srcIp }

theorem otherEndpoint_otherEndpoint (key : String) : otherEndpoint (otherEndpoint key) = key := by
  unfold otherEndpoint
  split_ifs <;> simp_all

theorem lookup_swap (members : List (String × Json)) (key : String) :
    Json.lookup (members.map fun m => (otherEndpoint m.1, m.2)) key =
      Json.lookup members (otherEndpoint key) := by
  have hkey : ∀ m : String × Json, otherEndpoint m.1 = key ↔ m.1 = otherEndpoint key := by
    intro m
    constructor
    · rintro rfl
      rw [otherEndpoint_otherEndpoint]
    · intro h
      rw [h, otherEndpoint_otherEndpoint]
  unfold Json.lookup
  rw [List.find?_map, Option.map_map]
  simp only [Function.comp_def, hkey]

/-- The fields of the swapped alert are the swapped fields. -/
theorem readFields_swap (hf : readFields alertRaw = .ok f) :
    readFields (swapEndpoints alertRaw) = .ok f.swap := by
  obtain ⟨members, rfl, -, -⟩ := readFields_endpoints hf
  have halert : Json.member (members.map fun m => (otherEndpoint m.1, m.2)) "alert" =
      Json.member members "alert" := by
    unfold Json.member
    rw [lookup_swap]
    rfl
  rw [readFields_obj] at hf
  obtain ⟨a, ha, rfl⟩ := Except.map_eq_ok.mp hf
  rw [swapEndpoints, readFields_obj, halert, ha, lookup_swap, lookup_swap]
  rfl

/-- The metadata decides for an alert that has no other target, and names its endpoints. -/
theorem assignFields_of_hint (str : Json → String) (f : RoleFields) {p : Pattern × Confidence}
    {hint : Hint} (htarget : ¬ Targeted f)
    (hp : detectPattern lower f.category = .ok p)
    (hhint : classifyAttackTarget lower f.attackTargetList = .ok (some hint))
    (hone : isInternal config f.srcIp ≠ isInternal config f.destIp) :
    ∃ r, assignFields lower str config f = .ok r ∧
      (r.attackerIp, r.victimIp) =
        if hint = .serverIsVictim ∨ isInternal config f.destIp then (f.srcIp, f.destIp)
        else (f.destIp, f.srcIp) := by
  unfold assignFields
  simp only [byTargetField_eq_none.mpr htarget, hp, hhint]
  cases hint <;> cases hs : isInternal config f.srcIp <;> cases hd : isInternal config f.destIp <;>
    simp_all [byAttackTarget]
  all_goals exact ⟨_, rfl, rfl, rfl⟩

/-- The roles of an alert with one endpoint in `HOME_NET`, named by the metadata, are the same in
both directions exactly when the metadata names the client. -/
theorem swap_invariant_iff {hint : Hint} (hf : readFields alertRaw = .ok f) (htarget : ¬ Targeted f)
    (hhint : classifyAttackTarget lower f.attackTargetList = .ok (some hint))
    (hone : isInternal config f.srcIp ≠ isInternal config f.destIp)
    (hr : assignRoles lower str alertRaw config = .ok r) :
    (∃ r', assignRoles lower str (swapEndpoints alertRaw) config = .ok r' ∧
      r'.attackerIp = r.attackerIp ∧ r'.victimIp = r.victimIp) ↔ hint = .clientIsVictim := by
  have hr' : assignFields lower str config f = .ok r := by
    rwa [assignRoles, hf] at hr
  obtain ⟨⟨p, hp⟩, -⟩ := (assignFields_returns_iff.mp ⟨r, hr'⟩).resolve_left htarget
  obtain ⟨_, hr₁, hroles⟩ := assignFields_of_hint str f htarget hp hhint hone
  obtain rfl := Except.ok.inj (hr'.symm.trans hr₁)
  obtain ⟨s, hs, hswapped⟩ := assignFields_of_hint str f.swap htarget hp hhint hone.symm
  have hswap : assignRoles lower str (swapEndpoints alertRaw) config = .ok s := by
    rw [assignRoles, readFields_swap hf]
    exact hs
  have hsame : (s.attackerIp = r.attackerIp ∧ s.victimIp = r.victimIp) ↔
      (s.attackerIp, s.victimIp) = (r.attackerIp, r.victimIp) := Prod.mk_inj.symm
  simp only [hswap, Except.ok.injEq, exists_eq_left', hsame, hroles, hswapped]
  have hne : f.srcIp ≠ f.destIp := fun h => hone (by rw [h])
  cases hint with
  | clientIsVictim =>
    cases hs : isInternal config f.srcIp <;> cases hd : isInternal config f.destIp <;>
      simp_all [RoleFields.swap]
  | serverIsVictim => simp [RoleFields.swap, hne, hne.symm]

/-- A packet from outside `HOME_NET` to a host inside, under a rule that names its target. -/
def inboundAlert (target : String) : Json :=
  .obj [("src_ip", .str "203.0.113.5"), ("dest_ip", .str "10.0.0.5"),
    ("alert", .obj [("metadata", .obj [("attack_target", .arr [.str target])])])]

/-- `HOME_NET: [10.0.0.0/8]` -/
def tenConfig : SuricataConfig where
  homeNet := [.v4 (Ipaddress.subnet4 10 0 0 0 8)]
  serverGroups := []
  homeNetApart := SuricataConfig.homeNetApart_nil

/-- What is read of such an alert. -/
def inboundFields (target : String) : RoleFields :=
  ⟨.str "203.0.113.5", .str "10.0.0.5", .str "", .null, [.str target]⟩

theorem inboundFields_one_internal (target : String) :
    isInternal tenConfig (inboundFields target).srcIp ≠
      isInternal tenConfig (inboundFields target).destIp := by
  show isInternal tenConfig (.str "203.0.113.5") ≠ isInternal tenConfig (.str "10.0.0.5")
  decide +kernel

/-- The client of the packet is the victim in both directions. -/
theorem swap_invariant_sample :
    ∃ r r', assignRoles PyStr.lowerAscii Json.plainStr (inboundAlert "client") tenConfig = .ok r ∧
      assignRoles PyStr.lowerAscii Json.plainStr (swapEndpoints (inboundAlert "client")) tenConfig =
        .ok r' ∧ r'.attackerIp = r.attackerIp ∧ r'.victimIp = r.victimIp := by
  have hr : ∃ r, assignRoles PyStr.lowerAscii Json.plainStr (inboundAlert "client") tenConfig = .ok r :=
    ⟨_, rfl⟩
  obtain ⟨r, hr⟩ := hr
  have htarget : ¬ Targeted (inboundFields "client") := by
    rintro (h | h) <;> cases h
  have hf : readFields (inboundAlert "client") = .ok (inboundFields "client") := rfl
  have hhint : classifyAttackTarget PyStr.lowerAscii (inboundFields "client").attackTargetList =
      .ok (some .clientIsVictim) := rfl
  obtain ⟨r', hr', hsame⟩ := (swap_invariant_iff hf htarget hhint
    (inboundFields_one_internal "client") hr).mpr rfl
  exact ⟨r, r', hr, hr', hsame⟩

/-- The server of the metadata is the destination of the packet, whichever endpoint that is. -/
theorem server_swapped :
    ∃ f r r', readFields (inboundAlert "server") = .ok f ∧ f.targetField = .null ∧
      classifyAttackTarget PyStr.lowerAscii f.attackTargetList = .ok (some .serverIsVictim) ∧
      isInternal tenConfig f.srcIp ≠ isInternal tenConfig f.destIp ∧
      assignRoles PyStr.lowerAscii Json.plainStr (inboundAlert "server") tenConfig = .ok r ∧
      assignRoles PyStr.lowerAscii Json.plainStr (swapEndpoints (inboundAlert "server")) tenConfig =
        .ok r' ∧ r.victimIp = .str "10.0.0.5" ∧ r'.victimIp = .str "203.0.113.5" :=
  ⟨inboundFields "server", _, _, rfl, rfl, rfl, inboundFields_one_internal "server", rfl, rfl, rfl, rfl⟩

end Verdix.RoleAssignment
