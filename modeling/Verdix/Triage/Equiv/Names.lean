import Mathlib.Data.List.Pairwise
import Verdix.Lib.Firsts
import Verdix.Triage.Equiv.Privacy

/-!
# Which names become indicators

`mem_domains_iff`: the domain indicators are the names put forward by the events that the loop comes
to.  They are compared letter by letter, while the tests for internal names ignore case and trailing
dots, and the answers are looked at one event at a time:

* `cname_hidden_iff`: a chain of `CNAME` answers into `HOME_NET` is followed within one event only.
* `first_names_iff`: another spelling of a name takes a slot of its own.
* `no_reverse_name_iff`: a name under `.arpa` in another spelling is taken.
-/

namespace Verdix.Indicators

open Ipaddress Firsts

variable (lower : String → String) {configured : Source → Bool} {rawEve : Json}
  {events : List Json} {config : Option SuricataConfig} {indicators : List Indicator}
  {names : List String} {name : String}

/-- The domain indicators. -/
def domains (indicators : List Indicator) : List Json :=
  (indicators.filter fun i => i.type = .domain).map Indicator.value

/-- An event that the loop comes to puts the name forward. -/
def Carries (config : Option SuricataConfig) (events : List Json) (name : String) : Prop :=
  ∃ names before event after, homeNetNames lower config events = .ok names ∧
    events = before ++ event :: after ∧ Reached lower config names before ∧
    offered lower config names event = some name

variable {lower}

theorem domains_found (found : Found) :
    domains (found.ips.map (⟨.ip, ·⟩) ++ found.domains.map fun d => ⟨.domain, .str d⟩) =
      found.domains.map .str := by
  simp [domains, List.filter_append, List.filter_map, Function.comp_def]

/-- The domain indicators are the names put forward by the events that the loop comes to. -/
theorem mem_domains_iff (h : extractIndicators lower rawEve events config = .ok indicators) :
    .str name ∈ domains indicators ↔ Carries lower config events name := by
  obtain ⟨names, ips, found, hnames, -, hfound, rfl⟩ := extractIndicators_eq_ok_iff.mp h
  have hmem : Json.str name ∈ found.domains.map .str ↔ name ∈ found.domains := by simp
  rw [domains_found, hmem, mem_collect_iff hfound]
  constructor
  · rintro ⟨before, event, after, hcarried⟩
    exact ⟨names, before, event, after, hnames, hcarried⟩
  · rintro ⟨names', before, event, after, hnames', hcarried⟩
    obtain rfl := Except.ok.inj (hnames.symm.trans hnames')
    exact ⟨before, event, after, hcarried⟩

/-- A property keeps names from becoming indicators exactly if nothing can be read, or no event that
the loop comes to puts such a name forward. -/
theorem forall_domains_iff {P : String → Prop} :
    (∀ indicators, extractIndicators lower rawEve events config = .ok indicators →
      ∀ name, .str name ∈ domains indicators → ¬P name) ↔
    Unreadable lower rawEve events config ∨ ¬∃ name, Carries lower config events name ∧ P name := by
  constructor
  · intro h
    by_contra hnot
    push Not at hnot
    obtain ⟨hreadable, name, hcarries, hname⟩ := hnot
    cases hextract : extractIndicators lower rawEve events config with
    | error e => exact hreadable (unreadable_iff.mpr ⟨e, hextract⟩)
    | ok indicators => exact h indicators hextract name ((mem_domains_iff hextract).mpr hcarries) hname
  · rintro (hunreadable | hnone) indicators hextract name hname
    · obtain ⟨e, he⟩ := unreadable_iff.mp hunreadable
      rw [hextract] at he
      cases he
    · exact fun hP => hnone ⟨name, (mem_domains_iff hextract).mp hname, hP⟩

/-! ### Chains of names -/

/-- The `CNAME` answers in a dns event: the owner and the name it stands for. -/
inductive CnameOf (dns : List (String × Json)) : String → String → Prop
  | flat {owner target : String} :
      Json.member dns "rrname" = .str owner → Json.member dns "rrtype" = .str "CNAME" →
      Json.member dns "rdata" = .str target → CnameOf dns owner target
  | record {answers : List Json} {record : List (String × Json)} {owner target : String} :
      Json.member dns "answers" = .arr answers → .obj record ∈ answers →
      Json.member record "rrname" = .str owner → Json.member record "rrtype" = .str "CNAME" →
      Json.member record "rdata" = .str target → CnameOf dns owner target
  | grouped {grouped : List (String × Json)} {targets : List Json} {owner target : String} :
      QueryName dns owner → Json.member dns "grouped" = .obj grouped →
      Json.member grouped "CNAME" = .arr targets → .str target ∈ targets → CnameOf dns owner target

/-- An event of the flow answers that `name` stands for `target`. -/
def Alias (lower : String → String) (events : List Json) (name target : String) : Prop :=
  ∃ event ∈ events, ∃ members dns owner, event = .obj members ∧
    Json.member members "event_type" = .str "dns" ∧ Json.member members "dns" = .obj dns ∧
    CnameOf dns owner target ∧ SameName lower owner name

/-- The answers of the flow lead from the name to one that has an answer in `HOME_NET`. -/
def LeadsHome (lower : String → String) (config : Option SuricataConfig) (events : List Json)
    (name : String) : Prop :=
  ∃ target, Relation.ReflTransGen (Alias lower events) name target ∧
    HomeAnswer lower config events target

/-- The code looks at the answers of the name itself. -/
theorem Carries.not_homeAnswer (h : Carries lower config events name) :
    ¬HomeAnswer lower config events name := by
  rintro ⟨c, rfl, event, hevent, owner, rdata, ha, hsame, hhome⟩
  obtain ⟨names, _, _, _, hnames, -, -, hoffered⟩ := h
  obtain ⟨serverIp, -, hpasses⟩ := offered_eq_some.mp hoffered
  simp only [passes, isSkipped, Bool.and_eq_true, Bool.not_eq_true', Bool.or_eq_false_iff,
    decide_eq_false_iff_not] at hpasses
  apply hpasses.2.1.2
  rw [← hsame]
  exact mem_homeNetNames hnames hevent ha hhome

/-- No chain of answers into `HOME_NET` hides behind a domain indicator, exactly if no event that the
loop comes to puts forward a name that is an alias, by one answer or more, for one with an answer in
`HOME_NET`. -/
theorem cname_hidden_iff (lower : String → String) (rawEve : Json) (events : List Json)
    (config : Option SuricataConfig) :
    (∀ indicators, extractIndicators lower rawEve events config = .ok indicators →
      ∀ name, .str name ∈ domains indicators → ¬LeadsHome lower config events name) ↔
    Unreadable lower rawEve events config ∨
      ¬∃ name target, Carries lower config events name ∧
        Relation.TransGen (Alias lower events) name target ∧
        HomeAnswer lower config events target := by
  rw [forall_domains_iff]
  refine or_congr_right (not_congr (exists_congr fun name => ?_))
  constructor
  · rintro ⟨hcarries, target, hchain, hhome⟩
    rcases Relation.reflTransGen_iff_eq_or_transGen.mp hchain with rfl | hchain
    · exact absurd hhome hcarries.not_homeAnswer
    · exact ⟨target, hcarries, hchain, hhome⟩
  · rintro ⟨target, hcarries, hchain, hhome⟩
    exact ⟨hcarries, target, hchain.to_reflTransGen, hhome⟩

/-- One event for each record: `www` is an alias for `srv`, and `srv` is in `HOME_NET`. -/
def aliasEvents : List Json :=
  [.obj [("event_type", .str "dns"), ("dns", .obj [("type", .str "answer"),
      ("rrname", .str "www.example.com"), ("rrtype", .str "CNAME"),
      ("rdata", .str "srv.example.com")])],
    .obj [("event_type", .str "dns"), ("dns", .obj [("type", .str "answer"),
      ("rrname", .str "srv.example.com"), ("rrtype", .str "A"), ("rdata", .str "10.0.0.5")])]]

theorem alias_extracted :
    ∃ indicators, extractIndicators asciiLower portalAlert aliasEvents (some homeConfig) =
        .ok indicators ∧
      .str "www.example.com" ∈ domains indicators ∧
      LeadsHome asciiLower (some homeConfig) aliasEvents "www.example.com" := by
  refine ⟨[⟨.ip, .str "10.0.0.9"⟩, ⟨.ip, .str "10.0.0.5"⟩, ⟨.domain, .str "www.example.com"⟩], rfl,
    by simp [domains], "srv.example.com", .single ?_, ?_⟩
  · exact ⟨_, List.mem_cons_self, _, _, _, rfl, rfl, rfl, .flat rfl rfl rfl, rfl⟩
  · refine ⟨homeConfig, rfl, _, List.mem_cons_of_mem _ List.mem_cons_self, "srv.example.com",
      "10.0.0.5", ⟨_, _, rfl, rfl, rfl, by decide, .flat (.flat rfl) rfl⟩, rfl, ?_⟩
    exact SuricataConfig.homeNet_mem_membershipForIp.mp (by decide +kernel)

/-! ### Reverse lookups -/

/-- A name at or under `arpa`, in any spelling. -/
def ReverseName (lower : String → String) (name : String) : Prop :=
  ipAddress (.str name) = none ∧
    (normalise lower name = "arpa" ∨ ".arpa".toList <:+ (normalise lower name).toList)

/-- The code looks for `.arpa` at the end of the name as it is spelled. -/
theorem Carries.not_arpa (h : Carries lower config events name) : ¬".arpa".toList <:+ name.toList := by
  obtain ⟨names, _, _, _, -, -, -, hoffered⟩ := h
  obtain ⟨serverIp, -, hpasses⟩ := offered_eq_some.mp hoffered
  simp only [passes, Bool.and_eq_true, Bool.not_eq_true'] at hpasses
  have hspelled : PyStr.endswith name ".arpa" = false := hpasses.1.1
  intro hsuffix
  rw [PyStr.endswith, List.isSuffixOf_iff_suffix.mpr hsuffix] at hspelled
  cases hspelled

/-- A name that is sent is a domain indicator, or an address. -/
theorem sent_name {call : Call} (hcall : call ∈ sent lower configured rawEve events config)
    (hvalue : call.indicator.value = .str name) (hip : ipAddress (.str name) = none) :
    ∃ indicators, extractIndicators lower rawEve events config = .ok indicators ∧
      .str name ∈ domains indicators := by
  obtain ⟨indicators, hextract, hout⟩ := outgoing_sent.mp ⟨call, hcall, hvalue⟩
  obtain ⟨names, ips, found, hnames, -, hfound, rfl⟩ := extractIndicators_eq_ok_iff.mp hextract
  refine ⟨_, hextract, ?_⟩
  rw [domains_found]
  rcases outgoing_enrichAll.mp hout with ⟨ip, -, -, hpublic, rfl⟩ | ⟨domain, hdomain, -, hvalue⟩
  · simp [isPublicIp, hip] at hpublic
  · exact List.mem_map.mpr ⟨domain, hdomain, hvalue⟩

/-- No reverse-lookup name becomes a domain indicator or is sent, exactly if no event that the loop
comes to puts one forward that does not end in `.arpa` letter by letter. -/
theorem no_reverse_name_iff (lower : String → String) (configured : Source → Bool) (rawEve : Json)
    (events : List Json) (config : Option SuricataConfig) :
    ((∀ indicators, extractIndicators lower rawEve events config = .ok indicators →
        ∀ name, .str name ∈ domains indicators → ¬ReverseName lower name) ∧
      ∀ call ∈ sent lower configured rawEve events config, ∀ name,
        call.indicator.value = .str name → ¬ReverseName lower name) ↔
    Unreadable lower rawEve events config ∨
      ¬∃ name, Carries lower config events name ∧ ReverseName lower name ∧
        ¬".arpa".toList <:+ name.toList := by
  have hspelled : (∃ name, Carries lower config events name ∧ ReverseName lower name ∧
        ¬".arpa".toList <:+ name.toList) ↔
      ∃ name, Carries lower config events name ∧ ReverseName lower name := by
    refine exists_congr fun name => and_congr_right fun hcarries => ?_
    exact and_iff_left hcarries.not_arpa
  rw [hspelled, ← forall_domains_iff]
  refine ⟨And.left, fun h => ⟨h, fun call hcall name hvalue hreverse => ?_⟩⟩
  obtain ⟨indicators, hextract, hname⟩ := sent_name hcall hvalue hreverse.1
  exact h indicators hextract name hname hreverse

/-- A host asks for the name of an internal address, in capital letters. -/
def reverseEvents : List Json :=
  [.obj [("event_type", .str "dns"), ("dns", .obj [("rrname", .str "9.0.0.10.IN-ADDR.ARPA")])]]

theorem reverse_extracted :
    (∃ indicators, extractIndicators asciiLower portalAlert reverseEvents (some homeConfig) =
        .ok indicators ∧ .str "9.0.0.10.IN-ADDR.ARPA" ∈ domains indicators) ∧
      (∃ call ∈ sent asciiLower (fun _ => true) portalAlert reverseEvents (some homeConfig),
        call.indicator.value = .str "9.0.0.10.IN-ADDR.ARPA") ∧
      ReverseName asciiLower "9.0.0.10.IN-ADDR.ARPA" := by
  refine ⟨⟨[⟨.ip, .str "10.0.0.9"⟩, ⟨.ip, .str "10.0.0.5"⟩,
    ⟨.domain, .str "9.0.0.10.IN-ADDR.ARPA"⟩], rfl, by simp [domains]⟩, ?_, by decide +kernel, ?_⟩
  · have hsent : sent asciiLower (fun _ => true) portalAlert reverseEvents (some homeConfig) =
        [⟨.virustotal, .domain, .str "9.0.0.10.IN-ADDR.ARPA"⟩,
          ⟨.rdap, .domain, .str "9.0.0.10.IN-ADDR.ARPA"⟩] := by rfl
    rw [hsent]
    exact ⟨_, List.mem_cons_self, rfl⟩
  · have hname : normalise asciiLower "9.0.0.10.IN-ADDR.ARPA" = "9.0.0.10.in-addr.arpa" := by
      decide +kernel
    rw [hname]
    exact .inr (by decide +kernel)

/-! ### The three slots -/

/-- The slots after the events `done`: the first of equal names, in a free slot. -/
structure Slots (lower : String → String) (config : Option SuricataConfig) (names : List String)
    (done : List Json) (found : Found) : Prop where
  domains : found.domains = firsts id (done.filterMap (offered lower config names))
  length : found.domains.length ≤ maxDomains

theorem Slots.step {found found' : Found} {done : List Json} {event : Json}
    (h : Slots lower config names done found) (hroom : found.domains.length < maxDomains)
    (hstep : collectOne lower config names found event = .ok found') :
    Slots lower config names (done ++ [event]) found' := by
  obtain ⟨c, hc, hstep⟩ := Except.bind_eq_ok.mp hstep
  cases c with
  | none =>
    obtain rfl := Except.ok.inj hstep
    refine ⟨?_, h.length⟩
    simp [List.filterMap_append, offered, hc, h.domains]
  | some c =>
    obtain ⟨domain, serverIp⟩ := c
    obtain rfl := Except.ok.inj hstep
    -- a name takes a slot if it passes and has none
    have hdomains : (takeName lower config names found domain serverIp).domains =
        if passes lower config names domain serverIp ∧ domain ∉ found.domains then
          found.domains ++ [domain]
        else found.domains := takeName_domains found domain serverIp
    constructor
    · rw [hdomains, List.filterMap_append]
      by_cases hpasses : passes lower config names domain serverIp
      · have hoffered : offered lower config names event = some domain :=
          offered_eq_some.mpr ⟨serverIp, hc, hpasses⟩
        rw [List.filterMap_cons_some hoffered, List.filterMap_nil, firsts_concat, ← h.domains, add,
          List.map_id]
        by_cases hmem : domain ∈ found.domains <;> simp [hpasses, hmem]
      · have hoffered : offered lower config names event = none := by
          simp [offered, hc, hpasses]
        rw [List.filterMap_cons_none hoffered, List.filterMap_nil, List.append_nil, ← h.domains]
        simp [hpasses]
    · rw [hdomains]
      split
      · rw [List.length_append, List.length_singleton]
        exact hroom
      · exact h.length

/-- The loop ends after all events, or with all slots taken. -/
theorem collect_slots {ips : List Json} {found : Found}
    (h : collect lower config names events ⟨ips, []⟩ = .ok found) :
    ∃ done rest, events = done ++ rest ∧ Progress lower config names done found ∧
      Slots lower config names done found ∧ (rest = [] ∨ found.domains.length = maxDomains) := by
  have hnil : Slots lower config names [] ⟨ips, []⟩ := ⟨rfl, Nat.zero_le _⟩
  obtain ⟨done, rest, hevents, hdone, hrest⟩ :=
    Except.foldUntil_eq_ok
      (I := fun done found =>
        Progress lower config names done found ∧ Slots lower config names done found)
      (fun done event s t hs hroom hstep =>
        ⟨hs.1.step (by simpa using hroom) hstep, hs.2.step (by simpa using hroom) hstep⟩)
      ⟨progress_nil ips, hnil⟩ (by simp [maxDomains]) h
  rw [List.nil_append] at hdone
  refine ⟨done, rest, hevents, hdone.1, hdone.2, hrest.imp_right fun hfull => ?_⟩
  exact hdone.2.length.antisymm (by simpa using hfull)

/-- The names that pass the tests, in the order of the events. -/
def passing (lower : String → String) (config : Option SuricataConfig) (events : List Json) :
    List String :=
  match homeNetNames lower config events with
  | .ok names => events.filterMap (offered lower config names)
  | .error _ => []

/-- An event that the loop comes to puts forward another spelling of a name put forward before. -/
def Respelled (lower : String → String) (config : Option SuricataConfig) (events : List Json) : Prop :=
  ∃ names before event after earlier name, homeNetNames lower config events = .ok names ∧
    events = before ++ event :: after ∧ Reached lower config names before ∧
    offered lower config names event = some name ∧
    earlier ∈ before.filterMap (offered lower config names) ∧ earlier ≠ name ∧
    SameName lower earlier name

/-- Without another spelling before it, each name put forward tells its key. -/
theorem Progress.spelled {done rest : List Json} {found : Found}
    (h : Progress lower config names done found)
    (hnames : homeNetNames lower config (done ++ rest) = .ok names)
    (hno : ¬Respelled lower config (done ++ rest)) :
    ∀ a ∈ done.filterMap (offered lower config names),
      ∀ b ∈ done.filterMap (offered lower config names),
        normalise lower a = normalise lower b → a = b := by
  have hsymm : Std.Symm fun a b => normalise lower a = normalise lower b → a = b :=
    ⟨fun a b hab hkey => (hab hkey.symm).symm⟩
  refine List.Pairwise.forall_of_forall (fun _ _ _ => rfl)
    (List.pairwise_filterMap.mpr (List.pairwise_iff_getElem.mpr ?_))
  intro i j hi hj hij a ha b hb hkey
  by_contra hne
  have hsplit : done = done.take j ++ done[j] :: done.drop (j + 1) := by simp
  have hearlier : done[i] ∈ done.take j := List.mem_take_iff_getElem.mpr ⟨i, by omega, rfl⟩
  refine hno ⟨names, done.take j, done[j], done.drop (j + 1) ++ rest, a, b, hnames, ?_,
    h.reached _ _ _ hsplit, hb, List.mem_filterMap.mpr ⟨_, hearlier, ha⟩, hne, hkey⟩
  rw [← List.cons_append, ← List.append_assoc, ← hsplit]

/-- The domain indicators are the first three different names that pass the tests, exactly if nothing
can be read, or no event that the loop comes to has another spelling of a name before it. -/
theorem first_names_iff (lower : String → String) (rawEve : Json) (events : List Json)
    (config : Option SuricataConfig) :
    (∀ indicators, extractIndicators lower rawEve events config = .ok indicators →
      domains indicators =
        ((firsts (normalise lower) (passing lower config events)).take maxDomains).map .str) ↔
    Unreadable lower rawEve events config ∨ ¬Respelled lower config events := by
  constructor
  · intro h
    by_contra hnot
    push Not at hnot
    obtain ⟨hreadable, names, before, event, after, earlier, name, hnames, hevents, hbefore,
      hoffered, hearlier, hne, hsame⟩ := hnot
    cases hextract : extractIndicators lower rawEve events config with
    | error e => exact hreadable (unreadable_iff.mpr ⟨e, hextract⟩)
    | ok indicators =>
      -- both spellings are taken
      have hname : .str name ∈ domains indicators := (mem_domains_iff hextract).mpr
        ⟨names, before, event, after, hnames, hevents, hbefore, hoffered⟩
      have hearlier' : .str earlier ∈ domains indicators := by
        obtain ⟨event', hevent', hoffered'⟩ := List.mem_filterMap.mp hearlier
        obtain ⟨first, second, rfl⟩ := List.append_of_mem hevent'
        exact (mem_domains_iff hextract).mpr ⟨names, first, event', second ++ event :: after, hnames,
          by simpa using hevents, hbefore.of_append, hoffered'⟩
      rw [h indicators hextract] at hname hearlier'
      obtain ⟨_, hmem, heq⟩ := List.mem_map.mp hname
      obtain rfl := Json.str.inj heq
      obtain ⟨_, hmem', heq⟩ := List.mem_map.mp hearlier'
      obtain rfl := Json.str.inj heq
      exact hne (eq_of_mem_firsts _ (List.mem_of_mem_take hmem') (List.mem_of_mem_take hmem) hsame)
  · intro h indicators hextract
    have hno : ¬Respelled lower config events := h.resolve_left fun hunreadable => by
      obtain ⟨e, he⟩ := unreadable_iff.mp hunreadable
      rw [hextract] at he
      cases he
    obtain ⟨names, ips, found, hnames, -, hfound, rfl⟩ := extractIndicators_eq_ok_iff.mp hextract
    obtain ⟨done, rest, rfl, hprogress, hslots, hrest⟩ := collect_slots hfound
    have hkeys : found.domains =
        firsts (normalise lower) (done.filterMap (offered lower config names)) := by
      rw [hslots.domains]
      exact (firsts_eq_of_inj _ (hprogress.spelled hnames hno)).symm
    simp only [domains_found, passing, hnames, List.filterMap_append]
    congr 1
    rcases hrest with rfl | hfull
    · rw [List.filterMap_nil, List.append_nil, ← hkeys, List.take_of_length_le hslots.length]
    · have hprefix := firsts_prefix (normalise lower) (done.filterMap (offered lower config names))
        (rest.filterMap (offered lower config names))
      rw [← hkeys] at hprefix
      rw [← hfull]
      exact List.prefix_iff_eq_take.mp hprefix

/-- One name in three spellings, and another one. -/
def spelledEvents : List Json :=
  ["www.example.com", "WWW.example.com", "www.example.com.", "evil.example.net"].map fun name =>
    .obj [("event_type", .str "dns"), ("dns", .obj [("rrname", .str name)])]

theorem spellings_extracted :
    ∃ indicators, extractIndicators asciiLower portalAlert spelledEvents none = .ok indicators ∧
      domains indicators =
        [.str "www.example.com", .str "WWW.example.com", .str "www.example.com."] ∧
      (firsts (normalise asciiLower) (passing asciiLower none spelledEvents)).take maxDomains =
        ["www.example.com", "evil.example.net"] := by
  refine ⟨_, rfl, rfl, ?_⟩
  decide +kernel

end Verdix.Indicators
