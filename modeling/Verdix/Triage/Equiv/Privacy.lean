import Verdix.Triage.Equiv.Collect
import Verdix.Triage.Equiv.DnsAnswers

/-!
# What leaves the host

Internal values are not meant to reach VirusTotal or RDAP.  `sent_external_iff` says when they do
not.  Internal addresses, names under an internal suffix and names with a `HOME_NET` answer never
do.  The name of an http or tls server in `HOME_NET` does when another event of the flow puts it forward:
the server is looked at for one event at a time.
-/

namespace Verdix.Indicators

open Ipaddress

/-! ### Internal values -/

/-- An address in one of the classes that are kept in. -/
def InternalAddress (config : Option SuricataConfig) (addr : Address) : Prop :=
  addr.isPrivate ∨ addr.isLoopback ∨ addr.isLinkLocal ∨ addr.isReserved ∨ addr.isMulticast ∨
    cgnatNet.Covers addr ∨ ∃ c, config = some c ∧ ∃ net ∈ c.homeNet, net.Covers addr

variable (lower : String → String)

/-- Two spellings of one name. -/
def SameName (a b : String) : Prop := normalise lower a = normalise lower b

/-- The name is at or under the suffix. -/
def UnderInternalSuffix (name : String) : Prop :=
  ∃ suffix ∈ internalDomainSuffixes, (normalise lower name).toList = suffix.toList.tail ∨
    suffix.toList <:+ (normalise lower name).toList

/-- The name has a `HOME_NET` answer in the flow. -/
def HomeAnswer (config : Option SuricataConfig) (events : List Json) (name : String) : Prop :=
  ∃ c, config = some c ∧ ∃ event ∈ events, ∃ owner rdata, Answers event owner rdata ∧
    SameName lower owner name ∧ c.InHomeNet (.str rdata)

/-- An http event with the host name `host`, or a tls event with that server name, and its
server. -/
def Serves (event : Json) (host : String) (server : Json) : Prop :=
  ∃ members app etype field, event = .obj members ∧
    (etype, field) ∈ [("http", "hostname"), ("tls", "sni")] ∧
    Json.member members "event_type" = .str etype ∧ Json.member members etype = .obj app ∧
    Json.member app field = .str host ∧ host ≠ "" ∧ serverIp event = .ok server

/-- The name is that of an http or tls server in `HOME_NET`, somewhere in the flow. -/
def HomeHost (config : Option SuricataConfig) (events : List Json) (name : String) : Prop :=
  ∃ c, config = some c ∧ ∃ event ∈ events, ∃ host server, Serves event host server ∧
    SameName lower host name ∧ c.InHomeNet server

/-- A value that is to stay inside: an internal address, or an internal name. -/
inductive Internal (config : Option SuricataConfig) (events : List Json) : Json → Prop
  | address {value : Json} {addr : Address} :
      ipAddress value = some addr → InternalAddress config addr → Internal config events value
  | suffix {name : String} :
      ipAddress (.str name) = none → UnderInternalSuffix lower name →
      Internal config events (.str name)
  | answer {name : String} :
      ipAddress (.str name) = none → HomeAnswer lower config events name →
      Internal config events (.str name)
  | host {name : String} :
      ipAddress (.str name) = none → HomeHost lower config events name →
      Internal config events (.str name)

/-! ### The values that are sent -/

/-- The calls that leave the host; `geoip` reads a local file. -/
def sent (configured : Source → Bool) (rawEve : Json) (events : List Json)
    (config : Option SuricataConfig) : List Call :=
  match enrichmentCalls lower configured rawEve events config with
  | .ok calls => calls.filter fun call => call.source ≠ .geoip
  | .error _ => []

/-- Collecting the indicators raises before anything is sent: the alert is no dict, a dns event
cannot be read, or an event that the loop comes to. -/
def Unreadable (rawEve : Json) (events : List Json) (config : Option SuricataConfig) : Prop :=
  (∀ members, rawEve ≠ .obj members) ∨ (∃ e, homeNetNames lower config events = .error e) ∨
    ∃ names before event after e, homeNetNames lower config events = .ok names ∧
      events = before ++ event :: after ∧ Reached lower config names before ∧
      carriedName event = .error e

/-- An event that the loop comes to puts forward the name of a server in `HOME_NET`. -/
def CarriesHomeHost (events : List Json) (config : Option SuricataConfig) : Prop :=
  ∃ names before event after name, homeNetNames lower config events = .ok names ∧
    events = before ++ event :: after ∧ Reached lower config names before ∧
    offered lower config names event = some name ∧ HomeHost lower config events name

variable {lower} {configured : Source → Bool} {rawEve : Json} {events : List Json}
  {config : Option SuricataConfig}

/-! ### Addresses -/

/-- What `_is_public_ip` passes is no internal address. -/
theorem not_internalAddress_of_isPublicIp {ip : Json} {addr : Address}
    (h : isPublicIp ip config) (hip : ipAddress ip = some addr) : ¬InternalAddress config addr := by
  simp only [isPublicIp, hip] at h
  split at h
  · cases h
  · rename_i hclasses
    split at h
    · cases h
    · rename_i hcgnat
      simp only [Bool.or_eq_true, not_or] at hclasses
      obtain ⟨⟨⟨⟨hprivate, hloopback⟩, hlink⟩, hreserved⟩, hmulticast⟩ := hclasses
      rintro (h' | h' | h' | h' | h' | h' | ⟨c, rfl, hnet⟩)
      · exact hprivate h'
      · exact hloopback h'
      · exact hlink h'
      · exact hreserved h'
      · exact hmulticast h'
      · exact hcgnat (Network.contains_iff.mpr h')
      · -- in `HOME_NET`, by the membership that the code asks for
        have hhome : "HOME_NET" ∈ c.membershipForIp ip :=
          SuricataConfig.homeNet_mem_membershipForIp.mpr ⟨addr, hip, hnet⟩
        simp [inHomeNet, hhome] at h

/-! ### Names -/

/-- The test on the suffixes finds the names at or under one of them. -/
theorem isInternalDomainName_iff {name : String} :
    isInternalDomainName lower name ↔ UnderInternalSuffix lower name := by
  simp only [isInternalDomainName, List.any_eq_true, UnderInternalSuffix, Bool.or_eq_true,
    decide_eq_true_eq, PyStr.endswith, List.isSuffixOf_iff_suffix, List.drop_one]
  refine exists_congr fun suffix => and_congr_right fun _ => or_congr_left ?_
  constructor
  · intro h
    rw [h, String.toList_ofList]
  · intro h
    rw [← h, String.ofList_toList]

/-- A name that is put forward is no address, and internal only as the name of a server. -/
theorem not_internal_of_passes {names : List String} {name : String} {serverIp : Json}
    (hnames : homeNetNames lower config events = .ok names)
    (h : passes lower config names name serverIp) (hhost : ¬HomeHost lower config events name) :
    ¬Internal lower config events (.str name) := by
  simp only [passes, isSkipped, Bool.and_eq_true, Bool.not_eq_true', Bool.or_eq_false_iff,
    decide_eq_false_iff_not, Option.isNone_iff_eq_none] at h
  obtain ⟨⟨-, hip⟩, ⟨hsuffix, hanswer⟩, -⟩ := h
  rintro (⟨hip', -⟩ | ⟨-, hunder⟩ | ⟨-, c, rfl, event, hevent, owner, rdata, ha, hsame, hhome⟩ |
    ⟨-, hhost'⟩)
  · rw [hip] at hip'
    cases hip'
  · rw [isInternalDomainName_iff.mpr hunder] at hsuffix
    cases hsuffix
  · apply hanswer
    rw [← hsame]
    exact mem_homeNetNames hnames hevent ha hhome
  · exact hhost hhost'

/-- A name that is offered is no IP address. -/
theorem ipAddress_eq_none_of_offered {names : List String} {event : Json} {name : String}
    (h : offered lower config names event = some name) : ipAddress (.str name) = none := by
  obtain ⟨serverIp, -, hpasses⟩ := offered_eq_some.mp h
  simp only [passes, Bool.and_eq_true, Option.isNone_iff_eq_none] at hpasses
  exact hpasses.1.2

/-! ### The calls -/

/-- A value that some of the calls hand out of the host. -/
def Outgoing (calls : List Call) (value : Json) : Prop :=
  ∃ call ∈ calls, call.source ≠ .geoip ∧ call.indicator.value = value

theorem outgoing_lookup {indicator : Indicator} {source : Source} {value : Json} :
    Outgoing (lookup configured indicator source) value ↔
      configured source ∧ source ≠ .geoip ∧ indicator.value = value := by
  unfold Outgoing lookup
  split <;> simp_all

theorem outgoing_append {calls calls' : List Call} {value : Json} :
    Outgoing (calls ++ calls') value ↔ Outgoing calls value ∨ Outgoing calls' value := by
  simp only [Outgoing, List.mem_append, or_and_right, exists_or]

/-- An IP address goes out to VirusTotal, if that is configured and the address is public. -/
theorem outgoing_ip {ip value : Json} :
    Outgoing (enrichOne configured config ⟨.ip, ip⟩) value ↔
      configured .virustotal ∧ isPublicIp ip config ∧ ip = value := by
  simp only [enrichOne, outgoing_append, outgoing_lookup]
  split
  · rename_i hpublic
    simp [outgoing_lookup, hpublic]
  · rename_i hpublic
    simp [Outgoing, hpublic]

/-- A domain goes out to whatever is configured. -/
theorem outgoing_domain {domain value : Json} :
    Outgoing (enrichOne configured config ⟨.domain, domain⟩) value ↔
      (configured .virustotal ∨ configured .rdap) ∧ domain = value := by
  simp only [enrichOne, outgoing_append, outgoing_lookup, ne_eq, reduceCtorEq, not_false_eq_true,
    true_and, ← or_and_right]

/-- What leaves the host: public addresses to VirusTotal, names to both services. -/
theorem outgoing_enrichAll {found : Found} {value : Json} :
    Outgoing (enrichAll configured config
      (found.ips.map (⟨.ip, ·⟩) ++ found.domains.map fun d => ⟨.domain, .str d⟩)) value ↔
    (∃ ip ∈ found.ips, configured .virustotal ∧ isPublicIp ip config ∧ ip = value) ∨
      ∃ name ∈ found.domains, (configured .virustotal ∨ configured .rdap) ∧ .str name = value := by
  have hflat : ∀ indicators : List Indicator,
      Outgoing (enrichAll configured config indicators) value ↔
        ∃ indicator ∈ indicators, Outgoing (enrichOne configured config indicator) value := by
    intro indicators
    simp only [Outgoing, enrichAll, List.mem_flatMap]
    grind
  rw [hflat]
  simp only [List.mem_append, List.mem_map, or_and_right, exists_or, exists_exists_and_eq_and,
    outgoing_ip, outgoing_domain]

/-! ### The extraction -/

theorem endpoints_eq_error_iff :
    (∃ e, endpoints rawEve = .error e) ↔ ∀ members, rawEve ≠ .obj members := by
  constructor
  · rintro ⟨e, h⟩ members rfl
    simp only [endpoints, List.foldlM_cons, Json.get_obj_bind] at h
    cases h
  · intro h
    cases rawEve with
    | obj members => exact absurd rfl (h members)
    | _ => exact ⟨.attributeError, rfl⟩

theorem extractIndicators_eq_ok_iff {indicators : List Indicator} :
    extractIndicators lower rawEve events config = .ok indicators ↔
      ∃ names ips found, homeNetNames lower config events = .ok names ∧ endpoints rawEve = .ok ips ∧
        collect lower config names events ⟨ips, []⟩ = .ok found ∧
        found.ips.map (⟨.ip, ·⟩) ++ found.domains.map (fun d => ⟨.domain, .str d⟩) = indicators := by
  simp only [extractIndicators, Except.bind_eq_ok, pure, Except.pure, Except.ok.injEq]
  constructor
  · rintro ⟨names, hnames, ips, hips, found, hfound, h⟩
    exact ⟨names, ips, found, hnames, hips, hfound, h⟩
  · rintro ⟨names, ips, found, hnames, hips, hfound, h⟩
    exact ⟨names, hnames, ips, hips, found, hfound, h⟩

/-- The extraction raises iff the alert or one of the events cannot be read. -/
theorem unreadable_iff :
    Unreadable lower rawEve events config ↔
      ∃ e, extractIndicators lower rawEve events config = .error e := by
  rw [Unreadable, ← endpoints_eq_error_iff]
  simp only [extractIndicators, Except.bind_eq_error]
  constructor
  · rintro (⟨e, h⟩ | ⟨e, h⟩ | ⟨names, before, event, after, e, hnames, hevents, hbefore, hevent⟩)
    · cases hnames : homeNetNames lower config events with
      | error e' => exact ⟨e', .inl rfl⟩
      | ok names => exact ⟨e, .inr ⟨names, rfl, .inl h⟩⟩
    · exact ⟨e, .inl h⟩
    · cases hips : endpoints rawEve with
      | error e' => exact ⟨e', .inr ⟨names, hnames, .inl rfl⟩⟩
      | ok ips =>
        obtain ⟨e', he'⟩ :=
          collect_eq_error_iff.mpr ⟨before, event, after, e, hevents, hbefore, hevent⟩
        exact ⟨e', .inr ⟨names, hnames, .inr ⟨ips, rfl, .inl he'⟩⟩⟩
  · rintro ⟨e, h | ⟨names, hnames, h | ⟨ips, -, h | ⟨found, -, h⟩⟩⟩⟩
    · exact .inr (.inl ⟨e, h⟩)
    · exact .inl ⟨e, h⟩
    · obtain ⟨before, event, after, e', hevents, hbefore, hevent⟩ :=
        collect_eq_error_iff.mp ⟨e, h⟩
      exact .inr (.inr ⟨names, before, event, after, e', hnames, hevents, hbefore, hevent⟩)
    · cases h

/-- What goes out are the values of the indicators that were extracted. -/
theorem outgoing_sent {value : Json} :
    (∃ call ∈ sent lower configured rawEve events config, call.indicator.value = value) ↔
      ∃ indicators, extractIndicators lower rawEve events config = .ok indicators ∧
        Outgoing (enrichAll configured config indicators) value := by
  unfold sent enrichmentCalls
  cases extractIndicators lower rawEve events config with
  | error e => simp [Except.map]
  | ok indicators =>
    simp only [Except.map, List.mem_filter, decide_eq_true_eq, Outgoing, and_assoc,
      Except.ok.injEq, exists_eq_left']

/-! ### The guarantee -/

/-- No internal value is sent, exactly if there is no client to send it, or nothing is sent for want
of readable events, or no event that the loop comes to carries the name of a `HOME_NET` server. -/
theorem sent_external_iff (lower : String → String) (configured : Source → Bool) (rawEve : Json)
    (events : List Json) (config : Option SuricataConfig) :
    (∀ call ∈ sent lower configured rawEve events config,
      ¬Internal lower config events call.indicator.value) ↔
    (configured .virustotal = false ∧ configured .rdap = false) ∨
      Unreadable lower rawEve events config ∨ ¬CarriesHomeHost lower events config := by
  constructor
  · intro h
    by_contra hnot
    push Not at hnot
    obtain ⟨hclient, hreadable, names, before, event, after, name, hnames, hevents, hbefore,
      hoffered, hhost⟩ := hnot
    cases hextract : extractIndicators lower rawEve events config with
    | error e => exact hreadable (unreadable_iff.mpr ⟨e, hextract⟩)
    | ok indicators =>
      obtain ⟨names', ips, found, hnames', -, hfound, rfl⟩ :=
        extractIndicators_eq_ok_iff.mp hextract
      obtain rfl := Except.ok.inj (hnames.symm.trans hnames')
      -- the name is collected, and one of the clients gets it
      have hmem : name ∈ found.domains :=
        (mem_collect_iff hfound).mpr ⟨before, event, after, hevents, hbefore, hoffered⟩
      have hclient' : configured .virustotal ∨ configured .rdap := by
        by_cases hvt : configured .virustotal
        · exact .inl hvt
        · exact .inr (by simpa using hclient (by simpa using hvt))
      obtain ⟨call, hcall, hvalue⟩ := outgoing_sent.mpr
        ⟨_, hextract, outgoing_enrichAll.mpr (.inr ⟨name, hmem, hclient', rfl⟩)⟩
      apply h call hcall
      rw [hvalue]
      exact .host (ipAddress_eq_none_of_offered hoffered) hhost
  · intro h call hcall hinternal
    obtain ⟨indicators, hextract, hout⟩ := outgoing_sent.mp ⟨call, hcall, rfl⟩
    obtain ⟨names, ips, found, hnames, -, hfound, rfl⟩ := extractIndicators_eq_ok_iff.mp hextract
    rcases outgoing_enrichAll.mp hout with ⟨ip, -, -, hpublic, hip⟩ | ⟨name, hname, hclient, hvalue⟩
    · rw [← hip] at hinternal
      cases hinternal with
      | address haddr hin => exact not_internalAddress_of_isPublicIp hpublic haddr hin
      | suffix hnone _ | answer hnone _ | host hnone _ => simp [isPublicIp, hnone] at hpublic
    · obtain ⟨before, event, after, hevents, hbefore, hoffered⟩ := (mem_collect_iff hfound).mp hname
      obtain ⟨server, -, hpasses⟩ := offered_eq_some.mp hoffered
      rcases h with ⟨hvt, hrdap⟩ | hunreadable | hcarries
      · simp [hvt, hrdap] at hclient
      · obtain ⟨e, he⟩ := unreadable_iff.mp hunreadable
        rw [hextract] at he
        cases he
      · have hhost : ¬HomeHost lower config events name := fun hhost => hcarries
          ⟨names, before, event, after, name, hnames, hevents, hbefore, hoffered, hhost⟩
        rw [← hvalue] at hinternal
        exact not_internal_of_passes hnames hpasses hhost hinternal

/-! ### A name that gets out -/

/-- `HOME_NET: [10.0.0.0/8]` -/
def homeConfig : SuricataConfig where
  homeNet := [.v4 (subnet4 10 0 0 0 8)]
  serverGroups := []
  homeNetApart := SuricataConfig.homeNetApart_nil

/-- A host asks for a name and calls the server of that name, which is in `HOME_NET`. -/
def portalEvents : List Json :=
  [.obj [("event_type", .str "dns"), ("dns", .obj [("rrname", .str "portal.example.com")])],
    .obj [("event_type", .str "http"), ("src_ip", .str "10.0.0.9"), ("dest_ip", .str "10.0.0.5"),
      ("http", .obj [("hostname", .str "portal.example.com")])]]

def portalAlert : Json := .obj [("src_ip", .str "10.0.0.9"), ("dest_ip", .str "10.0.0.5")]

/-- `str.lower` on ASCII. -/
def asciiLower (s : String) : String := String.ofList (s.toList.map Char.toLower)

/-- The name of a server in HOME_NET goes out when an event of the flow has it in another place. -/
theorem portal_sent :
    ∃ call ∈ sent asciiLower (fun _ => true) portalAlert portalEvents (some homeConfig),
      Internal asciiLower (some homeConfig) portalEvents call.indicator.value := by
  refine ⟨⟨.virustotal, .domain, .str "portal.example.com"⟩, ?_, ?_⟩
  · have hsent : sent asciiLower (fun _ => true) portalAlert portalEvents (some homeConfig) =
        [⟨.virustotal, .domain, .str "portal.example.com"⟩,
          ⟨.rdap, .domain, .str "portal.example.com"⟩] := by rfl
    rw [hsent]
    exact List.mem_cons_self
  · refine .host (by decide +kernel) ⟨homeConfig, rfl, _, List.mem_cons_of_mem _ List.mem_cons_self,
      "portal.example.com", .str "10.0.0.5", ⟨_, _, "http", "hostname", rfl, by simp, rfl, rfl, rfl,
      by decide, rfl⟩, rfl, ?_⟩
    exact SuricataConfig.homeNet_mem_membershipForIp.mp (by decide +kernel)

end Verdix.Indicators
