import Verdix.Infra.SuricataConfig
import Verdix.Lib.Except
import Verdix.Lib.JsonValue

/-!
# The indicators of an alert

What the triage worker looks up outside: `_extract_indicators` collects addresses and names from the
alert and the events of its flow, and `_enrich_all` hands them to the enrichment clients.

An event is a parsed JSON value, so a `get` may meet a value that is no dict and a loop one that
cannot be iterated.  `lower` stands for `str.lower` throughout.
-/

namespace Verdix.Indicators

open Ipaddress

variable (lower : String → String)

def maxIps : ℕ := 2

def maxDomains : ℕ := 3

def internalDomainSuffixes : List String :=
  [".local", ".lan", ".internal", ".corp", ".home", ".home.arpa", ".localdomain"]

def cgnatNet : Network := .v4 (subnet4 100 64 0 0 10)

inductive IndicatorType
  | ip
  | domain
  | hash
  | url
  deriving DecidableEq

/-- An `Indicator`; the value of an address is whatever the alert has in the field. -/
structure Indicator where
  type : IndicatorType
  value : Json

/-! ### The tests on one value -/

/-- `"HOME_NET" in config.membership_for_ip(ip)`. -/
def inHomeNet (config : SuricataConfig) (ip : Json) : Bool :=
  "HOME_NET" ∈ config.membershipForIp ip

/-- `_is_public_ip`. -/
def isPublicIp (ip : Json) (config : Option SuricataConfig) : Bool :=
  match ipAddress ip with
  | none => false
  | some addr =>
    if addr.isPrivate || addr.isLoopback || addr.isLinkLocal || addr.isReserved ||
        addr.isMulticast then
      false
    else if cgnatNet.contains addr then false
    else !config.any (inHomeNet · ip)

/-- `domain.lower().rstrip(".")`. -/
def normalise (domain : String) : String := PyStr.rstrip '.' (lower domain)

/-- `_is_internal_domain_name`. -/
def isInternalDomainName (domain : String) : Bool :=
  let name := normalise lower domain
  internalDomainSuffixes.any fun suffix =>
    name = String.ofList (suffix.toList.drop 1) || PyStr.endswith name suffix

/-! ### The DNS answers of a flow -/

/-- A dict of sets: the answers under each name. -/
abbrev DnsAnswers := List (String × List String)

/-- `answers.setdefault(name, set()).add(rdata)`. -/
def DnsAnswers.add : DnsAnswers → String → String → DnsAnswers
  | [], name, rdata => [(name, [rdata])]
  | (n, ips) :: answers, name, rdata =>
    if n = name then (n, ips.insert rdata) :: answers
    else (n, ips) :: DnsAnswers.add answers name rdata

/-- The loop of `_add`: only a text has `lower`. -/
def addName (rdata : String) (answers : DnsAnswers) (name : Json) : Except PyError DnsAnswers :=
  if name.truthy then
    match name with
    | .str name => .ok (answers.add (normalise lower name) rdata)
    | _ => .error .attributeError
  else
    .ok answers

/-- `_add`. -/
def addAnswer (names : List Json) (answers : DnsAnswers) (rdata : Json) :
    Except PyError DnsAnswers :=
  match rdata with
  | .str text =>
    if (ipAddress rdata).isSome then names.foldlM (addName lower text) answers else .ok answers
  | _ => .ok answers

/-- The names that a dns event asks for. -/
def queryNames (dns : Json) : Except PyError (List Json) := do
  let rrname := (← dns.get "rrname").orElse (.str "")
  match (← dns.get "queries").orElse (.arr []) with
  | .obj query => return [rrname, (Json.member query "rrname").orElse (.str "")]
  | .arr queries =>
    return rrname :: queries.filterMap fun
      | .obj query => some ((Json.member query "rrname").orElse (.str ""))
      | _ => none
  | _ => return [rrname]

/-- One of `dns.answers`; its own name counts too. -/
def addRecord (names : List Json) (answers : DnsAnswers) (ans : Json) :
    Except PyError DnsAnswers :=
  match ans with
  | .obj record =>
    addAnswer lower (names ++ [(Json.member record "rrname").orElse (.str "")]) answers
      (Json.member record "rdata")
  | _ => .ok answers

/-- One type of `dns.grouped`. -/
def addGroup (names : List Json) (grouped : List (String × Json)) (answers : DnsAnswers)
    (rrtype : String) : Except PyError DnsAnswers := do
  ((← ((Json.member grouped rrtype).orElse (.arr [])).iter).foldlM (addAnswer lower names) answers)

/-- The answers in one event. -/
def addEvent (answers : DnsAnswers) (event : Json) : Except PyError DnsAnswers := do
  if (← event.get "event_type").isStr "dns" then
    let dns := (← event.get "dns").orElse (.obj [])
    let names ← queryNames dns
    let answers ← addAnswer lower names answers (← dns.get "rdata")
    let records ← ((← dns.get "answers").orElse (.arr [])).iter
    let answers ← records.foldlM (addRecord lower names) answers
    match (← dns.get "grouped").orElse (.obj []) with
    | .obj grouped => ["A", "AAAA"].foldlM (addGroup lower names grouped) answers
    | _ => return answers
  else
    return answers

/-- `_dns_answer_ips`. -/
def dnsAnswerIps (correlatedEvents : List Json) : Except PyError DnsAnswers :=
  correlatedEvents.foldlM (addEvent lower) []

/-- `home_net_names`. -/
def homeNetNames (config : Option SuricataConfig) (correlatedEvents : List Json) :
    Except PyError (List String) :=
  match config with
  | none => .ok []
  | some config => (dnsAnswerIps lower correlatedEvents).map fun answers =>
    (answers.filter fun a => a.2.any fun ip => inHomeNet config (.str ip)).map Prod.fst

/-! ### Collecting -/

/-- `_server_ip`. -/
def serverIp (event : Json) : Except PyError Json := do
  if (← event.get "direction").isStr "to_client" then event.get "src_ip" else event.get "dest_ip"

/-- The name in an event and, for http and tls, its server. -/
def eventDomain (event : Json) : Except PyError (Json × Json) := do
  let etype ← event.get "event_type"
  if etype.isStr "dns" then
    let dns := (← event.get "dns").orElse (.obj [])
    let domain := (← dns.get "rrname").orElse (.str "")
    if domain.truthy then return (domain, .null)
    match (← dns.get "queries").orElse (.arr []) with
    | .arr (query :: _) => return (← (query.orElse (.obj [])).getD "rrname" (.str ""), .null)
    | .obj query => return ((Json.lookup query "rrname").getD (.str ""), .null)
    | _ => return (domain, .null)
  else if etype.isStr "http" then
    let http := (← event.get "http").orElse (.obj [])
    return ((← http.get "hostname").orElse (.str ""), ← serverIp event)
  else if etype.isStr "tls" then
    let tls := (← event.get "tls").orElse (.obj [])
    return ((← tls.get "sni").orElse (.str ""), ← serverIp event)
  else
    return (.null, .null)

/-- `domain and "." in domain`.  A list or dict with a `"."` in it is in no list of texts and has no
`endswith`, so it ends the loop. -/
def dottedName (domain : Json) : Except PyError (Option String) := do
  if domain.truthy then
    if ← domain.containsChar '.' then
      match domain with
      | .str name => return some name
      | _ => throw .attributeError
    else
      return none
  else
    return none

/-- The dotted name in an event, with its server. -/
def carriedName (event : Json) : Except PyError (Option (String × Json)) := do
  let (domain, serverIp) ← eventDomain event
  return (← dottedName domain).map (·, serverIp)

/-- The three tests after which a name is passed over. -/
def isSkipped (config : Option SuricataConfig) (names : List String) (domain : String)
    (serverIp : Json) : Bool :=
  isInternalDomainName lower domain || normalise lower domain ∈ names ||
    config.any fun config => serverIp.truthy && inHomeNet config serverIp

/-- `ips` and `domains`. -/
structure Found where
  ips : List Json
  domains : List String

/-- What the body of the loop does with a dotted name. -/
def takeName (config : Option SuricataConfig) (names : List String) (found : Found)
    (domain : String) (serverIp : Json) : Found :=
  if domain ∈ found.domains ∨ PyStr.endswith domain ".arpa" then
    found
  else if (ipAddress (.str domain)).isSome then
    -- a bare address goes to the addresses, while there is room
    if !found.ips.any (·.eq (.str domain)) ∧ found.ips.length < maxIps then
      { found with ips := found.ips ++ [.str domain] }
    else
      found
  else if isSkipped lower config names domain serverIp then
    found
  else
    { found with domains := found.domains ++ [domain] }

/-- The body of the loop over the events. -/
def collectOne (config : Option SuricataConfig) (names : List String) (found : Found)
    (event : Json) : Except PyError Found := do
  match ← carriedName event with
  | some (domain, serverIp) => return takeName lower config names found domain serverIp
  | none => return found

/-- The loop over the events, left when there are enough names. -/
def collect (config : Option SuricataConfig) (names : List String) :
    List Json → Found → Except PyError Found :=
  Except.foldUntil (collectOne lower config names) fun found => maxDomains ≤ found.domains.length

/-- The loop over the two endpoints of the alert; two are never more than `maxIps`. -/
def endpoints (rawEve : Json) : Except PyError (List Json) :=
  ["src_ip", "dest_ip"].foldlM (fun ips field => do
    let ip ← rawEve.get field
    return if ip.truthy && !ips.any (·.eq ip) then ips ++ [ip] else ips) []

/-- `_extract_indicators`. -/
def extractIndicators (rawEve : Json) (correlatedEvents : List Json)
    (config : Option SuricataConfig) : Except PyError (List Indicator) := do
  let names ← homeNetNames lower config correlatedEvents
  let ips ← endpoints rawEve
  let found ← collect lower config names correlatedEvents ⟨ips, []⟩
  return found.ips.map (⟨.ip, ·⟩) ++ found.domains.map fun d => ⟨.domain, .str d⟩

/-! ### Looking up -/

/-- The enrichment clients of the worker. -/
inductive Source
  | geoip
  | virustotal
  | rdap
  deriving DecidableEq

/-- `client.lookup(indicator)`. -/
structure Call where
  source : Source
  indicator : Indicator

/-- `_lookup`, as the calls it makes: none without a client. -/
def lookup (configured : Source → Bool) (indicator : Indicator) (source : Source) : List Call :=
  if configured source then [⟨source, indicator⟩] else []

/-- `_enrich_one`. -/
def enrichOne (configured : Source → Bool) (config : Option SuricataConfig)
    (indicator : Indicator) : List Call :=
  match indicator.type with
  | .ip =>
    lookup configured indicator .geoip ++
      if isPublicIp indicator.value config then lookup configured indicator .virustotal else []
  | .domain => lookup configured indicator .virustotal ++ lookup configured indicator .rdap
  | _ => []

/-- `_enrich_all`; a call that fails does not keep the others from being made. -/
def enrichAll (configured : Source → Bool) (config : Option SuricataConfig)
    (indicators : List Indicator) : List Call :=
  indicators.flatMap (enrichOne configured config)

/-- The calls for one alert, `_extract_indicators` then `_enrich_all`. -/
def enrichmentCalls (configured : Source → Bool) (rawEve : Json) (correlatedEvents : List Json)
    (config : Option SuricataConfig) : Except PyError (List Call) :=
  (extractIndicators lower rawEve correlatedEvents config).map (enrichAll configured config)

end Verdix.Indicators
