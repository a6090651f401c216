import Verdix.Enrichment.Models
import Verdix.Enrichment.RdapBootstrap
import Verdix.Infra.CircuitBreaker

/-!
# The RDAP client

`RDAPClient.lookup` as a function of the client, what the registry and the bootstrap download answer
and the readings of the clocks.  The cache outlives the process, so a run may contain restarts.

What Python brings along is taken as it is: `Library`.
-/

namespace Verdix.Rdap

open Indicators (IndicatorType)

/-- A parsed date: its instant in microseconds, or none without a time zone, and its `isoformat`. -/
structure IsoDate where
  instant : Option ℤ
  isoformat : String

/-- The functions of Python that the client calls. -/
structure Library where
  /-- `str.lower`. -/
  lower : String → String
  /-- `str` of a value that was parsed. -/
  str : Json → String
  /-- `datetime.fromisoformat`; `none` for a `ValueError`. -/
  fromisoformat : String → Option IsoDate
  /-- `str` of an exception. -/
  excText : PyError → String

variable (lib : Library)

/-- `_SOURCE`. -/
def source : String := "rdap"

/-- `_CACHE_TTL`. -/
def cacheTtl : ℚ := 7 * 24 * 3600

/-! ### Domains -/

/-- `_COMPOUND`. -/
def compound : List String :=
  ["co.uk", "co.nz", "co.au", "co.jp", "co.za", "co.ke", "com.au", "com.br", "com.mx", "com.ar",
    "com.tr", "com.sg", "net.au", "net.br", "org.uk", "org.au", "me.uk"]

/-- `_normalise_domain`. -/
def normaliseDomain (domain : String) : String :=
  let domain := PyStr.rstrip '.' (PyStr.strip (lib.lower domain))
  let domain := if PyStr.startswith domain "www." then String.ofList (domain.toList.drop 4) else domain
  let parts := PyStr.split '.' domain
  let last (n : ℕ) := String.intercalate "." (parts.drop (parts.length - n))
  if parts.length ≤ 2 then domain
  else if last 2 ∈ compound then last 3
  else last 2

/-! ### Reading a response -/

/-- What `_parse_rdap` takes from a response: the dates of registration and expiry, and the
registrar. -/
structure Registration where
  registered : Option IsoDate
  expires : Option IsoDate
  registrar : Option String

/-- One turn of the loop over the events; the last date of a kind counts. -/
def readEvent (acc : Option IsoDate × Option IsoDate) (event : Json) :
    Except PyError (Option IsoDate × Option IsoDate) := do
  let action ← event.getD "eventAction" (.str "")
  match event.item "eventDate" with
  | .error .keyError => return acc
  | .error e => throw e
  | .ok (.str text) =>
    match lib.fromisoformat (PyStr.replaceChar 'Z' "+00:00" text) with
    | none => return acc
    | some date =>
      if action.isStr "registration" then return (some date, acc.2)
      else if action.isStr "expiration" then return (acc.1, some date)
      else return acc
  | .ok _ => throw .attributeError

/-- `_extract_vcard_name`. -/
def extractVcardName : Json → Option String
  | .arr (_ :: .arr properties :: _) =>
    properties.findSome? fun
      | .arr (name :: _ :: _ :: value :: _) => if name.isStr "fn" then some (lib.str value) else none
      | _ => none
  | _ => none

/-- One turn of the loop over the entities. -/
def readEntity (registrar : Option String) (entity : Json) : Except PyError (Option String) := do
  let roles ← entity.getD "roles" (.arr [])
  if ← roles.containsText "registrar" then
    return extractVcardName lib (← entity.getD "vcardArray" (.arr []))
  else
    return registrar

/-- The two loops of `_parse_rdap`. -/
def readRegistration (raw : Json) : Except PyError Registration := do
  let dates ← (← (← raw.getD "events" (.arr [])).iter).foldlM (readEvent lib) (none, none)
  let registrar ← (← (← raw.getD "entities" (.arr [])).iter).foldlM (readEntity lib) none
  return ⟨dates.1, dates.2, registrar⟩

/-- `(a - b).days` of two instants in microseconds. -/
def daysBetween (a b : ℤ) : ℤ := (a - b) / usPerDay

/-- Python subtracts no date without a time zone from one that has one. -/
def instantOf (date : IsoDate) : Except PyError ℤ :=
  match date.instant with
  | some t => .ok t
  | none => .error .typeError

/-- The dict that `_parse_rdap` returns. -/
structure RdapData where
  registrationDate : Option String
  expiryDate : Option String
  registrar : Option String
  ageDays : Option ℤ
  expiryDays : Option ℤ

/-- `_parse_rdap`. -/
def parseRdap (now : Datetime) (raw : Json) : Except PyError RdapData := do
  let reg ← readRegistration lib raw
  let ageDays ← reg.registered.mapM fun date =>
    (instantOf date).map fun t => daysBetween now.micros t
  let expiryDays ← reg.expires.mapM fun date =>
    (instantOf date).map fun t => daysBetween t now.micros
  return {
    registrationDate := reg.registered.map IsoDate.isoformat
    expiryDate := reg.expires.map IsoDate.isoformat
    registrar := reg.registrar
    ageDays := ageDays
    expiryDays := expiryDays }

/-- The members of the dict. -/
def RdapData.members (data : RdapData) : List (String × Json) :=
  [("registration_date", data.registrationDate.elim .null .str),
    ("expiry_date", data.expiryDate.elim .null .str), ("registrar", data.registrar.elim .null .str),
    ("age_days", data.ageDays.elim .null .int), ("expiry_days", data.expiryDays.elim .null .int)]

/-- `v <= 90` for the integers that are stored. -/
def atMostNinety (v : Json) : Except PyError Bool :=
  match v.intValue? with
  | some n => .ok (n ≤ 90)
  | none => .error .typeError

/-- `summary` of `_build_result`. -/
def summaryOf (data : List (String × Json)) : Except PyError String := do
  let ageDays := Json.member data "age_days"
  let registrar := Json.member data "registrar"
  let expiryDays := Json.member data "expiry_days"
  let expires ← if expiryDays.isNull then .ok false else atMostNinety expiryDays
  let parts :=
    (if ageDays.isNull then [] else ["registered " ++ lib.str ageDays ++ " days ago"]) ++
      (if registrar.truthy then ["via " ++ lib.str registrar] else []) ++
      (if expires then ["expires in " ++ lib.str expiryDays ++ " days"] else [])
  return if parts = [] then "registration data available" else String.intercalate " " parts

/-- `_build_result`. -/
def buildResult (now : Datetime) (data : List (String × Json)) (cached : Bool)
    (cacheAgeSeconds : Option ℤ) : Except PyError EnrichmentResult := do
  if (Json.member data "not_found").truthy then
    return .contributed now source data "Domain not found in RDAP" cached cacheAgeSeconds
  else
    return .contributed now source data (← summaryOf lib data) cached cacheAgeSeconds

/-! ### Fetching -/

/-- The exceptions that leave `_fetch`, with their texts. -/
inductive RdapError
  | timeout (detail : String)
  | network (detail : String)
  | notFound
  | other (detail : String)

/-- The readings of the clocks during a lookup: at the first `get`, as the breaker is entered, at the
bootstrap's accesses to the cache, as `_fetch` ends, at the `set` after that, and of the wall
clock. -/
structure Clock where
  read : ℚ
  entered : ℚ
  fetching : ℚ
  ended : ℚ
  later : ℚ
  now : Datetime

/-- A lookup and what the world answers to it: the registry, and the bootstrap download, should it be
made. -/
structure Query where
  indicator : TextIndicator
  reply : HttpReply
  bootstrap : Option Json
  clock : Clock

/-- A registry's answer about a domain, from the request on. -/
def readReply (now : Datetime) (url : String) : HttpReply → Except RdapError RdapData
  | .raised etype text =>
    if PyStr.containsText etype "Timeout" then
      .error (.timeout ("timeout querying " ++ url ++ ": " ++ text))
    else
      .error (.network ("network error querying " ++ url ++ ": " ++ text))
  | .response status body =>
    if status = 404 then .error .notFound
    -- `raise_for_status`
    else if ¬ (200 ≤ status ∧ status < 300) then .error (.other ("HTTP status " ++ toString status))
    else
      match body with
      | .error text => .error (.network ("malformed RDAP response: " ++ text))
      | .ok raw =>
        match parseRdap lib now raw with
        | .ok data => .ok data
        | .error e => .error (.other (lib.excText e))

/-- `_fetch`. -/
def fetch (s : RdapBootstrap.State) (q : Query) (domain : String) :
    Except RdapError RdapData × RdapBootstrap.State :=
  let (baseUrl, s) := RdapBootstrap.getBaseUrl lib.lower s q.clock.fetching q.bootstrap domain
  match baseUrl with
  | .error e => (.error (.other (lib.excText e)), s)
  | .ok baseUrl =>
    if ¬ baseUrl.truthy then
      (.error (.network ("No RDAP registry known for domain: " ++ domain)), s)
    else
      match baseUrl with
      | .str base =>
        let url := PyStr.rstrip '/' base ++ "/domain/" ++ domain
        (readReply lib q.clock.now url q.reply, s)
      | _ => (.error (.other (lib.excText .attributeError)), s)

/-! ### Looking up -/

structure Client where
  cache : TTLCache Json
  breaker : AsyncCircuitBreaker
  tldMap : Option Json

def cacheKey (domain : String) : String := "rdap:" ++ domain

/-- `cached.get("_age_s", 0)`; what is stored there is an integer. -/
def ageSeconds (cached : List (String × Json)) : Option ℤ :=
  ((Json.lookup cached "_age_s").getD (.int 0)).intValue?

/-- `{**data, "_age_s": 0}`. -/
def payload (data : List (String × Json)) : List (String × Json) := data ++ [("_age_s", .int 0)]

/-- The data of a domain that the registry does not know. -/
def notFoundData : List (String × Json) := [("not_found", .bool true)]

/-- `lookup` on a miss, once the breaker has let it in or refused it. -/
def finish (c : Client) (q : Query) (key : String) :
    AsyncCircuitBreaker.CallResult RdapError RdapData → Except PyError EnrichmentResult × Client
  | .refused _ =>
    (.ok (.failing q.clock.now source .circuitBreakerOpen
      "Circuit breaker open — RDAP registries temporarily unreachable"), c)
  | .raised (.timeout detail) => (.ok (.failing q.clock.now source .timeout detail), c)
  | .raised (.network detail) => (.ok (.failing q.clock.now source .networkError detail), c)
  | .raised .notFound =>
    (.ok (.contributed q.clock.now source notFoundData "Domain not found in RDAP" false none),
      { c with cache := c.cache.set q.clock.later key (.obj (payload notFoundData)) cacheTtl })
  | .raised (.other detail) => (.ok (.failing q.clock.now source .other detail), c)
  | .returned data =>
    (buildResult lib q.clock.now data.members false none,
      { c with cache := c.cache.set q.clock.later key (.obj (payload data.members)) cacheTtl })

/-- `lookup` from the breaker on. -/
def queryRegistry (cfg : BreakerConfig) (c : Client) (q : Query) (domain : String) :
    Except PyError EnrichmentResult × Client :=
  let (fetched, s) := fetch lib ⟨c.tldMap, c.cache⟩ q domain
  let (result, breaker) := c.breaker.call cfg q.clock.entered q.clock.ended fetched
  match result with
  -- `_fetch` has not been called
  | .refused e => finish lib { c with breaker } q (cacheKey domain) (.refused e)
  | result => finish lib ⟨s.cache, breaker, s.tldMap⟩ q (cacheKey domain) result

/-- `lookup`. -/
def lookup (cfg : BreakerConfig) (c : Client) (q : Query) :
    Except PyError EnrichmentResult × Client :=
  if q.indicator.type ≠ IndicatorType.domain then (.ok (.notConfigured q.clock.now source), c)
  else
    let domain := normaliseDomain lib q.indicator.value
    let (cached, cache) := c.cache.get q.clock.read (cacheKey domain)
    match cached with
    | some (.obj members) =>
      (buildResult lib q.clock.now members true (ageSeconds members), { c with cache })
    | some _ => (.error .attributeError, { c with cache })
    | none => queryRegistry lib cfg { c with cache } q domain

/-! ### Runs -/

/-- What happens to a client: a lookup, or a restart of the process, which keeps the cache. -/
inductive Act
  | lookup (q : Query)
  | restart

/-- The client over an empty cache. -/
def init : Client := ⟨.empty, .init, none⟩

def step (cfg : BreakerConfig) (c : Client) : Act → Option Client
  | .lookup q => some (lookup lib cfg c q).2
  | .restart => some ⟨c.cache, .init, none⟩

end Verdix.Rdap
