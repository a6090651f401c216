import Verdix.Enrichment.Models
import Verdix.Infra.Cache
import Verdix.Infra.CircuitBreaker
import Verdix.Lib.JsonRoundTrip
import Verdix.Lib.Python

/-!
# The VirusTotal client

`VirusTotalClient.lookup` as a function of the client, the reply of the API and the readings of the
clocks.  The cache outlives the process, so a run may contain restarts.  It is a `SQLiteCache`: an
access raises when its key cannot be encoded, and a `set` when `json.dumps` cannot write the entry.
The rate limiter only delays `func` and is left to `Verdix.Enrichment.RateLimiter`.

`lower` stands for `str.lower`, `fl` for the float arithmetic on the counts of a response.
-/

namespace Verdix.Virustotal

open Indicators (IndicatorType)

variable (fl : FloatArith) (lower : String → String)

/-- `_SOURCE`. -/
def source : String := "virustotal"

/-- `_SUPPORTED`. -/
def isSupported : IndicatorType → Bool
  | .ip => true
  | .domain => true
  | _ => false

/-! ### Reading a response -/

/-- `flagged` and `summary` of `_parse_vt_response`. -/
def summaryLine (malicious suspicious total : Json) : Except PyError String := do
  let flagged ← Json.addNumber fl malicious suspicious
  if ← Json.gtInt fl 0 total then
    return (← flagged.numberText) ++ "/" ++ (← total.numberText) ++ " vendors flagged"
  else
    return "No detections"

/-- `total` of `_parse_vt_response`. -/
def total (stats : Json) : Except PyError Json := do
  if stats.truthy then Json.sumNumbers fl (← stats.values) else return .int 0

/-- The counts and the summary line, from the attributes on. -/
def readAttributes (attrs : Json) : Except PyError (List (String × Json) × String) := do
  let stats ← attrs.getD "last_analysis_stats" (.obj [])
  let malicious ← stats.getD "malicious" (.int 0)
  let suspicious ← stats.getD "suspicious" (.int 0)
  let total ← total fl stats
  let reputation ← attrs.getD "reputation" .null
  let data :=
    [("malicious_count", malicious), ("suspicious_count", suspicious), ("total_engines", total),
      ("reputation", reputation), ("last_analysis_stats", stats)]
  return (data, ← summaryLine fl malicious suspicious total)

/-- The `try` block of `_parse_vt_response`. -/
def parseAttributes (raw : Json) : Except PyError (List (String × Json) × String) := do
  readAttributes fl (← (← raw.item "data").item "attributes")

/-- `_parse_vt_response`. -/
def parseVtResponse (now : Datetime) (raw : Json) (cached : Bool) (cacheAgeSeconds : Option ℤ) :
    Except PyError EnrichmentResult := do
  if (← raw.get "_not_found").truthy then
    return .contributed now source
      [("malicious_count", .int 0), ("total_engines", .int 0), ("not_in_database", .bool true)]
      "Not in VT database" cached cacheAgeSeconds
  match parseAttributes fl raw with
  | .ok (data, summary) => return .contributed now source data summary cached cacheAgeSeconds
  | .error .keyError =>
    return .failing now source .malformedResponse "Unexpected VT API response structure"
  | .error .typeError =>
    return .failing now source .malformedResponse "Unexpected VT API response structure"
  | .error e => throw e

/-! ### Fetching -/

/-- The exceptions that leave `_fetch`, with their texts. -/
inductive VTError
  | auth (detail : String)
  | rateLimit (detail : String)
  | transport (detail : String)
  | other (detail : String)

/-- The arguments of `__init__`, and what the cache it is given can store: the recursion limit of
`json.dumps`, and the characters that no key may hold. -/
structure Config where
  apiKey : String
  fixtureLoader : Option (String → String → Option Json)
  breaker : BreakerConfig
  cacheTtl : ℤ
  maxDepth : ℕ
  surrogates : PyStr.Surrogates

/-- The response that stands for "not in the database". -/
def notFound : Json := .obj [("_not_found", .bool true)]

/-- The exception of an error of the HTTP client. -/
def transportError (etype text : String) : VTError :=
  if PyStr.containsText etype "Timeout" then .transport ("timeout: " ++ text)
  else if ["NetworkError", "ConnectError", "RemoteProtocol"].any (PyStr.containsText etype) then
    .transport ("network error: " ++ text)
  else .other text

/-- `_fetch`. -/
def fetch (cfg : Config) (indicator : TextIndicator) (reply : HttpReply) : Except VTError Json :=
  match cfg.fixtureLoader with
  | some load => .ok ((load indicator.type.text indicator.value).getD notFound)
  | none =>
    match reply with
    | .raised etype text => .error (transportError etype text)
    | .response status body =>
      if status = 401 then .error (.auth "Invalid VT API key (401)")
      else if status = 429 then .error (.rateLimit "VT rate limit (429)")
      else if status = 404 then .ok notFound
      -- `raise_for_status`
      else if ¬ (200 ≤ status ∧ status < 300) then .error (.other ("HTTP status " ++ toString status))
      else
        match body with
        | .ok raw => .ok raw
        | .error text => .error (.other text)

/-! ### Looking up -/

/-- A cache entry. -/
structure Entry where
  response : Json
  fetchedAt : ℚ

structure Client where
  cache : TTLCache Entry
  breaker : AsyncCircuitBreaker

/-- The readings of the clocks during a lookup: at the first `get`, as the breaker is entered, as
`func` ends, at the accesses to the cache after that, and of the wall clock. -/
structure Clock where
  read : ℚ
  entered : ℚ
  ended : ℚ
  later : ℚ
  wall : ℚ
  now : Datetime

/-- A lookup and what the world answers to it. -/
structure Query where
  indicator : TextIndicator
  reply : HttpReply
  clock : Clock

def cacheKey (indicator : TextIndicator) : String := "vt:" ++ indicator.cacheKeySuffix

def staleKey (key : String) : String := key ++ ":stale"

/-- `int(x)`. -/
def toInt (x : ℚ) : ℤ := x.num.tdiv x.den

/-- The age of an entry. -/
def age (clock : Clock) (entry : Entry) : ℤ := toInt (clock.wall - entry.fetchedAt)

/-- `cache.get`: what it finds, and the cache it leaves. -/
def cacheGet (cfg : Config) (cache : TTLCache Entry) (now : ℚ) (key : String) :
    Except PyError (Option Entry × TTLCache Entry) :=
  if PyStr.encodes cfg.surrogates key then .ok (cache.get now key) else .error .unicodeEncodeError

/-- What `json.dumps` raises for an entry with this response.  The time in it is a float, which is
always written. -/
def dumpsError? (maxDepth : ℕ) (raw : Json) : Option PyError :=
  Json.dumpsError? maxDepth (.obj [("response", raw), ("_fetched_at", .float "0.0")])

/-- `cache.set`. -/
def cacheSet (cfg : Config) (cache : TTLCache Entry) (now : ℚ) (key : String) (entry : Entry)
    (ttl : ℤ) : Except PyError (TTLCache Entry) :=
  match dumpsError? cfg.maxDepth entry.response with
  | some e => .error e
  | none =>
    if PyStr.encodes cfg.surrogates key then .ok (cache.set now key entry ttl)
    else .error .unicodeEncodeError

/-- `_serve_stale_or_failing_async`. -/
def serveStaleOrFailing (cfg : Config) (c : Client) (clock : Clock) (key : String)
    (reason : FailureReason) (detail : String) : Except PyError EnrichmentResult × Client :=
  match cacheGet cfg c.cache clock.later (staleKey key) with
  | .error e => (.error e, c)
  | .ok (stale, cache) =>
    match stale with
    | some entry =>
      (parseVtResponse fl clock.now entry.response true (some (age clock entry)), { c with cache })
    | none => (.ok (.failing clock.now source reason detail), { c with cache })

/-- The handlers of `lookup` for what the breaker or `_fetch` raise. -/
def handle (cfg : Config) (c : Client) (clock : Clock) (key : String) :
    VTError → Except PyError EnrichmentResult × Client
  | .auth detail => (.ok (.failing clock.now source .authFailed detail), c)
  | .rateLimit _ => serveStaleOrFailing fl cfg c clock key .rateLimited "VT rate limit hit"
  | .transport detail =>
    serveStaleOrFailing fl cfg c clock key
      (if PyStr.containsText (lower detail) "timeout" then .timeout else .networkError) detail
  | .other detail => serveStaleOrFailing fl cfg c clock key .other detail

/-- Store a response, under its key and as the backup: what that raises, and the client it leaves. -/
def store (cfg : Config) (c : Client) (clock : Clock) (key : String) (raw : Json) :
    Option PyError × Client :=
  let entry : Entry := ⟨raw, clock.wall⟩
  match cacheSet cfg c.cache clock.later key entry cfg.cacheTtl with
  | .error e => (some e, c)
  | .ok cache =>
    match cacheSet cfg cache clock.later (staleKey key) entry (cfg.cacheTtl * 7) with
    | .error e => (some e, { c with cache })
    | .ok cache => (none, { c with cache })

/-- `lookup`. -/
def lookup (cfg : Config) (c : Client) (q : Query) : Except PyError EnrichmentResult × Client :=
  if cfg.apiKey = "" ∧ cfg.fixtureLoader.isNone then (.ok (.notConfigured q.clock.now source), c)
  else if ¬ isSupported q.indicator.type then (.ok (.notConfigured q.clock.now source), c)
  else
    let key := cacheKey q.indicator
    match cacheGet cfg c.cache q.clock.read key with
    | .error e => (.error e, c)
    | .ok (cachedEntry, cache) =>
      let c := { c with cache }
      match cachedEntry with
      | some entry =>
        (parseVtResponse fl q.clock.now entry.response true (some (age q.clock entry)), c)
      | none =>
        let (result, breaker) :=
          c.breaker.call cfg.breaker q.clock.entered q.clock.ended (fetch cfg q.indicator q.reply)
        let c := { c with breaker }
        match result with
        | .refused _ =>
          serveStaleOrFailing fl cfg c q.clock key .circuitBreakerOpen
            "Circuit breaker open — VT temporarily unavailable"
        | .raised e => handle fl lower cfg c q.clock key e
        | .returned raw =>
          match store cfg c q.clock key raw with
          | (some e, c) => (.error e, c)
          | (none, c) => (parseVtResponse fl q.clock.now raw false none, c)

/-! ### Runs -/

/-- What happens to a client: a lookup, or a restart of the process, which keeps the cache. -/
inductive Act
  | lookup (q : Query)
  | restart

/-- The client over an empty cache. -/
def init : Client := ⟨.empty, .init⟩

def step (cfg : Config) (c : Client) : Act → Option Client
  | .lookup q => some (lookup fl lower cfg c q).2
  | .restart => some { c with breaker := .init }

end Verdix.Virustotal
