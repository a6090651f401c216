import Verdix.Infra.Cache
import Verdix.Lib.JsonValue

/-!
# The RDAP bootstrap registry

`RDAPBootstrap`: the registry that is asked about a domain, by its last label.  The map comes from the
process, else from the cache, else from the download, else from a table in the source; the first two
are filled on the way.

`lower` stands for `str.lower`.
-/

namespace Verdix.RdapBootstrap

variable (lower : String → String)

/-- `_CACHE_KEY`. -/
def cacheKey : String := "rdap:bootstrap"

/-- `_CACHE_TTL`. -/
def cacheTtl : ℚ := 7 * 24 * 3600

/-- `_FALLBACK_SERVICES`. -/
def fallbackServices : List (String × Json) :=
  [("com", .str "https://rdap.verisign.com/com/v1/"),
    ("net", .str "https://rdap.verisign.com/net/v1/"),
    ("org", .str "https://rdap.publicinterestregistry.org/rdap/"),
    ("info", .str "https://rdap.afilias.net/rdap/info/"),
    ("io", .str "https://rdap.nic.io/"),
    ("co", .str "https://rdap.nic.co/"),
    ("uk", .str "https://rdap.nominet.uk/uk/"),
    ("de", .str "https://rdap.denic.de/"),
    ("fr", .str "https://rdap.afnic.fr/"),
    ("nl", .str "https://rdap.sidn.nl/"),
    ("eu", .str "https://rdap.eu/"),
    ("biz", .str "https://rdap.nic.biz/"),
    ("us", .str "https://rdap.nic.us/"),
    ("mobi", .str "https://rdap.nic.mobi/")]

/-- `_extract_tld`. -/
def extractTld (domain : String) : Option String :=
  let parts := PyStr.split '.' (PyStr.rstrip '.' (lower domain))
  if parts.length < 2 then none else parts.getLast?

/-- One service of the registry: its labels lead to its first URL. -/
def addService (tldMap : List (String × Json)) (service : Json) :
    Except PyError (List (String × Json)) := do
  if (← service.len) < 2 then return tldMap
  let tlds ← service.index 0
  let urls ← service.index 1
  if ¬ urls.truthy then return tldMap
  let baseUrl ← urls.index 0
  (← tlds.iter).foldlM
    (fun tldMap tld =>
      match tld with
      | .str label => .ok (Json.setMember tldMap (lower label) baseUrl)
      | _ => .error .attributeError)
    tldMap

/-- `_download`; `none` for a download that failed. -/
def download : Option Json → Except PyError (List (String × Json))
  | none => .ok fallbackServices
  | some data => do
    (← (← data.getD "services" (.arr [])).iter).foldlM (addService lower) []

/-- What the bootstrap works on: the map of the process and the cache. -/
structure State where
  tldMap : Option Json
  cache : TTLCache Json

/-- `_get_tld_map` at `now`. -/
def getTldMap (s : State) (now : ℚ) (reply : Option Json) : Except PyError Json × State :=
  match s.tldMap with
  | some tldMap => (.ok tldMap, s)
  | none =>
    let (cached, cache) := s.cache.get now cacheKey
    match cached with
    | some tldMap => (.ok tldMap, ⟨some tldMap, cache⟩)
    | none =>
      match download lower reply with
      | .error e => (.error e, ⟨none, cache⟩)
      | .ok members =>
        let tldMap := Json.obj members
        (.ok tldMap, ⟨some tldMap, cache.set now cacheKey tldMap cacheTtl⟩)

/-- `get_base_url`. -/
def getBaseUrl (s : State) (now : ℚ) (reply : Option Json) (domain : String) :
    Except PyError Json × State :=
  match extractTld lower domain with
  | none => (.ok .null, s)
  | some tld =>
    if tld = "" then (.ok .null, s)
    else
      let (tldMap, s) := getTldMap lower s now reply
      (tldMap >>= fun tldMap => tldMap.get tld, s)

end Verdix.RdapBootstrap
