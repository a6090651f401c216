import Verdix.Enrichment.Models
import Verdix.Lib.JsonNumber

/-!
# The enrichment part of the verdict prompt

`build_enrichment_context` of `PromptBuilder` with the fields that VirusTotal results get, and the
lines the template `verdict_v6.j2` makes of those fields.
-/

namespace Verdix.PromptBuilder

variable (fl : FloatArith) (lower : String → String)

/-- `_source_display`. -/
def sourceDisplay (source : String) : String :=
  match lower source with
  | "virustotal" => "VirusTotal"
  | "geoip" => "GeoIP"
  | "rdap" => "RDAP"
  | _ => source

/-- `_vt_label`. -/
def vtLabel (malicious total : Json) : Except PyError String := do
  if ← Json.geInt fl 10 malicious then
    return "Confirmed malicious — " ++ (← malicious.numberText) ++ "/" ++ (← total.numberText) ++
      " vendors"
  else if ← Json.gtInt fl 0 malicious then
    return "Suspicious — " ++ (← malicious.numberText) ++ "/" ++ (← total.numberText) ++ " vendors"
  else
    return "Clean — 0/" ++ (← total.numberText) ++ " vendors, no detections"

/-- `_vt_no_analysis_text`. -/
def vtNoAnalysisText (data : List (String × Json)) : String :=
  if (Json.member data "not_in_database").truthy then
    "Not in VirusTotal's database — no analysis data returned."
  else
    "VirusTotal returned no analysis data for this indicator."

/-- `_cache_age_clause`. -/
def cacheAgeClause (seconds : ℤ) : String :=
  let minutes := seconds / 60
  let hours := minutes / 60
  let days := hours / 24
  if seconds < 60 then toString seconds ++ "s old"
  else if minutes < 60 then toString minutes ++ "m old"
  else if hours < 24 then toString hours ++ "h old"
  else toString days ++ "d old"

/-- The fields that VirusTotal results get; those that may be missing are options. -/
structure VtFields where
  vtMalicious : Json
  vtTotal : Json
  label : Option String
  vtNoAnalysisText : Option String
  vtCacheAge : Option String

/-- `_format_virustotal_fields`. -/
def formatVirustotalFields (result : EnrichmentResult) : Except PyError VtFields := do
  let data := result.data.getD []
  let malicious := (Json.lookup data "malicious_count").getD (.int 0)
  let total := (Json.lookup data "total_engines").getD (.int 0)
  let age := if result.cached then result.cacheAgeSeconds.map cacheAgeClause else none
  if ← Json.gtInt fl 0 total then
    return ⟨malicious, total, some (← vtLabel fl malicious total), none, age⟩
  else
    return ⟨malicious, total, none, some (vtNoAnalysisText data), age⟩

/-- An entry of the context. -/
structure ContextItem where
  type : String
  indicator : String
  source : String
  status : EnrichmentStatus
  summary : Option String
  cached : Bool
  cacheAgeSeconds : Option ℤ
  vt : Option VtFields

/-- The entry of a result; `_SOURCE_FIELD_FORMATTERS` knows one source. -/
def contextItem (indicator : TextIndicator) (result : EnrichmentResult) :
    Except PyError ContextItem := do
  let vt ←
    if lower result.source = "virustotal" then
      (formatVirustotalFields fl result).map some
    else
      .ok none
  return {
    type := indicator.type.text
    indicator := indicator.value
    source := sourceDisplay lower result.source
    status := result.status
    summary := result.summary
    cached := result.cached
    cacheAgeSeconds := result.cacheAgeSeconds
    vt := vt }

/-- `build_enrichment_context`. -/
def buildEnrichmentContext (results : List (TextIndicator × EnrichmentResult)) :
    Except PyError (List ContextItem) :=
  (results.filter fun r => r.2.status = .contributed).mapM fun r => contextItem fl lower r.1 r.2

/-- The lines of the template for a VirusTotal entry, from the test of `vt_total` on. -/
def renderVirustotal (cached : Bool) (fields : VtFields) : Except PyError String := do
  if ← Json.gtInt fl 0 fields.vtTotal then
    return "  Classification : " ++ fields.label.getD "" ++ "\n  VirusTotal     : " ++
      (← fields.vtMalicious.numberText) ++ "/" ++ (← fields.vtTotal.numberText) ++
      " vendors flagged malicious\n" ++
      (if cached then "  (cached result, " ++ fields.vtCacheAge.getD "" ++ ")" else "") ++ "\n"
  else
    return "  VirusTotal     : " ++ fields.vtNoAnalysisText.getD "" ++ "\n"

end Verdix.PromptBuilder
