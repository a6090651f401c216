import Verdix.Lib.Datetime
import Verdix.Triage.Indicators

/-!
# Enrichment results

The uniform result of the enrichment clients, the indicator they look up and the reply they get.
-/

namespace Verdix

/-- `EnrichmentStatus`. -/
inductive EnrichmentStatus
  | contributed
  | failing
  | notConfigured
  deriving DecidableEq

/-- `FailureReason`. -/
inductive FailureReason
  | rateLimited
  | timeout
  | networkError
  | authFailed
  | malformedResponse
  | circuitBreakerOpen
  | other
  deriving DecidableEq

/-- `IndicatorType.value`. -/
def Indicators.IndicatorType.text : Indicators.IndicatorType → String
  | .ip => "ip"
  | .domain => "domain"
  | .hash => "hash"
  | .url => "url"

/-- An `Indicator` whose value is a text, as the clients get it. -/
structure TextIndicator where
  type : Indicators.IndicatorType
  value : String
  deriving DecidableEq

/-- `Indicator.cache_key_suffix`. -/
def TextIndicator.cacheKeySuffix (indicator : TextIndicator) : String :=
  indicator.type.text ++ ":" ++ indicator.value

/-- What the HTTP client brings back: a response, with its body or the error of reading it as JSON,
or an exception with the name of its class. -/
inductive HttpReply
  | response (status : ℕ) (body : Except String Json)
  | raised (etype : String) (text : String)

/-- `EnrichmentResult`. -/
structure EnrichmentResult where
  source : String
  status : EnrichmentStatus
  data : Option (List (String × Json))
  summary : Option String
  failureReason : Option FailureReason
  failureDetail : Option String
  lastSuccessAt : Option Datetime
  queriedAt : Datetime
  cached : Bool
  cacheAgeSeconds : Option ℤ

namespace EnrichmentResult

/-- `EnrichmentResult.not_configured`. -/
def notConfigured (now : Datetime) (source : String) : EnrichmentResult where
  source := source
  status := .notConfigured
  data := none
  summary := none
  failureReason := none
  failureDetail := none
  lastSuccessAt := none
  queriedAt := now
  cached := false
  cacheAgeSeconds := none

/-- `EnrichmentResult.failing`. -/
def failing (now : Datetime) (source : String) (reason : FailureReason) (detail : String) :
    EnrichmentResult where
  source := source
  status := .failing
  data := none
  summary := none
  failureReason := some reason
  failureDetail := some detail
  lastSuccessAt := none
  queriedAt := now
  cached := false
  cacheAgeSeconds := none

/-- A result with data, as each client builds it. -/
def contributed (now : Datetime) (source : String) (data : List (String × Json)) (summary : String)
    (cached : Bool) (cacheAgeSeconds : Option ℤ) : EnrichmentResult where
  source := source
  status := .contributed
  data := some data
  summary := some summary
  failureReason := none
  failureDetail := none
  lastSuccessAt := some now
  queriedAt := now
  cached := cached
  cacheAgeSeconds := cacheAgeSeconds

end EnrichmentResult

end Verdix
