import Verdix.Lib.Jinja
import Verdix.Llm.PromptBuilder

/-!
# The verdict prompt

`PromptBuilder.build`: the template `verdict_v6.j2`, section by section, and the prompt that
`_process_alert` makes of an alert, its correlated events and the enrichment results.

A newline after a block tag is kept, the one at the end of the template is not.
-/

namespace Verdix.PromptBuilder

open Jinja

variable (jinja : Jinja) (fl : FloatArith) (lower : String → String)

/-! ### The alert -/

/-- The text before the alert. -/
def instructions : String :=
  "You are Verdix, an AI co-pilot helping a SOC analyst triage Suricata IDS alerts.\n" ++
  "\n" ++
  "Your job is to classify the alert below into exactly one of these three categories:\n" ++
  "- likely_fp      - the alert is almost certainly a false positive; no investigation needed\n" ++
  "- suspicious_investigate - the alert has suspicious signals but cannot be confirmed without " ++
  "further investigation\n" ++
  "- likely_tp      - the alert is almost certainly a true positive; real threat activity " ++
  "detected\n" ++
  "\n" ++
  "Rules:\n" ++
  "1. Only use the facts provided. Never invent IPs, domains, or file names.\n" ++
  "2. Always cite at least one specific fact that drove your verdict.\n" ++
  "3. A false-negative (calling a real attack \"likely_fp\") is worse than a false-positive. " ++
  "When in doubt, choose suspicious_investigate over likely_fp.\n" ++
  "4. Signal hierarchy: the primary alert's signature is not always the strongest signal. When " ++
  "co-alerts on the same flow have a higher-severity malware-specific category (e.g. Malware " ++
  "Command and Control, A Network Trojan was Detected, Exploit Kit Activity, Attempted User " ++
  "Privilege Gain), classify based on the co-alert — not the primary signature alone. Threat " ++
  "intelligence can support a likely_tp verdict when BOTH of these conditions hold: (a) ≥10 " ++
  "vendors flagged the destination as malicious, AND (b) the observed network activity shows " ++
  "active adversarial behavior — such as C2 POST beaconing, persistent keep-alive sessions to a " ++
  "confirmed C2 endpoint, data exfiltration patterns, or payload delivery followed by subsequent " ++
  "C2 contact visible in correlated events. A TI hit on a staging server, download domain, or " ++
  "reconnaissance service does NOT on its own satisfy condition (b).\n" ++
  "5. High-fidelity primary signatures: if the primary alert's signature name contains \"ET " ++
  "MALWARE\" or \"ET TROJAN\", OR the primary alert's category is exactly \"Malware Command and " ++
  "Control Activity Detected\" or \"A Network Trojan was Detected\", classify as likely_tp even " ++
  "when threat intelligence is absent. These represent curated, malware-family-specific " ++
  "detections of confirmed malicious behavior — not heuristics or anomaly-based signatures. This " ++
  "rule does NOT apply to generic or informational signatures whose names or categories include " ++
  "\"ET INFO\", \"Not Suspicious Traffic\", \"Misc activity\", \"Potentially Bad Traffic\", " ++
  "\"Device Retrieving External IP Address Detected\", or \"Attempted Information Leak\" — even " ++
  "when threat intelligence happens to implicate the destination.\n" ++
  "6. Dual-use service consistency: certain services are inherently dual-use — they are " ++
  "legitimate services that malware commonly uses for reconnaissance or as intermediaries, and " ++
  "they will have 0 or near-zero VirusTotal detections regardless of their role in an attack. " ++
  "When the primary observed activity in the alert is traffic TO one of the following named " ++
  "services, always classify as suspicious_investigate — never likely_tp (the service itself is " ++
  "legitimate) and never likely_fp (malware genuinely uses these services in real infections):\n" ++
  "\x20  - External IP lookup and geolocation services: icanhazip.com, api.ipify.org, ipify.org, " ++
  "ip-api.com, reallyfreegeoip.org, checkip.dyndns.org, and similar services whose sole function " ++
  "is to return the client's public IP address. More broadly, any unlisted service whose primary " ++
  "function is to return the requesting client's external IP address, public hostname, or " ++
  "geolocation also falls in this category\n" ++
  "\x20  - URL shortener and redirect services: fancli.com, bit.ly, tinyurl.com, and similar " ++
  "services when ONLY the shortener domain (not the final payload destination) is observed in " ++
  "the alert\n" ++
  "\x20  A TI label such as \"used by malware X for post-infection geolocation\" on a " ++
  "0-VT-detection service does NOT override this rule.\n" ++
  "\x20  This rule applies only to the named service categories above. It does NOT apply to: TOR " ++
  "relays, encrypted C2 channels, anonymous proxies, or any destination where a " ++
  "malware-family-specific signature already fired (Rule 5 takes precedence).\n" ++
  "7. Respond ONLY with valid JSON matching the schema — no preamble, no markdown fences.\n" ++
  "\n" ++
  "---\n" ++
  "## ALERT\n" ++
  "\n"

/-- `hostname (address)`, or the address alone. -/
def host (hostname : Option String) (alert : Json) (ip : String) : Except PyError String := do
  match hostname.filter (· ≠ "") with
  | some name => return name ++ " (" ++ (← jinja.out alert [ip]) ++ ")"
  | none => jinja.out alert [ip]

/-- `_dns_rrname`. -/
def dnsRrname (dns : Json) : Except PyError Json := do
  let queries := (← get dns "queries").orElse (.arr [])
  let rrname ← get dns "rrname"
  if rrname.truthy then
    return rrname
  else if queries.truthy then
    get (firstOrEmpty queries) "rrname"
  else
    return .null

/-- `_dns_rdata`. -/
def dnsRdata (dns : Json) : Except PyError (List Json) := do
  mapSelect ((← get dns "answers").orElse (.arr [])) "rdata"

/-- The answers and the response code. -/
def dnsOutcome (rdata : List Json) (rcode : Json) : Except PyError String := do
  let answers ← block (rdata ≠ []) do return " -> " ++ (← jinja.join rdata)
  let code ← block rcode.truthy do return " [" ++ (← jinja.text rcode) ++ "]"
  return answers ++ code

/-- The line about the query of the alert. -/
def alertDns (alert : Json) : Except PyError String := do
  let dns := (← get alert "dns").orElse (.obj [])
  let rrname ← dnsRrname dns
  block rrname.truthy do
    let rdata ← dnsRdata dns
    let rcode ← get dns "rcode"
    let type := (← get dns "type").orElse (.str "query")
    return "DNS query   : " ++ (← jinja.text type) ++ " " ++ (← jinja.text rrname) ++
      (← dnsOutcome jinja rdata rcode) ++ "\n"

/-- The line about the metadata of the rule. -/
def alertMetadata (alert : Json) : Except PyError String := do
  match ← path alert ["alert", "metadata"] with
  | some metadata => block metadata.truthy do
    return "\nRule metadata: " ++ (← jinja.tojson metadata) ++ "\n"
  | none => return ""

def alertHttp (alert : Json) : Except PyError String := do
  block (truthy (← path alert ["http"])) do
    return "\nHTTP        : " ++ (← jinja.out alert ["http", "http_method"]) ++ " " ++
      (← jinja.out alert ["http", "hostname"]) ++ (← jinja.out alert ["http", "url"]) ++
      "\nUser-Agent  : " ++ (← jinja.out alert ["http", "http_user_agent"]) ++
      "\nStatus      : " ++ (← jinja.out alert ["http", "status"]) ++ "\n"

def alertTls (alert : Json) : Except PyError String := do
  block (truthy (← path alert ["tls"])) do
    return "\nTLS SNI     : " ++ (← jinja.out alert ["tls", "sni"]) ++
      "\nTLS Subject : " ++ (← jinja.out alert ["tls", "subject"]) ++ "\n"

def alertSection (alert : Json) (srcHostname dstHostname : Option String) :
    Except PyError String := do
  return "Signature : " ++ (← jinja.out alert ["alert", "signature"]) ++
    " (SID " ++ (← jinja.out alert ["alert", "signature_id"]) ++ ")\n" ++
    "Severity  : " ++ (← jinja.out alert ["alert", "severity"]) ++ "\n" ++
    "Category  : " ++ (← jinja.out alert ["alert", "category"]) ++ "\n" ++
    "Protocol  : " ++ (← jinja.out alert ["proto"]) ++
    (← block (truthy (← path alert ["app_proto"])) do
      return " / " ++ (← jinja.out alert ["app_proto"])) ++ "\n\n" ++
    "Source      : " ++ (← host jinja srcHostname alert "src_ip") ++
    ":" ++ (← jinja.out alert ["src_port"]) ++ "\n" ++
    "Destination : " ++ (← host jinja dstHostname alert "dest_ip") ++
    ":" ++ (← jinja.out alert ["dest_port"]) ++ "\n" ++
    "Timestamp   : " ++ (← jinja.out alert ["timestamp"]) ++ "\n" ++
    (← alertMetadata jinja alert) ++ "\n" ++ (← alertDns jinja alert) ++ "\n" ++
    (← alertHttp jinja alert) ++ "\n" ++ (← alertTls jinja alert)

/-! ### The enrichment results -/

def enrichmentItem (item : ContextItem) : Except PyError String := do
  let lines ←
    if item.source = "VirusTotal" then
      match item.vt with
      | some fields => renderVirustotal fl item.cached fields
      | none => .error .undefinedError
    else
      .ok ("  " ++ item.summary.getD "None" ++ "\n")
  return "\n[" ++ jinja.upper item.type ++ ": " ++ item.indicator ++ "] via " ++ item.source ++
    "\n" ++ lines

/-- The value of an `EnrichmentStatus`. -/
def statusText : EnrichmentStatus → String
  | .contributed => "contributed"
  | .failing => "failing"
  | .notConfigured => "not_configured"

/-- An entry of the ledger; `build_enrichment_context` sets no `failure_reason`. -/
def ledgerItem (item : ContextItem) : Except PyError String := do
  return "\n  " ++ item.source ++ " [" ++ jinja.upper item.type ++ ": " ++ item.indicator ++ "]: " ++
    jinja.upper (statusText item.status) ++ "\n\n"

def enrichmentSection (context : List ContextItem) : Except PyError String := do
  let contributed := context.filter (·.status = .contributed)
  let nonContributed := context.filter (·.status ≠ .contributed)
  let hits ←
    if contributed ≠ [] then
      (loop contributed (enrichmentItem jinja fl)).map ("\n" ++ · ++ "\n")
    else
      .ok "\nNo threat intelligence hits for indicators in this alert.\n"
  let ledger ← block (nonContributed ≠ []) do
    let items ← loop nonContributed (ledgerItem jinja)
    return "\n\nEnrichment source status:\n" ++ items ++ "\n"
  return "\n\n---\n## THREAT INTELLIGENCE ENRICHMENT\n\n" ++ hits ++ "\n\n" ++ ledger

/-! ### The correlated events -/

def eventDns (ev : Json) : Except PyError String := do
  let dns := (← get ev "dns").orElse (.obj [])
  let rrname ← dnsRrname dns
  let rdata ← dnsRdata dns
  let rcode ← get dns "rcode"
  let type := (← get dns "type").orElse (.str "dns")
  return "  " ++ (← jinja.text type) ++ ": " ++ (← jinja.text rrname) ++
    (← dnsOutcome jinja rdata rcode)

def eventHttp (ev : Json) : Except PyError String := do
  return "  " ++ (← jinja.out ev ["http", "http_method"]) ++ " " ++
    (← jinja.out ev ["http", "hostname"]) ++ (← jinja.out ev ["http", "url"]) ++
    " (" ++ (← jinja.out ev ["http", "status"]) ++ ")"

def eventTls (ev : Json) : Except PyError String := do
  return "  SNI=" ++ (← jinja.out ev ["tls", "sni"]) ++
    " subject=" ++ (← jinja.out ev ["tls", "subject"])

def eventFlow (ev : Json) : Except PyError String := do
  return "  " ++ (← jinja.out ev ["proto"]) ++ " " ++ (← jinja.out ev ["src_ip"]) ++
    ":" ++ (← jinja.out ev ["src_port"]) ++ " -> " ++ (← jinja.out ev ["dest_ip"]) ++
    ":" ++ (← jinja.out ev ["dest_port"]) ++
    " bytes_toserver=" ++ (← jinja.out ev ["flow", "bytes_toserver"]) ++
    " bytes_toclient=" ++ (← jinja.out ev ["flow", "bytes_toclient"])

def eventAlert (ev : Json) : Except PyError String := do
  return "  CO-ALERT: " ++ (← jinja.out ev ["alert", "signature"]) ++
    " (SID " ++ (← jinja.out ev ["alert", "signature_id"]) ++
    ") | Category: " ++ (← jinja.out ev ["alert", "category"]) ++
    " | Severity: " ++ (← jinja.out ev ["alert", "severity"])

def correlatedEvent (ev : Json) : Except PyError String := do
  let type ← path ev ["event_type"]
  return "\n[" ++ (← jinja.print type) ++ "]\n" ++
    (← block (isStr type "dns") (eventDns jinja ev)) ++ "\n" ++
    (← block (isStr type "http") (eventHttp jinja ev)) ++ "\n" ++
    (← block (isStr type "tls") (eventTls jinja ev)) ++ "\n" ++
    (← block (isStr type "flow") (eventFlow jinja ev)) ++ "\n" ++
    (← block (isStr type "alert") (eventAlert jinja ev)) ++ "\n"

def correlatedSection (correlatedEvents : List Json) : Except PyError String := do
  let events ←
    if correlatedEvents ≠ [] then
      (loop correlatedEvents (correlatedEvent jinja)).map ("\n" ++ · ++ "\n")
    else
      .ok "\nNo correlated context events found for this flow.\n"
  return "\n\n---\n## CORRELATED FLOW CONTEXT (same flow_id = same network connection)\n" ++ events

/-! ### The prompt -/

/-- The text after the last block. -/
def closing : String :=
  "\n" ++
  "\n" ++
  "---\n" ++
  "Respond with JSON only:\n" ++
  "\x7b\n" ++
  "\x20 \"verdict_category\": \"<likely_fp|suspicious_investigate|likely_tp>\",\n" ++
  "\x20 \"confidence_score\": <0.0-1.0 — use ≥0.85 when multiple independent signals align (Rule 5 " ++
  "signature + TI + behavioral evidence); 0.60–0.80 for a single strong signal (Rule 5 or Rule 4 " ++
  "alone); 0.40–0.60 when evidence is present but incomplete or contradictory>,\n" ++
  "\x20 \"reasoning\": \"<As an expert SOC analyst writing for a Tier 1 or Tier 2 analyst: explain " ++
  "what actually happened on the network in concrete terms — name specific IPs, domains, URLs, " ++
  "and behavioral patterns observed so the analyst does not need to re-read the raw logs. Then " ++
  "state your verdict and the signals that drove it. Use your judgment on detail level: distinct " ++
  "meaningful requests should be named individually; patterns that repeat many times should be " ++
  "summarized with a count.>\",\n" ++
  "\x20 \"contributing_facts\": [\"<one fact per entry — each distinct observed request, query, or " ++
  "connection plus each relevant threat intel result>\", ...]\n" ++ "\x7d"

/-- `PromptBuilder.build`. -/
def build (alert : Json) (correlatedEvents : List Json) (enrichmentContext : List ContextItem)
    (srcHostname dstHostname : Option String) : Except PyError String := do
  let alertText ← alertSection jinja alert srcHostname dstHostname
  let enrichment ← enrichmentSection jinja fl enrichmentContext
  let correlated ← correlatedSection jinja correlatedEvents
  return instructions ++ alertText ++ enrichment ++ correlated ++ closing

/-- The prompt of `_process_alert`. -/
def verdictPrompt (rawEve : Json) (correlatedEvents : List Json)
    (enrichmentPairs : List (TextIndicator × EnrichmentResult))
    (srcHostname dstHostname : Option String) : Except PyError String := do
  let context ← buildEnrichmentContext fl lower enrichmentPairs
  build jinja fl rawEve correlatedEvents context srcHostname dstHostname

end Verdix.PromptBuilder
