import Verdix.Infra.SuricataConfig
import Verdix.Lib.JsonValue

/-!
# Role assignment

`assign_roles` names the attacker and the victim of an alert: by the target that the rule declares,
else by the `attack_target` metadata, else by the category, the last two with the help of `HOME_NET`.
`RoleFields` is what it reads of the alert, a parsed JSON value.

`lower` stands for `str.lower` and `str` for `str` of a value in a text.
-/

namespace Verdix.RoleAssignment

variable (lower : String → String) (str : Json → String)

/-! ### The categories -/

/-- The patterns of a category. -/
inductive Pattern
  | outboundCnc
  | inboundAttack
  | attackResponse
  | scan
  | unknown
  deriving DecidableEq

inductive Confidence
  | high
  | medium
  | low
  | ambiguous
  deriving DecidableEq

/-- `CATEGORY_RULES`. -/
def categoryRules : List (String × Pattern × Confidence) :=
  [("command and control", .outboundCnc, .medium),
    ("trojan", .outboundCnc, .medium),
    ("malware", .outboundCnc, .medium),
    ("web application attack", .inboundAttack, .medium),
    ("attempted administrator privilege", .inboundAttack, .medium),
    ("attempted user privilege", .inboundAttack, .medium),
    ("successful administrator privilege", .inboundAttack, .medium),
    ("successful user privilege", .inboundAttack, .medium),
    ("exploit kit", .inboundAttack, .medium),
    ("shellcode detect", .inboundAttack, .medium),
    ("denial of service", .inboundAttack, .medium),
    ("network trojan", .inboundAttack, .medium),
    ("attack response", .attackResponse, .medium),
    ("network scan", .scan, .medium),
    ("policy violation", .unknown, .low),
    ("potentially bad traffic", .unknown, .low),
    ("misc activity", .unknown, .low),
    ("not suspicious", .unknown, .low),
    ("unknown traffic", .unknown, .low),
    ("decode of an rpc", .unknown, .low),
    ("inappropriate content", .unknown, .low)]

/-- `detect_pattern`. -/
def detectPattern (category : Json) : Except PyError (Pattern × Confidence) :=
  match category with
  | .str category =>
    let lower := lower category
    match categoryRules.find? fun rule => PyStr.containsText lower rule.1 with
    | some rule => .ok rule.2
    | none => .ok (.unknown, .low)
  | _ => .error .attributeError

/-! ### The metadata -/

/-- `_CLIENT_TARGET_VALUES`. -/
def clientTargetValues : List String := ["client_endpoint", "client", "endpoint"]

/-- `_SERVER_TARGET_VALUES`. -/
def serverTargetValues : List String :=
  ["server", "web_server", "sql_server", "dns_server", "smtp_server", "ftp_server", "imap_server",
    "pop3_server", "http_server"]

inductive Hint
  | clientIsVictim
  | serverIsVictim
  deriving DecidableEq

/-- `_classify_attack_target`. -/
def classifyAttackTarget : List Json → Except PyError (Option Hint)
  | [] => .ok none
  | .str val :: vals =>
    let norm := lower val
    if norm ∈ clientTargetValues then .ok (some .clientIsVictim)
    else if norm ∈ serverTargetValues then .ok (some .serverIsVictim)
    else classifyAttackTarget vals
  | _ :: _ => .error .attributeError

/-- What `assign_roles` reads of an alert. -/
structure RoleFields where
  srcIp : Json
  destIp : Json
  category : Json
  targetField : Json
  attackTargetList : List Json

/-- The category, the target and the `attack_target` metadata of the `alert` object. -/
def readAlert (alert : Json) : Except PyError (Json × Json × List Json) := do
  let category ← alert.getD "category" (.str "")
  let targetField ← alert.get "target"
  let metadata := (← alert.get "metadata").orElse (.obj [])
  let metadata : Json := match metadata with
    | .arr _ => .obj []
    | metadata => metadata
  let rawAttackTarget ← metadata.getD "attack_target" (.arr [])
  let attackTargetList ← match rawAttackTarget with
    | .str _ => .ok [rawAttackTarget]
    | rawAttackTarget => rawAttackTarget.iter
  return (category, targetField, attackTargetList)

/-- The head of `assign_roles`. -/
def readFields (alertRaw : Json) : Except PyError RoleFields := do
  let srcIp ← alertRaw.getD "src_ip" (.str "")
  let destIp ← alertRaw.getD "dest_ip" (.str "")
  let alert := (← alertRaw.get "alert").orElse (.obj [])
  let (category, targetField, attackTargetList) ← readAlert alert
  return ⟨srcIp, destIp, category, targetField, attackTargetList⟩

/-! ### The assignments -/

end RoleAssignment

/-- `RoleAssignment`; an address is `null` when there is none. -/
structure RoleAssignment where
  initiatorIp : Json
  responderIp : Json
  attackerIp : Json
  victimIp : Json
  confidence : RoleAssignment.Confidence
  reasoning : String
  signalsUsed : List String

namespace RoleAssignment

variable (lower : String → String) (str : Json → String)

/-- `"HOME_NET" in src_groups`, and the same for the destination. -/
def isInternal (config : SuricataConfig) (ip : Json) : Bool :=
  ip.truthy && "HOME_NET" ∈ config.membershipForIp ip

/-- Signal 1, the target field. -/
def byTargetField (f : RoleFields) : Option RoleAssignment :=
  if f.targetField.isStr "src_ip" || f.targetField.isStr "dest_ip" then
    let (victimIp, attackerIp) :=
      if f.targetField.isStr "src_ip" then (f.srcIp, f.destIp) else (f.destIp, f.srcIp)
    some {
      initiatorIp := f.srcIp
      responderIp := f.destIp
      attackerIp := attackerIp
      victimIp := victimIp
      confidence := .high
      reasoning := "Rule defines target:" ++ str f.targetField ++ " — that IP is the explicit " ++
        "attack target declared by the rule author."
      signalsUsed := ["target_field"] }
  else
    none

/-- Signal 2, the metadata; `none` when it falls through to the category. -/
def byAttackTarget (f : RoleFields) (srcInternal destInternal : Bool) (signalsUsed : List String)
    (hint : Option Hint) : Option RoleAssignment :=
  match hint with
  | some .clientIsVictim =>
    if destInternal && !srcInternal then
      some {
        initiatorIp := f.srcIp
        responderIp := f.destIp
        attackerIp := f.srcIp
        victimIp := f.destIp
        confidence := .medium
        reasoning := "Rule metadata identifies the client endpoint as the target; " ++
          str f.destIp ++ " (internal client) is victim, " ++ str f.srcIp ++
          " (external server) is attacker."
        signalsUsed := signalsUsed }
    else if srcInternal && !destInternal then
      some {
        initiatorIp := f.srcIp
        responderIp := f.destIp
        attackerIp := f.destIp
        victimIp := f.srcIp
        confidence := .medium
        reasoning := "Rule metadata identifies the client endpoint as the target; " ++
          str f.srcIp ++ " (internal client) is victim, " ++ str f.destIp ++
          " (external server) is attacker."
        signalsUsed := signalsUsed }
    else
      none
  | some .serverIsVictim =>
    if srcInternal || destInternal then
      some {
        initiatorIp := f.srcIp
        responderIp := f.destIp
        attackerIp := f.srcIp
        victimIp := f.destIp
        confidence := .medium
        reasoning := "Rule metadata identifies a server as the target; treating " ++ str f.destIp ++
          " (responder/server) as victim."
        signalsUsed := signalsUsed }
    else
      none
  | none => none

/-- `_ambiguous`. -/
def ambiguous (f : RoleFields) (signalsUsed : List String) : RoleAssignment where
  initiatorIp := f.srcIp
  responderIp := f.destIp
  attackerIp := .null
  victimIp := .null
  confidence := .ambiguous
  reasoning := "Category '" ++ str f.category ++ "' with current network context provides " ++
    "insufficient role-assignment signal. The LLM should reason from flow context and enrichment."
  signalsUsed := signalsUsed

/-- `_apply_outbound_cnc`. -/
def applyOutboundCnc (f : RoleFields) (srcInternal destInternal : Bool)
    (baseConfidence : Confidence) (signalsUsed : List String) : RoleAssignment :=
  if srcInternal && !destInternal then
    { initiatorIp := f.srcIp
      responderIp := f.destIp
      attackerIp := f.destIp
      victimIp := f.srcIp
      confidence := baseConfidence
      reasoning := "Category '" ++ str f.category ++
        "' (CnC/trojan) with internal→external direction: " ++ str f.srcIp ++
        " (internal host) is the compromised victim calling out to " ++ str f.destIp ++
        " (external CnC infrastructure)."
      signalsUsed := signalsUsed }
  else if !srcInternal && destInternal then
    { initiatorIp := f.srcIp
      responderIp := f.destIp
      attackerIp := f.srcIp
      victimIp := f.destIp
      confidence := .low
      reasoning := "Category '" ++ str f.category ++
        "' (CnC/trojan) with external→internal direction: unusual; treating " ++ str f.srcIp ++
        " (external) as attacker, " ++ str f.destIp ++ " (internal) as victim at low confidence."
      signalsUsed := signalsUsed }
  else
    ambiguous str f signalsUsed

/-- `_apply_inbound_attack`. -/
def applyInboundAttack (f : RoleFields) (srcInternal destInternal : Bool)
    (baseConfidence : Confidence) (signalsUsed : List String) : RoleAssignment :=
  if !srcInternal && destInternal then
    { initiatorIp := f.srcIp
      responderIp := f.destIp
      attackerIp := f.srcIp
      victimIp := f.destIp
      confidence := baseConfidence
      reasoning := "Category '" ++ str f.category ++
        "' (inbound attack) with external→internal direction: " ++ str f.srcIp ++
        " (external) is the attacker; " ++ str f.destIp ++ " (internal) is the victim."
      signalsUsed := signalsUsed }
  else if srcInternal && !destInternal then
    { initiatorIp := f.srcIp
      responderIp := f.destIp
      attackerIp := f.srcIp
      victimIp := f.destIp
      confidence := .low
      reasoning := "Category '" ++ str f.category ++
        "' (inbound attack) but internal→external direction: treating " ++ str f.srcIp ++
        " (internal) as attacker, " ++ str f.destIp ++ " as victim at low confidence."
      signalsUsed := signalsUsed }
  else
    ambiguous str f signalsUsed

/-- `_apply_attack_response`. -/
def applyAttackResponse (f : RoleFields) (srcInternal destInternal : Bool)
    (baseConfidence : Confidence) (signalsUsed : List String) : RoleAssignment :=
  if !srcInternal && destInternal then
    { initiatorIp := f.srcIp
      responderIp := f.destIp
      attackerIp := f.srcIp
      victimIp := f.destIp
      confidence := baseConfidence
      reasoning := "Category '" ++ str f.category ++ "' (attack response): " ++ str f.srcIp ++
        " (external) is the CnC server responding to the compromised " ++ str f.destIp ++
        " (internal)."
      signalsUsed := signalsUsed }
  else
    ambiguous str f signalsUsed

/-- Signals 3 and 4, the category and the direction. -/
def byCategory (f : RoleFields) (srcInternal destInternal : Bool) (signalsUsed : List String)
    (baseConfidence : Confidence) : Pattern → RoleAssignment
  | .outboundCnc => applyOutboundCnc str f srcInternal destInternal baseConfidence signalsUsed
  | .inboundAttack => applyInboundAttack str f srcInternal destInternal baseConfidence signalsUsed
  | .attackResponse => applyAttackResponse str f srcInternal destInternal baseConfidence signalsUsed
  | .scan =>
    { initiatorIp := f.srcIp
      responderIp := f.destIp
      attackerIp := f.srcIp
      victimIp := f.destIp
      confidence := baseConfidence
      reasoning := "Category '" ++ str f.category ++ "' (network scan): " ++ str f.srcIp ++
        " is the scanner/attacker; " ++ str f.destIp ++ " is being scanned."
      signalsUsed := signalsUsed }
  | .unknown => ambiguous str f signalsUsed

/-- `assign_roles` from the signals on. -/
def assignFields (config : SuricataConfig) (f : RoleFields) : Except PyError RoleAssignment := do
  let srcInternal := isInternal config f.srcIp
  let destInternal := isInternal config f.destIp
  match byTargetField str f with
  | some result => return result
  | none =>
    let (pattern, baseConfidence) ← detectPattern lower f.category
    let signalsUsed :=
      (if pattern ≠ .unknown then ["rule_category"] else []) ++
        (if srcInternal || destInternal then ["home_net_membership"] else []) ++
        (if !f.attackTargetList.isEmpty then ["attack_target_metadata"] else [])
    let attackTargetHint ← classifyAttackTarget lower f.attackTargetList
    match byAttackTarget str f srcInternal destInternal signalsUsed attackTargetHint with
    | some result => return result
    | none => return byCategory str f srcInternal destInternal signalsUsed baseConfidence pattern

/-- `assign_roles`. -/
def assignRoles (alertRaw : Json) (config : SuricataConfig) : Except PyError RoleAssignment := do
  assignFields lower str config (← readFields alertRaw)

end RoleAssignment

end Verdix
