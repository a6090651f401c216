import Verdix.Infra.SuricataConfig
import Verdix.Infra.SuricataIncludes
import Verdix.Infra.SuricataParser

/-!
# Reading the configuration

`read_config` with `extract_address_groups` and `extract_rule_file_paths` on the loaded dictionary,
`validate_home_net` and `_summarise_rule_files`.
-/

namespace Verdix.SuricataParser

open PyObject Ipaddress

/-- What `read_config` raises. -/
inductive ConfigError
  /-- `SuricataConfigMissing`. -/
  | missing (message detail : String)
  /-- `SuricataConfigInvalid`. -/
  | invalid (message detail : String)
  /-- Any other exception, which it does not catch. -/
  | raised (e : PyError)
  deriving DecidableEq

/-- The functions of Python that the reader calls. -/
structure ReaderLibrary extends YamlLibrary where
  /-- `str` of a value. -/
  str : Heap → Value → Except PyError String
  /-- `str` of an exception. -/
  excText : PyError → String

/-! ### Address groups -/

/-- `v.get(key, {}) or {}`; `none` stands for the new dictionary. -/
def block (heap : Heap) (key : String) : Option Value → Except PyError (Option Value)
  | none => .ok none
  | some v =>
    match dict? heap v with
    | none => .error .attributeError
    | some address =>
      match lookup (members heap address) (.str key) with
      | some inner => .ok (if truthy heap inner then some inner else none)
      | none => .ok none

/-- `{k: str(v) for k, v in block.items()}`.  No reference names a key that is not a string, and such a
key is not `HOME_NET`; the group is left out. -/
def textsOf (lib : ReaderLibrary) (heap : Heap) : Option Value → Except PyError Groups
  | none => .ok []
  | some v =>
    match dict? heap v with
    | none => .error .attributeError
    | some address => do
      let texts ← (members heap address).mapM fun m => do return (m.1, ← lib.str heap m.2)
      return texts.filterMap fun text =>
        match text.1 with
        | .str name => some (name.toList, text.2.toList)
        | _ => none

/-- `extract_address_groups` on the dictionary. -/
def extractFrom (lib : ReaderLibrary) (heap : Heap) (data : ℕ) :
    Except PyError (List (Text × List Network) × Groups) := do
  let vars ← block heap "vars" (some (.ref data))
  let rawAddr ← block heap "address-groups" vars
  let rawPort ← block heap "port-groups" vars
  let addressGroups ← textsOf lib heap rawAddr
  let portGroups ← textsOf lib heap rawPort
  return extractAddressGroups ⟨some ⟨some addressGroups, some portGroups⟩⟩

/-- `validate_home_net`, with the networks. -/
def validateHomeNet (addressCidrs : List (Text × List Network)) (configPath : String) :
    Except ConfigError (List Network) :=
  match addressCidrs.lookup "HOME_NET".toList with
  | none => .error (.invalid "HOME_NET is not defined in vars.address-groups" configPath)
  | some [] =>
    .error (.invalid ("HOME_NET resolved to an empty network list " ++
      "(value is 'any', all negations, or unparseable CIDRs)") configPath)
  | some (net :: nets) => .ok (net :: nets)

/-! ### Rule files -/

/-- `extract_rule_file_paths`. -/
def extractRuleFilePaths (lib : ReaderLibrary) (heap : Heap) (data : ℕ) :
    Except PyError (List String) :=
  match lookup (members heap data) (.str "rule-files") with
  | none => .ok []
  | some ruleFiles =>
    if truthy heap ruleFiles then do
      let items ← includeItems heap ruleFiles
      (items.filter (truthy heap)).mapM (lib.str heap)
    else
      .ok []

structure RuleFileSummary where
  path : String
  exists_ : Bool
  lineCount : Option ℕ
  mtime : Option ℚ

/-- `p.exists() and p.is_file()`. -/
def existsAsFile (fs : FileSystem) (p : PosixPath) : Except PyError Bool := do
  let present ← fs.pathExists p
  if present then fs.isFile p else .ok false

/-- The body of the loop of `_summarise_rule_files`. -/
def summariseRuleFile (fs : FileSystem) (configDir : PosixPath) (rp : String) :
    Except PyError (String × RuleFileSummary) := do
  let p ← fs.resolve (configDir.joinpath rp)
  let file ← existsAsFile fs p
  if file then do
    let mtime ← fs.mtime p
    let lineCount := (fs.readBytes p).toOption.map fun bytes => (TextFile.readLines bytes).length
    return (rp, ⟨p.str, true, lineCount, some mtime⟩)
  else
    return (rp, ⟨p.str, false, none, none⟩)

/-- `_summarise_rule_files`. -/
def summariseRuleFiles (fs : FileSystem) (configDir : PosixPath) (ruleFilePaths : List String) :
    Except PyError (List (String × RuleFileSummary)) :=
  ruleFilePaths.mapM (summariseRuleFile fs configDir)

/-! ### The configuration -/

/-- `_SERVER_GROUP_NAMES`. -/
def serverGroupNames : List String :=
  ["HTTP_SERVERS", "SMTP_SERVERS", "SQL_SERVERS", "DNS_SERVERS", "TELNET_SERVERS", "AIM_SERVERS",
    "DC_SERVERS", "DNP3_SERVER", "DNP3_CLIENT", "MODBUS_CLIENT", "MODBUS_SERVER", "ENIP_CLIENT",
    "ENIP_SERVER"]

/-- The known groups, then those that a customer has defined. -/
def serverGroups (addressCidrs : List (Text × List Network)) : List (String × List Network) :=
  let groups := addressCidrs.map fun group => (String.ofList group.1, group.2)
  groups.filter (fun group => group.1 ∈ serverGroupNames) ++
    groups.filter fun group => group.1 ∉ ["HOME_NET", "EXTERNAL_NET"] ++ serverGroupNames

theorem homeNet_not_mem_serverGroups (addressCidrs : List (Text × List Network)) :
    ∀ group ∈ serverGroups addressCidrs, group.1 ≠ "HOME_NET" := by
  intro group hgroup hname
  rcases List.mem_append.mp hgroup with hmem | hmem
  · have hknown := (List.mem_filter.mp hmem).2
    rw [hname] at hknown
    exact absurd hknown (by decide)
  · have hother := (List.mem_filter.mp hmem).2
    rw [hname] at hother
    exact absurd hother (by decide)

/-- What `read_config` returns. -/
structure ConfigRead where
  config : SuricataConfig
  externalNet : List Network
  portGroups : Groups
  ruleFilePaths : List String
  ruleFileSummaries : List (String × RuleFileSummary)
  configFilePathsRead : List String

/-- `except ParseError`. -/
def LoadError.toConfigError (pathStr : String) : LoadError → ConfigError
  | .parse message => .invalid message pathStr
  | .raised e => .raised e

/-- The part of `read_config` after the file has been found. -/
def readFound (lib : ReaderLibrary) (fs : FileSystem) (pathStr : String) :
    Except ConfigError ConfigRead := do
  let path := PosixPath.parse pathStr
  let loaded ← (loadYamlWithIncludes lib.toYamlLibrary fs 6 path []).mapError
    (LoadError.toConfigError pathStr)
  let (addressCidrs, portGroups) ← (extractFrom lib loaded.heap loaded.data).mapError fun e =>
    .invalid ("failed to extract address groups: " ++ lib.excText e) pathStr
  let homeNet ← validateHomeNet addressCidrs pathStr
  let ruleFilePaths ← (extractRuleFilePaths lib loaded.heap loaded.data).mapError .raised
  let ruleFileSummaries ←
    (summariseRuleFiles fs path.parent ruleFilePaths).mapError .raised
  return {
    config := ⟨homeNet, serverGroups addressCidrs, homeNet_not_mem_serverGroups addressCidrs⟩
    externalNet := (addressCidrs.lookup "EXTERNAL_NET".toList).getD []
    portGroups
    ruleFilePaths
    ruleFileSummaries
    configFilePathsRead := loaded.pathsRead }

/-- `read_config`, where `path_str` is the path it is given or takes from the environment. -/
def readConfig (lib : ReaderLibrary) (fs : FileSystem) (pathStr : String) :
    Except ConfigError ConfigRead := do
  let path := PosixPath.parse pathStr
  let present ← (fs.pathExists path).mapError .raised
  if !present then
    .error (.missing "suricata.yaml not found at configured path" pathStr)
  else do
    let file ← (fs.isFile path).mapError .raised
    if !file then
      .error (.missing "configured path is not a file" pathStr)
    else
      match fs.readBytes path with
      | .error e => .error (.missing "cannot read suricata.yaml" (pathStr ++ ": " ++ e))
      | .ok _ => readFound lib fs pathStr

end Verdix.SuricataParser
