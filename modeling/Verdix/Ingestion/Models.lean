import Verdix.Lib.Json

/-!
# EVE events

The events that flow from the tailer to the indexer and the dispatcher.  `EventType.fromStr` maps
every value that is no known event type to `unknown`, whatever its type.
-/

namespace Verdix

/-- The `event_type` values of EVE. -/
inductive EventType
  | alert
  | anomaly
  | drop
  | engine
  | fileinfo
  | flow
  | netflow
  | pkthdr
  | stats
  | http
  | http2
  | mqtt
  | imap
  | pop3
  | smtp
  | rdp
  | rfb
  | ssh
  | ike
  | krb5
  | quic
  | tls
  | dhcp
  | dns
  | ntp
  | snmp
  | tftp
  | ftp
  | ftpData
  | nfs
  | smb
  | pgsql
  | dnp3
  | enip
  | modbus
  | bittorrentDht
  | sip
  | arp
  | ether
  | frame
  | unknown
  deriving DecidableEq, Repr

namespace EventType

/-- The text of an event type. -/
def value : EventType → String
  | alert => "alert"
  | anomaly => "anomaly"
  | drop => "drop"
  | engine => "engine"
  | fileinfo => "fileinfo"
  | flow => "flow"
  | netflow => "netflow"
  | pkthdr => "pkthdr"
  | stats => "stats"
  | http => "http"
  | http2 => "http2"
  | mqtt => "mqtt"
  | imap => "imap"
  | pop3 => "pop3"
  | smtp => "smtp"
  | rdp => "rdp"
  | rfb => "rfb"
  | ssh => "ssh"
  | ike => "ike"
  | krb5 => "krb5"
  | quic => "quic"
  | tls => "tls"
  | dhcp => "dhcp"
  | dns => "dns"
  | ntp => "ntp"
  | snmp => "snmp"
  | tftp => "tftp"
  | ftp => "ftp"
  | ftpData => "ftp_data"
  | nfs => "nfs"
  | smb => "smb"
  | pgsql => "pgsql"
  | dnp3 => "dnp3"
  | enip => "enip"
  | modbus => "modbus"
  | bittorrentDht => "bittorrent_dht"
  | sip => "sip"
  | arp => "arp"
  | ether => "ether"
  | frame => "frame"
  | unknown => "unknown"

/-- Every event type, in the order of their declaration. -/
def all : List EventType :=
  [.alert, .anomaly, .drop, .engine, .fileinfo, .flow, .netflow, .pkthdr, .stats, .http,
    .http2, .mqtt, .imap, .pop3, .smtp, .rdp, .rfb, .ssh, .ike, .krb5, .quic, .tls, .dhcp,
    .dns, .ntp, .snmp, .tftp, .ftp, .ftpData, .nfs, .smb, .pgsql, .dnp3, .enip, .modbus,
    .bittorrentDht, .sip, .arp, .ether, .frame, .unknown]

/-- `EventType.from_str`. -/
def fromStr (value : Json) : EventType :=
  (all.find? fun t => match value with
    | .str s => t.value = s
    | _ => false).getD unknown

end EventType

/-- A parsed EVE event. -/
structure EveEvent where
  eventType : EventType
  flowId : Json
  timestamp : Json
  raw : Json

namespace EveEvent

/-- `EveEvent.from_dict`; a value that is no dict has no `get`. -/
def fromDict (data : Json) : Except PyError EveEvent := do
  let eventType ← data.getD "event_type" (.str "")
  let flowId ← data.get "flow_id"
  let timestamp ← data.getD "timestamp" (.str "")
  return {
    eventType := EventType.fromStr eventType
    flowId := flowId
    timestamp := timestamp
    raw := data }

/-- `is_alert`. -/
def isAlert (event : EveEvent) : Bool := event.eventType = .alert

/-- The event of a JSON object. -/
def ofMembers (members : List (String × Json)) : EveEvent where
  eventType := EventType.fromStr ((Json.lookup members "event_type").getD (.str ""))
  flowId := (Json.lookup members "flow_id").getD .null
  timestamp := (Json.lookup members "timestamp").getD (.str "")
  raw := .obj members

end EveEvent

end Verdix
