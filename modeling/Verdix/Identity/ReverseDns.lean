import Verdix.Infra.Cache
import Verdix.Infra.CircuitBreaker
import Verdix.Infra.SuricataConfig
import Verdix.Lib.Datetime

/-!
# The reverse DNS provider

`ReverseDNSIdentityProvider.resolve_ip` as a function of the provider, what the resolvers answer and
the readings of the clocks.  The cache outlives the process, so a run may contain restarts.
-/

namespace Verdix

/-- `IdentityFacts`. -/
structure IdentityFacts where
  ip : String
  hostname : Option String
  username : Option String
  ouPath : Option String
  groupMemberships : List String
  source : String
  queriedAt : Datetime

namespace ReverseDns

/-- What `socket.gethostbyaddr` comes to: a name, an `herror` with its number, or another
exception. -/
inductive SocketAnswer
  | hostname (name : String)
  | herror (errno : ℤ)
  | raised

/-- What dnspython's resolver comes to: the text of the first record, one of the exceptions that say
that there is none, or another exception. -/
inductive ResolverAnswer
  | record (text : String)
  | nxdomain
  | noAnswer
  | raised

/-- What the world answers to a lookup; one of the two resolvers is asked. -/
structure Reply where
  timedOut : Bool
  socket : SocketAnswer
  resolver : ResolverAnswer

/-- The arguments of `__init__`. -/
structure Config where
  suricata : SuricataConfig
  enabled : Bool
  dnsServer : Option String
  cacheTtl : ℤ
  breaker : BreakerConfig

structure Provider where
  cache : TTLCache String
  breaker : AsyncCircuitBreaker

/-- The readings of the clocks: at the `get`, as the breaker is entered, as the lookup ends, at the
`set`, and of the wall clock. -/
structure Clock where
  read : ℚ
  entered : ℚ
  ended : ℚ
  later : ℚ
  now : Datetime

structure Query where
  ip : String
  reply : Reply
  clock : Clock

def cacheKey (ip : String) : String := "revdns:" ++ ip

/-- `_dnspython_lookup`; which exception is raised makes no difference to the callers. -/
def dnspythonLookup : ResolverAnswer → Except Unit (Option String)
  | .record text => .ok (some (PyStr.rstrip '.' text))
  | .nxdomain => .ok none
  | .noAnswer => .ok none
  | .raised => .error ()

/-- `_lookup_internal`. -/
def lookupInternal (cfg : Config) (reply : Reply) : Except Unit (Option String) :=
  if reply.timedOut then .error ()
  else if cfg.dnsServer.getD "" ≠ "" then dnspythonLookup reply.resolver
  else
    match reply.socket with
    | .hostname name => .ok (some name)
    | .herror _ => .ok none
    | .raised => .error ()

/-- `_do_lookup`. -/
def doLookup (cfg : Config) (cb : AsyncCircuitBreaker) (clock : Clock) (reply : Reply) :
    Option String × AsyncCircuitBreaker :=
  match cb.call cfg.breaker clock.entered clock.ended (lookupInternal cfg reply) with
  | (.returned hostname, cb) => (hostname, cb)
  | (.refused _, cb) => (none, cb)
  | (.raised _, cb) => (none, cb)

/-- The facts of an answer. -/
def facts (q : Query) (hostname : Option String) : IdentityFacts where
  ip := q.ip
  hostname := hostname
  username := none
  ouPath := none
  groupMemberships := []
  source := "reverse_dns"
  queriedAt := q.clock.now

/-- `resolve_ip`. -/
def resolveIp (cfg : Config) (p : Provider) (q : Query) : Option IdentityFacts × Provider :=
  if ¬ cfg.enabled then (none, p)
  else if "HOME_NET" ∉ cfg.suricata.membershipForIp (.str q.ip) then (none, p)
  else
    let (cached, cache) := p.cache.get q.clock.read (cacheKey q.ip)
    match cached with
    | some name => (some (facts q (if name ≠ "" then some name else none)), { p with cache })
    | none =>
      let (hostname, breaker) := doLookup cfg p.breaker q.clock q.reply
      (some (facts q hostname),
        ⟨cache.set q.clock.later (cacheKey q.ip) (hostname.getD "") cfg.cacheTtl, breaker⟩)

/-- What happens to a provider: a lookup, or a restart of the process, which keeps the cache. -/
inductive Act
  | resolve (q : Query)
  | restart

/-- The provider over an empty cache. -/
def init : Provider := ⟨.empty, .init⟩

def step (cfg : Config) (p : Provider) : Act → Option Provider
  | .resolve q => some (resolveIp cfg p q).2
  | .restart => some { p with breaker := .init }

end ReverseDns

end Verdix
