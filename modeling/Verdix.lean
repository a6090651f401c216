import Verdix.Lib.AssocList
import Verdix.Lib.Chunks
import Verdix.Lib.Datetime
import Verdix.Lib.Except
import Verdix.Lib.Firsts
import Verdix.Lib.FixedWidth
import Verdix.Lib.IpNetwork
import Verdix.Lib.Ipaddress
import Verdix.Lib.Jinja
import Verdix.Lib.Json
import Verdix.Lib.JsonLoads
import Verdix.Lib.JsonNumber
import Verdix.Lib.JsonRoundTrip
import Verdix.Lib.JsonSpace
import Verdix.Lib.JsonValue
import Verdix.Lib.KeyGroups
import Verdix.Lib.Like
import Verdix.Lib.NearestRank
import Verdix.Lib.PosixPath
import Verdix.Lib.PyObject
import Verdix.Lib.Python
import Verdix.Lib.ReSub
import Verdix.Lib.References
import Verdix.Lib.Replace
import Verdix.Lib.SlidingWindow
import Verdix.Lib.Split
import Verdix.Lib.Table
import Verdix.Lib.TextFile
import Verdix.Lib.TimedRun
import Verdix.Lib.TokenBucket
import Verdix.Lib.TransitionSystem
import Verdix.Lib.Utf8
import Verdix.Db.DispositionStore
import Verdix.Db.EveEvents
import Verdix.Db.EventStore
import Verdix.Db.Models
import Verdix.Db.OperationalStore
import Verdix.Db.Equiv.DailyCount
import Verdix.Db.Equiv.IngestOrder
import Verdix.Db.Equiv.Retention
import Verdix.Db.Equiv.Stores
import Verdix.Infra.AddressGroups
import Verdix.Infra.Cache
import Verdix.Infra.CircuitBreaker
import Verdix.Infra.SqliteCache
import Verdix.Infra.SqliteTable
import Verdix.Infra.SuricataConfig
import Verdix.Infra.SuricataIncludes
import Verdix.Infra.SuricataParser
import Verdix.Infra.SuricataReader
import Verdix.Infra.Equiv.AddressGroups
import Verdix.Infra.Equiv.AddressTexts
import Verdix.Infra.Equiv.CacheEquivalence
import Verdix.Infra.Equiv.CircuitBreaker
import Verdix.Infra.Equiv.IncludeSeparators
import Verdix.Infra.Equiv.SqliteCache
import Verdix.Infra.Equiv.SuricataIncludes
import Verdix.Infra.Equiv.SuricataParser
import Verdix.Infra.Equiv.SuricataReader
import Verdix.Domain.RoleAssignment
import Verdix.Domain.Equiv.RoleAssignment
import Verdix.Enrichment.Models
import Verdix.Enrichment.RateLimiter
import Verdix.Enrichment.Rdap
import Verdix.Enrichment.RdapBootstrap
import Verdix.Enrichment.Virustotal
import Verdix.Enrichment.Equiv.RateLimiter
import Verdix.Enrichment.Equiv.Rdap
import Verdix.Enrichment.Equiv.RdapBootstrap
import Verdix.Enrichment.Equiv.RdapCache
import Verdix.Enrichment.Equiv.RegistrableDomain
import Verdix.Enrichment.Equiv.Responses
import Verdix.Enrichment.Equiv.StaleBackup
import Verdix.Enrichment.Equiv.Virustotal
import Verdix.Eval.Scoring
import Verdix.Identity.ReverseDns
import Verdix.Identity.Equiv.ReverseDns
import Verdix.Ingestion.Dispatcher
import Verdix.Ingestion.EveFile
import Verdix.Ingestion.FlushTimes
import Verdix.Ingestion.Indexer
import Verdix.Ingestion.Models
import Verdix.Ingestion.Pipeline
import Verdix.Ingestion.Status
import Verdix.Ingestion.Tailer
import Verdix.Ingestion.Equiv.Dispatcher
import Verdix.Ingestion.Equiv.Drops
import Verdix.Ingestion.Equiv.EveFile
import Verdix.Ingestion.Equiv.FlushTimes
import Verdix.Ingestion.Equiv.Indexer
import Verdix.Ingestion.Equiv.Pipeline
import Verdix.Ingestion.Equiv.Rotation
import Verdix.Ingestion.Equiv.Skips
import Verdix.Ingestion.Equiv.Tailer
import Verdix.Llm.OllamaClient
import Verdix.Llm.PromptBuilder
import Verdix.Llm.VerdictV6
import Verdix.Llm.Equiv.PromptBuilder
import Verdix.Telemetry.Collector
import Verdix.Telemetry.Equiv.Percentiles
import Verdix.Triage.Indicators
import Verdix.Triage.Runs
import Verdix.Triage.Worker
import Verdix.Triage.Equiv.Collect
import Verdix.Triage.Equiv.Discriminator
import Verdix.Triage.Equiv.DnsAnswers
import Verdix.Triage.Equiv.Inheritance
import Verdix.Triage.Equiv.Names
import Verdix.Triage.Equiv.Privacy
import Verdix.Triage.Equiv.Verdicts
import Verdix.Triage.Equiv.Worker
import Verdix.Web.Corpus
import Verdix.Web.Dispositions
import Verdix.Web.Health
import Verdix.Web.License
import Verdix.Web.Login
import Verdix.Web.QueueDepth
import Verdix.Web.QueueRows
import Verdix.Web.Equiv.Corpus
import Verdix.Web.Equiv.Dispositions
import Verdix.Web.Equiv.License
import Verdix.Web.Equiv.Login
import Verdix.Web.Equiv.QueueBadges
import Verdix.Web.Equiv.QueueDepth
import Verdix.Web.Equiv.QueueLinks
import Verdix.Web.Equiv.QueueRows
import Verdix.App
import Verdix.Equiv.Abandoned
import Verdix.Equiv.App
import Verdix.Equiv.DailyCap
import Verdix.Equiv.DailyTakes
import Verdix.Equiv.Failed
import Verdix.Equiv.Fifo
