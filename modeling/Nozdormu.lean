import Nozdormu.Packaging.ParseSafety
import Nozdormu.Packaging.Parts
import Nozdormu.Ingest.PartPersistence
import Nozdormu.Ingest.Blocking
import Nozdormu.Ingest.TsReassembly
import Nozdormu.Ingest.SrtVideo
import Nozdormu.Ingest.PublishRuns
import Nozdormu.Ingest.Handshake
import Nozdormu.Ingest.AudioClock
import Nozdormu.Ingest.AvcConfig
import Nozdormu.Proxy.BodyInspection
import Nozdormu.Proxy.Coalescing
import Nozdormu.Admin.Isolation
import Nozdormu.Cache.ObjectKeys
import Nozdormu.Cache.RegexCache
import Nozdormu.Balancer.HashRing
import Nozdormu.Balancer.RoundRobin
import Nozdormu.Balancer.Connections
import Nozdormu.Balancer.HealthHistory
import Nozdormu.Balancer.Recovery
import Nozdormu.Balancer.Reconcile
import Nozdormu.Config.Routing
import Nozdormu.Auth.CleanedPath
import Nozdormu.Config.WatchLoop
import Nozdormu.Ssl.Confinement
import Nozdormu.Ssl.Coherence
import Nozdormu.Ssl.Reissue
import Nozdormu.Ssl.ScanCoverage
import Nozdormu.Config.HistoryVersions
import Nozdormu.Proxy.RateLimit
import Nozdormu.Proxy.HlsRequests
import Nozdormu.Proxy.PartialInput
import Nozdormu.Proxy.LogQueue
import Nozdormu.Proxy.Prefetch
import Nozdormu.Proxy.Rand
import Nozdormu.Proxy.Resize
