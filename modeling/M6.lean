import M6.File.Resolve
import M6.Core.ThreadPool
import M6.Core.Flash
import M6.Core.ParamsFiles
import M6.Core.SharedBase
import M6.Core.Reloader
import M6.Core.Secrets
import M6.Core.NdjsonReader
import M6.Core.Singletons
import M6.Core.Negotiate
import M6.Core.Telemetry
import M6.Core.NotAfter
import M6.Core.RecentLog
import M6.Core.Migrations
import M6.Auth.Redirect
import M6.Edge.Agreement
import M6.Auth.TwoSessions
import M6.Edge.Pipelining
import M6.Edge.H3Agreement
import M6.Edge.H2Identifiers
import M6.Edge.H2Returned
import M6.Edge.H2Answer
import M6.Edge.HpackBlock
import M6.Edge.H2Windows
import M6.Edge.H2Hpack
import M6.Edge.H2Credit
import M6.Edge.H2Requests
import M6.Edge.H2Sending
import M6.Edge.H2Resets
import M6.Edge.H2Farewell
import M6.Edge.H2Fragments
import M6.Edge.Analytics
import M6.Edge.CacheKeys
import M6.Edge.CacheClients
import M6.Edge.CacheClock
import M6.Edge.Directives
import M6.Edge.Retention
import M6.Edge.Interim
import M6.Edge.Relay
import M6.Edge.StatusDigits
import M6.Edge.RateLimit
import M6.Edge.RefusalLog
import M6.Edge.Stats
import M6.Edge.ViaChain
import M6.Edge.Preconditions
import M6.Edge.RoundTrip
import M6.File.Polling
import M6.File.Validators
import M6.Md.Watch
import M6.Monitor.Links
import M6.Monitor.Pages
import M6.Monitor.Tiling
import M6.Monitor.Survival
