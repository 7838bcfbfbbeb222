import Chronograf.Lib.Interleaving
import Chronograf.Bolt.Organizations
import Chronograf.Noop
import Chronograf.Organizations.Organizations
import Chronograf.Organizations.Isolation
import Chronograf.Organizations.SideEffects
import Chronograf.Organizations.Lens
import Chronograf.Lib.ReadModifyWrite
import Chronograf.Organizations.LostUpdate
import Chronograf.Bolt.Uniqueness
import Chronograf.Server.Auth
import Chronograf.Server.Authorization
import Chronograf.Server.Users
import Chronograf.Server.UserEffects
import Chronograf.Server.Escalation
import Chronograf.Server.SuperAdmins
import Chronograf.Server.Me
import Chronograf.Server.Organizations
import Chronograf.Bolt.Deletion
import Chronograf.Server.Mux
import Chronograf.Server.OneRole
import Chronograf.Server.RoleRuns
import Chronograf.Lib.Checks
import Chronograf.Server.DashboardRequests
import Chronograf.Server.Dashboards
import Chronograf.Server.DashboardEffects
import Chronograf.Server.DashboardIsolation
import Chronograf.Bolt.Dependents
import Chronograf.Bolt.Retry
import Chronograf.Bolt.Flags
import Chronograf.Bolt.RoundTrip
import Chronograf.Lib.Parts
import Chronograf.Server.DashboardEdits
import Chronograf.Server.DashboardFrames
import Chronograf.Server.DashboardLostEdits
import Chronograf.Bolt.Migrations
import Chronograf.Lib.Float64
import Chronograf.Lib.Json
import Chronograf.Influx.Influxql
import Chronograf.Influx.Queries
import Chronograf.Influx.Expressions
import Chronograf.Influx.Analysis
import Chronograf.Kapacitor.Lex
import Chronograf.Kapacitor.Scanner
import Chronograf.Kapacitor.Tokens
import Chronograf.Kapacitor.Client
import Chronograf.Lib.Remote
import Chronograf.Kapacitor.Updates
import Chronograf.Oauth2.Cookies
import Chronograf.Oauth2.Sessions
import Chronograf.Oauth2.Callback
import Chronograf.Oauth2.Restrictions
import Chronograf.TempVars.Fetcher
import Chronograf.Kapacitor.ListTasks
import Chronograf.Kapacitor.Listings
import Chronograf.Lib.Marshal
import Chronograf.V2.Cells
import Chronograf.V2.Dashboards
import Chronograf.Bolt.RecordsV2
import Chronograf.Bolt.MapsV2
import Chronograf.Bolt.ServicesV2
import Chronograf.Influx.Annotations
import Chronograf.Influx.AnnotationCommands
import Chronograf.Influx.AnnotationRuns
import Chronograf.Influx.Convert
import Chronograf.Lib.Formula
import Chronograf.Influx.TagLogic
import Chronograf.Lib.DepthFirst
import Chronograf.Lib.Extensions
import Chronograf.TempVars.Replace
import Chronograf.TempVars.Hydrate
import Chronograf.TempVars.Rendering
import Chronograf.TempVars.Confluence
import Chronograf.Kapacitor.RuleHandlers
import Chronograf.TempVars.Picks
import Chronograf.Dashboards.CellActions
import Chronograf.Flux.Filters
import Chronograf.Flux.FilterText
import Chronograf.Flux.FilterMeaning
import Chronograf.Graphs.Transform
import Chronograf.Lib.Collate
import Chronograf.Graphs.Table
import Chronograf.Graphs.Merge
import Chronograf.Graphs.GroupedTable
import Chronograf.Lib.Pages
import Chronograf.Logs.InfiniteScroll
import Chronograf.Logs.Scrolling
import Chronograf.TempVars.Pieces
import Chronograf.TempVars.RegexLiterals
import Chronograf.TempVars.Substitution
import Chronograf.Graphs.TimeShifts
import Chronograf.Graphs.ShiftedPoints
import Chronograf.Lib.Fallback
import Chronograf.Multistore.Stores
import Chronograf.Multistore.OneStore
import Chronograf.Oauth2.GithubPages
import Chronograf.Server.MappedRoles
import Chronograf.Lib.Occurrences
import Chronograf.Oauth2.Extensions
import Chronograf.Server.UrlPrefixer
import Chronograf.Filestore.Disk
import Chronograf.Filestore.Stores
import Chronograf.Kapacitor.EdgeTypes
import Chronograf.Lib.Entries
import Chronograf.Filestore.Entries
import Chronograf.Filestore.Records
import Chronograf.Filestore.Runs
import Chronograf.Server.Routes
import Chronograf.Server.GuardedRoutes
import Chronograf.Lib.SliceSort
import Chronograf.Influx.AnnotationResults
import Chronograf.Enterprise.Meta
import Chronograf.Enterprise.Updates
import Chronograf.Influx.UserUpdates
import Chronograf.Server.AnnotationRequests
import Chronograf.Lib.Undo
import Chronograf.Influx.Placeholders
import Chronograf.Influx.Durations
import Chronograf.Influx.TimeRanges
import Chronograf.Lib.Escapes
import Chronograf.Influx.LineProtocol
import Chronograf.Influx.LineRoundTrip
import Chronograf.Lib.Parsers
import Chronograf.Lib.Quotes
import Chronograf.Influx.Scanner
import Chronograf.Influx.Parser
import Chronograf.Influx.Commands
import Chronograf.Influx.OneStatement
import Chronograf.Lib.Rings
import Chronograf.Enterprise.DataNodes
import Chronograf.TempVars.Selections
import Chronograf.Lib.Objects
import Chronograf.Lib.Unique
import Chronograf.TempVars.MetaQueries
import Chronograf.Lib.Rectangles
import Chronograf.Dashboards.CellGetters
import Chronograf.Dashboards.ImportMappings
import Chronograf.Dashboards.TableGraph
import Chronograf.Dashboards.QueryTransitions
import Chronograf.Lib.Rfc3339
import Chronograf.Flux.Dygraph
import Chronograf.Lib.Chunks
import Chronograf.Lib.Csv
import Chronograf.Flux.Response
import Chronograf.Flux.ResponseTables
import Chronograf.Flux.ReadResponses
import Chronograf.Logs.Config
import Chronograf.Server.OrgConfig
import Chronograf.Logs.ConfigRoundTrip
import Chronograf.Hosts.Apis
import Chronograf.Hosts.SeriesKeys
import Chronograf.Influx.Followed
import Chronograf.Influx.Precedence
import Chronograf.Influx.FilteredAnnotations
import Chronograf.Lib.Places
import Chronograf.Server.AnnotationFilters
import Chronograf.Kapacitor.TriggerValues
import Chronograf.Lib.Lockstep
import Chronograf.Server.ServerIdentity
import Chronograf.Server.Secrets
import Chronograf.Server.AttachedServers
import Chronograf.Lib.Url
import Chronograf.Server.Proxy
import Chronograf.Lib.Linearization
import Chronograf.Server.Configs
