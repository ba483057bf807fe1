import CoreHeartbeat.Lib.Keyed
import CoreHeartbeat.Lib.Inodes
import CoreHeartbeat.Lib.Percent
import CoreHeartbeat.Lib.StableSort
import CoreHeartbeat.Lib.PyTime
import CoreHeartbeat.Lib.Replace
import CoreHeartbeat.Lib.Walk
import CoreHeartbeat.Lib.RoundRobin
import CoreHeartbeat.Lib.PyUrl
import CoreHeartbeat.Lib.PyJsonKeys
import CoreHeartbeat.Lib.PyJsonCut
import CoreHeartbeat.Lib.Jsonl
import CoreHeartbeat.Lib.EventStream
import CoreHeartbeat.Lib.Dialogue
import CoreHeartbeat.Lib.PyJson
import CoreHeartbeat.Plans.SingleUse
import CoreHeartbeat.Plans.Latest
import CoreHeartbeat.Plans.Fallback
import CoreHeartbeat.Graph.Gate
import CoreHeartbeat.Graph.Conversation
import CoreHeartbeat.Graph.Batches
import CoreHeartbeat.Graph.Compose
import CoreHeartbeat.Graph.Streaming
import CoreHeartbeat.Graph.NeverBlank
import CoreHeartbeat.Graph.Approval
import CoreHeartbeat.Graph.NativeRouting
import CoreHeartbeat.Graph.Usage
import CoreHeartbeat.Graph.Signatures
import CoreHeartbeat.Graph.ClientStream
import CoreHeartbeat.Vault.Notes
import CoreHeartbeat.Vault.Preferences
import CoreHeartbeat.Vault.Tools
import CoreHeartbeat.Vault.SyncPaths
import CoreHeartbeat.Vault.ProfileStore
import CoreHeartbeat.Vault.Snapshot
import CoreHeartbeat.Vault.WriteNote
import CoreHeartbeat.Vault.Listing
import CoreHeartbeat.Uploads.AllOrNothing
import CoreHeartbeat.Uploads.Concurrent
import CoreHeartbeat.Uploads.Sentinel
import CoreHeartbeat.Uploads.Alone
import CoreHeartbeat.Uploads.Routes
import CoreHeartbeat.Untrusted.Sanitize
import CoreHeartbeat.Untrusted.Fence
import CoreHeartbeat.Untrusted.Documents
import CoreHeartbeat.Knowledge.Passages
import CoreHeartbeat.Knowledge.Tools
import CoreHeartbeat.Knowledge.Citations
import CoreHeartbeat.Knowledge.Conversation
import CoreHeartbeat.Knowledge.Grounding
import CoreHeartbeat.Knowledge.Protocol
import CoreHeartbeat.Knowledge.Budget
import CoreHeartbeat.Knowledge.History
import CoreHeartbeat.Knowledge.Shares
import CoreHeartbeat.Knowledge.ClientStream
import CoreHeartbeat.Ledger.Conservation
import CoreHeartbeat.Ledger.Spool
import CoreHeartbeat.Ledger.Attempt
import CoreHeartbeat.Web.FetchPage
import CoreHeartbeat.Flights.Order
import CoreHeartbeat.Flights.Cutoff
import CoreHeartbeat.Flights.Search
import CoreHeartbeat.Calendar.AllDay
import CoreHeartbeat.Calendar.TokenSafety
import CoreHeartbeat.Services.Http
import CoreHeartbeat.Services.Secrets
import CoreHeartbeat.Gateway.Identity
import CoreHeartbeat.Gateway.Routes
import CoreHeartbeat.Gateway.TrustBoundary
import CoreHeartbeat.Health.FundPollers
import CoreHeartbeat.Health.SharedLimits
import CoreHeartbeat.Attachments.Parsing
import CoreHeartbeat.Attachments.Turn
import CoreHeartbeat.Attachments.Ownership
import CoreHeartbeat.Attachments.Loads
import CoreHeartbeat.Attachments.Pipeline
