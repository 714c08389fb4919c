import Onecli.Access.GuardCoverage
import Onecli.Access.ScopeOverlap
import Onecli.Agents.AutomationSettles
import Onecli.Agents.CronFires
import Onecli.Agents.CronJitter
import Onecli.Agents.Fates
import Onecli.Agents.HomeSync
import Onecli.Agents.MessageEnds
import Onecli.Agents.MessageOrder
import Onecli.Agents.ProcessEnds
import Onecli.Agents.Settlements
import Onecli.Agents.StopFinality
import Onecli.Agents.TurnEdges
import Onecli.Agents.Turns
import Onecli.Agents.WatchFires
import Onecli.Api.Evaluator
import Onecli.Api.OverlapWarnings
import Onecli.Api.ResourceAxis
import Onecli.Api.RuleEdits
import Onecli.Approval.Hold
import Onecli.Approval.InMemory
import Onecli.Approval.Redis
import Onecli.Approval.SimilarScope
import Onecli.Approval.SimilarWindow
import Onecli.Approval.Wakeup
import Onecli.Billing.BilledOnce
import Onecli.Budget.Spend
import Onecli.Budget.SseMeter
import Onecli.Channels.AppTurns
import Onecli.Channels.ExecutesOnce
import Onecli.Channels.InboundRuns
import Onecli.Channels.SectionChunks
import Onecli.Directory.NothingLeft
import Onecli.Directory.Reconcile
import Onecli.Directory.Seats
import Onecli.Foundation.UrlPath
import Onecli.Gateway.BufferPrefix
import Onecli.Gateway.DriveAncestry
import Onecli.Gateway.DriveListing
import Onecli.Gateway.HostDecision
import Onecli.Gateway.InjectionSpelling
import Onecli.Gateway.QueryKeys
import Onecli.Gateway.SentPath
import Onecli.Gateway.TruncationPolarity
import Onecli.Graphql.Exact
import Onecli.Graphql.KeyCount
import Onecli.Inject.HeaderNames
import Onecli.Inject.PathShape
import Onecli.Inject.QueryParam
import Onecli.Inject.SecretChoice
import Onecli.Memories.FieldEdits
import Onecli.Memories.Redaction
import Onecli.Oauth.Refresh
import Onecli.Oauth.SpentOnce
import Onecli.Parity.GraphqlBody
import Onecli.Parity.Matchers
import Onecli.Parity.Scopes
import Onecli.Policy.BodyBuffer
import Onecli.Policy.LiveStrictness
import Onecli.Policy.TwoLevelLaw
import Onecli.Postgres.Bookkeeping
import Onecli.Postgres.CopyIn
import Onecli.Postgres.Coverage
import Onecli.Postgres.DraftAgreement
import Onecli.Postgres.Fates
import Onecli.Postgres.Tracking
import Onecli.Postgres.Uncertain
import Onecli.Postgres.Wire
import Onecli.Proxy.Egress
import Onecli.Publish.Validity
import Onecli.Runner.CapacityHolds
import Onecli.Runner.ChannelOwnership
import Onecli.Runner.DeadReported
import Onecli.Runner.LastCommand
import Onecli.Runner.ReportChain
import Onecli.Runner.TurnEvents
import Onecli.Sandboxes.AwakeTime
import Onecli.Scim.RefusedWrites
import Onecli.Summary.CutReading
import Onecli.Summary.LeadWith
import Onecli.Summary.LineDiff
import Onecli.Summary.RedactForms
import Onecli.Supervisor.Delivery
import Onecli.Supervisor.Watches
import Onecli.Transcript.NoGaps
