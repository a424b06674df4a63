import CrowCore.TaggedDispatch
import CrowCore.EscapeBuffer
import CrowCore.DirtyFlag
import CrowCore.StrandedEvents
import CrowCore.RetryAccounting
import CrowCore.Segmentation
import CrowCore.Base64
import CrowCore.SessionStates
import CrowCore.PoolExclusivity
import CrowCore.DueRetries
import CrowCore.DeliveredOnce
import CrowCore.ShutDownOverlap
import CrowCore.RequestHandling
import CrowCore.HtmlView
import CrowCore.JsonSchema
import CrowCore.PersistentRoundTrip
import CrowCore.KeepAlive
import CrowCore.SessionExpiry
import CrowCore.ConditionalRequests
import CrowCore.Http2Connection
import CrowCore.ListingAgreement
import CrowCore.MutualTls
import CrowCore.StreamIsolation
import CrowCore.UpgradeHandling
import CrowCore.OutputOrder
import CrowCore.RefusedMessages
import CrowCore.DuplicateRoutes
import CrowCore.IntegerUnpacking
import CrowCore.HandlerTags
import CrowCore.AcceptHeader
import CrowCore.StructuredResponse
import CrowCore.SkippedReports
import CrowCore.HumanSort
import CrowCore.ODataOrder
import CrowCore.MessageTemplates
import CrowCore.LenientDecoding
import CrowCore.EscapedCodePoints
import CrowCore.IntegerDigits
import CrowCore.DumpReturns
import CrowCore.CompletionHandlers
import CrowCore.HexCodec
import CrowCore.UrlSegments
import CrowCore.Ipv4Addresses
import CrowCore.CertificateUsers
import CrowCore.MessageBuilders
import CrowCore.ReactiveStreams
import CrowCore.ErrorReporters
import CrowCore.ReportRuns
import CrowCore.RedfishRequests
import CrowCore.HttpServer
import CrowCore.Http2Messages
import CrowCore.ComponentRuns
import CrowCore.EventManager
import CrowCore.EventService
import CrowCore.SessionFiles
import CrowCore.SessionLifetimes
import CrowCore.EventRoutes
import CrowCore.ConnectionLimit
import CrowCore.PersistentFiles
