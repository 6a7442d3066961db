import AmoAnalytics.Lib.Run
import AmoAnalytics.Lib.Workers
import AmoAnalytics.Lib.Table
import AmoAnalytics.Lib.JoinedKey
import AmoAnalytics.Lib.JsMap
import AmoAnalytics.Lib.CivilDate
import AmoAnalytics.Lib.Transaction
import AmoAnalytics.Lib.Paging
import AmoAnalytics.Lib.JsText
import AmoAnalytics.Lib.IsoInstant
import AmoAnalytics.Lib.Regex
import AmoAnalytics.Lib.JsValue
import AmoAnalytics.CrmControl.Types
import AmoAnalytics.CrmControl.Deadline
import AmoAnalytics.CrmControl.Rules
import AmoAnalytics.CrmControl.RuleKeys
import AmoAnalytics.CrmControl.RuleSources
import AmoAnalytics.CrmControl.RuleClock
import AmoAnalytics.CrmControl.Logic
import AmoAnalytics.CrmControl.Store
import AmoAnalytics.CrmControl.Observation
import AmoAnalytics.CrmControl.Decisions
import AmoAnalytics.CrmControl.CaseInvariant
import AmoAnalytics.CrmControl.ClosedCases
import AmoAnalytics.CrmControl.AuditTrail
import AmoAnalytics.CrmControl.CaseKeys
import AmoAnalytics.CrmControl.ExemptionState
import AmoAnalytics.CrmControl.Exemption
import AmoAnalytics.CrmControl.AnalysisJob
import AmoAnalytics.CrmControl.AnalysisSafety
import AmoAnalytics.CrmControl.AnalysisBatch
import AmoAnalytics.CrmControl.BatchCursor
import AmoAnalytics.CrmControl.DecisionCalls
import AmoAnalytics.CrmControl.DecisionChain
import AmoAnalytics.CrmControl.Report
import AmoAnalytics.CrmControl.ReportListing
import AmoAnalytics.CrmControl.ReportAgreement
import AmoAnalytics.CrmControl.OfferValidation
import AmoAnalytics.CrmControl.OfferVerdict
import AmoAnalytics.CrmControl.SemanticText
import AmoAnalytics.CrmControl.SemanticValidation
import AmoAnalytics.CrmControl.SemanticPolicy
import AmoAnalytics.CrmControl.SemanticVerdict
import AmoAnalytics.Amo.Connection
import AmoAnalytics.Amo.Reconcile
import AmoAnalytics.Amo.SyncJob
import AmoAnalytics.Amo.ConnectionWrites
import AmoAnalytics.Amo.JobOwnership
import AmoAnalytics.Amo.TokenRefresh
import AmoAnalytics.Lib.VersionedEdit
import AmoAnalytics.Reports.SnapshotQueue
import AmoAnalytics.Reports.SnapshotPrograms
import AmoAnalytics.Reports.RefreshSafety
import AmoAnalytics.Reports.PublishOrder
import AmoAnalytics.Workspaces.RivileSales
import AmoAnalytics.Workspaces.RivileLease
import AmoAnalytics.Workspaces.VersionedEdits
import AmoAnalytics.Workspaces.ShipmentLinkPolicy
import AmoAnalytics.Workspaces.CommercialLinks
import AmoAnalytics.Workspaces.ShipmentLinks
import AmoAnalytics.Quality.Incidents
import AmoAnalytics.Quality.IncidentLifecycle
import AmoAnalytics.Platform.QualityNotifications
import AmoAnalytics.Platform.NotificationRetry
import AmoAnalytics.Platform.GroupMessages
import AmoAnalytics.Platform.GroupDelivery
import AmoAnalytics.Lib.Actors
import AmoAnalytics.Platform.TelegramPause
import AmoAnalytics.Platform.PauseSafety
import AmoAnalytics.Lib.DirectoryScan
import AmoAnalytics.BrowserSession.Lease
import AmoAnalytics.BrowserSession.Directory
import AmoAnalytics.BrowserSession.Bakery
import AmoAnalytics.BrowserSession.LeaseSafety
import AmoAnalytics.BrowserSession.DeadEntries
import AmoAnalytics.Evidence.CaptureQueue
import AmoAnalytics.Evidence.CaptureHistory
import AmoAnalytics.Evidence.CaptureLease
import AmoAnalytics.Onboarding.Invitations
import AmoAnalytics.Onboarding.InvitationSafety
import AmoAnalytics.CrmControl.FactClock
import AmoAnalytics.CrmControl.AnalysisEffect
import AmoAnalytics.CrmControl.AnalysisProjection
import AmoAnalytics.CrmControl.ReadyJobs
import AmoAnalytics.CrmControl.SemanticFindings
import AmoAnalytics.CrmControl.AnalysisProof
import AmoAnalytics.CrmControl.DeadlineCalendar
import AmoAnalytics.CrmControl.BatchEffect
import AmoAnalytics.CrmControl.ManualRetry
import AmoAnalytics.Amo.EventWindows
import AmoAnalytics.Amo.RecentDeals
import AmoAnalytics.Amo.DealSnapshot
import AmoAnalytics.Amo.WebhookGroups
import AmoAnalytics.Amo.StageProbability
import AmoAnalytics.Lib.CountedTime
import AmoAnalytics.Common.BusinessTime
import AmoAnalytics.Lib.Endless
import AmoAnalytics.Amo.RequestSlots
import AmoAnalytics.Amo.SlotProgress
import AmoAnalytics.Lib.JsEqual
import AmoAnalytics.Amo.WebhookBody
import AmoAnalytics.Amo.WebhookDecode
import AmoAnalytics.Amo.WebhookRoundTrip
import AmoAnalytics.Lib.Select
import AmoAnalytics.Facts.FactMarts
import AmoAnalytics.Facts.IncrementalRefresh
import AmoAnalytics.CrmControl.ChatBinding
import AmoAnalytics.CrmControl.ChatMessage
import AmoAnalytics.CrmControl.ArchivedSources
import AmoAnalytics.CrmControl.SourceLimits
import AmoAnalytics.Reports.ComputeSlots
import AmoAnalytics.Reports.ForecastModel
import AmoAnalytics.Reports.ForecastFeatures
import AmoAnalytics.Lib.JsonNumber
import AmoAnalytics.Lib.Json
import AmoAnalytics.Lib.JsonOrder
import AmoAnalytics.CrmControl.SemanticIdentity
import AmoAnalytics.Lib.SortedInsert
import AmoAnalytics.Quality.ReportQuality
import AmoAnalytics.Lib.JsonRead
import AmoAnalytics.Lib.Collected
import AmoAnalytics.CrmControl.SourceMessage
import AmoAnalytics.CrmControl.SourceIndex
import AmoAnalytics.CrmControl.SourcePartition
import AmoAnalytics.CrmControl.SourceClasses
import AmoAnalytics.Lib.Effect
import AmoAnalytics.CrmControl.ChatHistory
import AmoAnalytics.CrmControl.ChatCompleteness
import AmoAnalytics.CrmControl.ChatService
import AmoAnalytics.CrmControl.ChatExactness
import AmoAnalytics.Lib.DateText
import AmoAnalytics.Reports.ReportPeriod
import AmoAnalytics.Lib.FirstLeast
import AmoAnalytics.Reports.SalesStart
import AmoAnalytics.Reports.DealForecast
import AmoAnalytics.Reports.ForecastRefs
import AmoAnalytics.Reports.RevenueForecast
import AmoAnalytics.Reports.RevenueBuckets
import AmoAnalytics.Reports.StageSuccess
import AmoAnalytics.Reports.StageObservations
import AmoAnalytics.Reports.StageEventCounts
import AmoAnalytics.Reports.FilterAgreement
import AmoAnalytics.Workspaces.Shipments
import AmoAnalytics.Lib.CivilCalendar
import AmoAnalytics.Lib.CellSum
import AmoAnalytics.Workspaces.PerformancePeriod
import AmoAnalytics.Workspaces.Performance
import AmoAnalytics.Workspaces.PerformanceSums
import AmoAnalytics.Workspaces.PerformanceTotals
import AmoAnalytics.Workspaces.UniqueCredit
import AmoAnalytics.Platform.PlanFactCalendar
import AmoAnalytics.Platform.PlanFact
import AmoAnalytics.Platform.PlanFactPace
import AmoAnalytics.Platform.PlanFactShipping
import AmoAnalytics.Platform.PlanFactUpdate
import AmoAnalytics.Platform.TelegramLinks
import AmoAnalytics.Platform.TelegramLinkSafety
import AmoAnalytics.Platform.CrmDeliveries
import AmoAnalytics.Platform.LeadReminder
import AmoAnalytics.Common.WeekdayTime
import AmoAnalytics.Platform.StaleStages
import AmoAnalytics.Lib.WeightedIncrements
import AmoAnalytics.Reports.JointProbability
import AmoAnalytics.Reports.StageAge
import AmoAnalytics.Platform.MassMoves
import AmoAnalytics.Lib.DecimalRounding
import AmoAnalytics.Workspaces.RivileDocuments
import AmoAnalytics.Lib.WeightedScan
import AmoAnalytics.Reports.DurationQuantile
import AmoAnalytics.Platform.ReportSchedules
import AmoAnalytics.CrmControl.ChatDirection
import AmoAnalytics.CrmControl.CallMerge
import AmoAnalytics.Lib.LabelTree
import AmoAnalytics.CrmControl.DocxText
import AmoAnalytics.CrmControl.DocxPartition
import AmoAnalytics.Lib.PromiseChain
import AmoAnalytics.CrmControl.SharedSession
import AmoAnalytics.CrmControl.SharedSessionInvariant
import AmoAnalytics.CrmControl.SharedSessionRun
import AmoAnalytics.CrmControl.Scheduler
import AmoAnalytics.CrmControl.SemanticExcerpts
