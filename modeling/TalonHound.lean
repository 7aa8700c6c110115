import TalonHound.ArtifactStorage.Backups
import TalonHound.AuthSessions.SessionBounds
import TalonHound.BulkQuery.Targets
import TalonHound.Candidates.AnalystRuns
import TalonHound.Candidates.BulkReview
import TalonHound.Candidates.CreateRuns
import TalonHound.Candidates.MembershipRuns
import TalonHound.Candidates.Overlay
import TalonHound.Candidates.SearchValue
import TalonHound.ChunkStore.ActiveFiles
import TalonHound.CustomFeeds.Redirects
import TalonHound.CustomFeeds.Sync
import TalonHound.DeepSearch.ResultPages
import TalonHound.FeedSync.SyncExclusion
import TalonHound.FileArtifacts.MergeInterleaving
import TalonHound.FileArtifacts.Readers
import TalonHound.FileArtifacts.SuppressionDeciders
import TalonHound.InferenceScheduler.Holders
import TalonHound.IocExpiration.PurgeAndExpiry
import TalonHound.IocExpiration.SuppressionKept
import TalonHound.IocList.ConfidenceViews
import TalonHound.IocList.PlainBrowse
import TalonHound.MalwareBazaar.Continuity
import TalonHound.MalwareBazaar.Recovery
import TalonHound.MalwareBazaar.RecoveryQueue
import TalonHound.PublishedFeed.ChunkText
import TalonHound.PublishedFeed.FilterEdits
import TalonHound.PublishedFeed.Reconciliation
import TalonHound.PublishedFeed.ValueUniqueness
import TalonHound.PublishedFeed.Watermark
import TalonHound.QueueRecovery.RecoveryRuns
import TalonHound.ReportLifecycle.Complete
import TalonHound.SearchJobs.Exports
import TalonHound.Stix.IndicatorTimes
import TalonHound.Taxii.Walk
import TalonHound.Thib.Import
import TalonHound.Thib.Integrity
import TalonHound.ThreatJobs.Fence
import TalonHound.ThreatJobs.Owners
import TalonHound.ThreatJobs.Requests
import TalonHound.Usom.AbsenceSkip
import TalonHound.Usom.BulkRules
import TalonHound.Usom.Convergence
import TalonHound.UsomCursor.Commits
import TalonHound.Candidates.Promotion
import TalonHound.IocSearch.TextConditions
import TalonHound.IocList.Contributors
import TalonHound.IocSources.Move
import TalonHound.RateLimit.Window
import TalonHound.FileArtifacts.AttachReturns
import TalonHound.FileArtifacts.ProviderRecord
