import Stynx.TransactionalCommandRuns
import Stynx.MemoryFramesRollback
import Stynx.OfflineSyncBatchReplay
import Stynx.OfflineSyncEvidence
import Stynx.FlowDecisionRaces
import Stynx.MigrationRunner
import Stynx.ArchiveCopies
import Stynx.ArchiveRestoreFamilies
import Stynx.NestedTransactions
import Stynx.TransactionSessions
import Stynx.SignatureManifestRoundTrip
import Stynx.SequentialEnvelopes
import Stynx.MigrationLinter
import Stynx.RedisRateLimit
import Stynx.RedisSessionRevocation
import Stynx.RedisSessionTokens
import Stynx.MemorySessionReuse
import Stynx.MemorySessionPolicy
import Stynx.RevocationListRuns
import Stynx.JobQueueCeiling
import Stynx.JobScheduleRuns
import Stynx.OutboxStreamLaw
import Stynx.TenantAdmissionRuns
import Stynx.NotificationDispatchLaw
import Stynx.TenantMutationLaw
import Stynx.CronNextRun
import Stynx.SessionRegistrationRuns
import Stynx.EffectiveHashLaw
import Stynx.FlowDispatchCounts
import Stynx.StableStringify
import Stynx.OfflineSyncPayloads
import Stynx.OfflineSyncInstants
import Stynx.OfflineSyncListing
import Stynx.OfflineSyncReservationReplays
import Stynx.OfflineSyncRangeStatus
import Stynx.PermissionCacheRuns
import Stynx.OutboxDestinations
import Stynx.OutboxLegacyRuns
import Stynx.PdfDictionaryKeys
import Stynx.PrivacyCsv
import Stynx.WorklistListing
import Stynx.FlowTaskStatus
import Stynx.AuditPreimages
import Stynx.IdempotencyExpiry
import Stynx.OutboxEventUuids
import Stynx.BusinessCalendar
import Stynx.MobileDraftHashes
import Stynx.MobileSubmissions
import Stynx.IntegrationAdapter
import Stynx.PreferenceRevisions
import Stynx.AuditRedaction
import Stynx.FlowGraphPackages
