import UploadService.Lib.Prog
import UploadService.Lib.Rows
import UploadService.Lib.Runs
import UploadService.Lib.Leader
import UploadService.Config.Vault
import UploadService.Release.Subscriber
import UploadService.Release.SortOrder
import UploadService.Config.Targeting
import UploadService.Config.Versions
import UploadService.Policy.Listing
import UploadService.Access.Guarded
import UploadService.Release.Terminal
import UploadService.Life.ReadOnly
import UploadService.Life.LatestRuns
import UploadService.Life.SupportRuns
import UploadService.Life.RecoveryRuns
import UploadService.Config.Reads
import UploadService.Life.Links
import UploadService.Config.Affected
import UploadService.Config.Activation
import UploadService.Life.SyncPass
import UploadService.Life.Cascade
import UploadService.Life.Digests
import UploadService.Life.Downloads
import UploadService.Life.Checksums
import UploadService.Life.ChecksumRuns
import UploadService.Config.Isolation
import UploadService.Config.Dangling
import UploadService.Config.Shown
import UploadService.Config.ReadPaths
import UploadService.Config.SecretCalls
import UploadService.Policy.Atomicity
import UploadService.Policy.Fields
import UploadService.Policy.Lookup
import UploadService.Policy.KeptTargets
import UploadService.Life.Compliance
import UploadService.Life.ScanRequests
import UploadService.Life.Totals
import UploadService.Life.TotalRuns
import UploadService.Life.RoundTrip
import UploadService.Access.AnyAccess
import UploadService.Access.Hops
import UploadService.Jobs.Exclusion
import UploadService.Life.ImportPhases
import UploadService.Life.ImportRuns
import UploadService.Policy.Spread
import UploadService.Policy.SpreadContext
import UploadService.Policy.SpreadLosses
import UploadService.Policy.SpreadEvaluation
import UploadService.Policy.SpreadRules
import UploadService.Policy.SpreadReach
import UploadService.Lib.Matching
import UploadService.Policy.Identifiers
import UploadService.Life.Orphans
import UploadService.Lib.Ending
import UploadService.Lib.Pages
import UploadService.Life.PendingPass
import UploadService.Life.PendingRuns
import UploadService.Lib.Places
import UploadService.Config.Shelves
import UploadService.Config.Positions
import UploadService.Config.Changes
import UploadService.Config.Bumps
import UploadService.Release.UploadSteps
import UploadService.Life.UploadFlags
import UploadService.Life.UploadRuns
import UploadService.Map.Geometry
import UploadService.Life.DeploymentCounts
import UploadService.Access.Permissions
import UploadService.Release.Enforcement
import UploadService.Rpc.Errors
import UploadService.Release.Manifests
import UploadService.Release.ObjectKeys
import UploadService.Release.SortMigration
import UploadService.Access.RoleConvergence
import UploadService.Config.CacheRuns
import UploadService.Policy.FieldNames
import UploadService.Config.SecretNames
import UploadService.Patterns
import UploadService.Access.ProjectIdentifiers
import UploadService.JsonCuts
import UploadService.Config.CacheBytes
import UploadService.Config.DottedPaths
import UploadService.Config.ProjectCache
import UploadService.Lib.Parts
import UploadService.Config.DraftCopies
import UploadService.Config.Submissions
