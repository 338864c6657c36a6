import PreloopControl.Properties.Announcement
import PreloopControl.Properties.ForkGate
import PreloopControl.Properties.Records
import PreloopControl.Properties.TrustTiers
import PreloopControl.Properties.Environments
import PreloopControl.Properties.Webhooks
import PreloopControl.Properties.ParsedExpressions
import PreloopControl.Properties.Permissions
import PreloopControl.Properties.SecretCoverage
import PreloopControl.Properties.SuccessGate
import PreloopControl.Properties.ParseCache
import PreloopControl.Properties.StepUpdates
import PreloopControl.Properties.LiveLog
import PreloopControl.Properties.GithubBreaker
import PreloopControl.Properties.PauseCredit
import PreloopControl.Properties.Schedules
import PreloopControl.Properties.PagedClaim
import PreloopControl.Properties.LiveEvents
import PreloopControl.Properties.WatchdogCursor
import PreloopControl.Properties.RedeliveryClaims
import PreloopControl.Properties.RerunSelection
import PreloopControl.Properties.StarvationGrace
import PreloopControl.Properties.CallerFolding
import PreloopControl.Properties.DependencyDecisions
import PreloopControl.Properties.TokenRecipes
import PreloopControl.Properties.FileCommands
import PreloopControl.Properties.TokenAuthority
import PreloopControl.Properties.Matchers
import PreloopControl.Properties.Commands
import PreloopControl.Properties.LeaseRenewal
import PreloopControl.Properties.MemoryCaps
import PreloopControl.Properties.CommandFiles
import PreloopControl.Properties.StepMerging
import PreloopControl.Properties.CacheStaging
import PreloopControl.Properties.CacheDownloads
import PreloopControl.Properties.Comparisons
import PreloopControl.Properties.ExpressionSpans
import PreloopControl.Properties.Indexing
import PreloopControl.Properties.TokenEmitters
import PreloopControl.Properties.StatusFunctions
import PreloopControl.Properties.FormatStrings
import PreloopControl.Properties.DeferredReads
import PreloopControl.Properties.LogBookkeeping
import PreloopControl.Properties.CommandEffects
import PreloopControl.Properties.CommandFence
import PreloopControl.Properties.StepNames
import PreloopControl.Properties.NeedsGraph
import PreloopControl.Properties.MatrixExpansion
import PreloopControl.Properties.TriggerFilters
import PreloopControl.Properties.ContextData
import PreloopControl.Properties.DeferredMatrix
