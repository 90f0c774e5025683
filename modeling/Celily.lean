import Celily.RustText
import Celily.SegmentedLists
import Celily.InternetAddresses
import Celily.PathPrefixes
import Celily.BridgeSubnets
import Celily.NetworkRules
import Celily.QuotaWindows
import Celily.HeaderMaps
import Celily.ProxyHandler
import Celily.SecretFlow
import Celily.LockedSections
import Celily.ConcurrentRequests
import Celily.LaunchSecrets
import Celily.RunningFirewall
import Celily.RunOutcomes
import Celily.ErrexitScripts
import Celily.WorktreeInit
import Celily.EmbeddedTasks
import Celily.HostChecks
import Celily.OwnCommands
import Celily.WholeRuns
import Celily.ConcurrentRuns
import Celily.EgressAcl
import Celily.HostPaths
import Celily.Devices
import Celily.JoinedTasks
import Celily.InstanceLifecycle
import Celily.LifecycleTraces
import Celily.IsolatedStart
import Celily.TaskTriples
import Celily.Teardown
import Celily.HostFiles
import Celily.HomeSymlinks
import Celily.MountValidation
import Celily.InstanceNames
import Celily.ProxySockets
import Celily.ConfigRules
import Celily.Configuration
import Celily.ContextResolution
import Celily.MountBoundary
import Celily.ConfigProtection
import Celily.ConfigTrust
import Celily.WorktreeIsolation
import Celily.QuotaClocks
import Celily.QuotaAccounting
import Celily.HeaderInjection
import Celily.DnsHandler
import Celily.AtomicScripts
import Celily.GitConfig
import Celily.GitRemote
import Celily.RegisterErrors
import Celily.RegisterRaces
import Celily.ScriptPools
import Celily.RemoteHistories
import Celily.SandboxFetch
import Celily.SocketBoundary
import Celily.SecretResolution
import Celily.ChainWalks
import Celily.ProfileInheritance
import Celily.GreatestScans
import Celily.ProfileDetection
import Celily.ConfigMerging
import Celily.ExtPolicy
import Celily.ExtUrl
import Celily.LxcArguments
import Celily.CommandEnvironment
import Celily.MountParents
import Celily.DeviceArguments
import Celily.SegmentPrefixes
import Celily.PercentEncoding
import Celily.TildeExpansion
import Celily.GeneratedNames
import Celily.HereDocuments
import Celily.PreRunScripts
import Celily.LiveRules
import Celily.FlagWords
import Celily.LxcCommands
import Celily.InstanceCreation
import Celily.IssuedCommands
