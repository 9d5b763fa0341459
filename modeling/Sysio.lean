import Sysio.ApplyContext.ReadOnly
import Sysio.Authority.UsedKeys
import Sysio.BlockHeaderState.Forks
import Sysio.BlockHeaderState.Signee
import Sysio.BlockLog.Partitioned
import Sysio.ChainPlugin.TrxRetry
import Sysio.Controller.Acceptance
import Sysio.Controller.ActorList
import Sysio.Controller.Duplicates
import Sysio.Controller.FeatureActivation
import Sysio.Controller.LogRuns
import Sysio.ForkDatabase.Advance
import Sysio.ForkDatabase.Persistence
import Sysio.ForkDatabase.Stability
import Sysio.Log.CatalogRuns
import Sysio.NetPlugin.AutoBpPeering
import Sysio.NetPlugin.HeadCatchup
import Sysio.NetPlugin.SyncServing
import Sysio.Permission.Entitlement
import Sysio.ProducerPlugin.DoubleSigning
import Sysio.ResourceLimits.Elastic
import Sysio.ResourceLimits.Spendable
import Sysio.ResourceLimits.Totals
import Sysio.Roa.Arithmetic
import Sysio.Roa.SysioGrant
import Sysio.SnapshotScheduler
import Sysio.StateHistory.Deltas
import Sysio.StateHistory.NoHoles
import Sysio.SubChain.Linkage
import Sysio.TransactionContext.Greylist
import Sysio.UnappliedTransactionQueue
