import Symphony.Proof.ChainInvariant
import Symphony.Proof.CommitOrder
import Symphony.Proof.InitialSync
import Symphony.Proof.Snapshot
import Symphony.Spec.UtxoSet
import Symphony.Sync.UtxoSpec
import Symphony.Sync.UtxoRun
import Symphony.Proof.History
import Symphony.Proof.UtxoExact
import Symphony.Sync.Determinism
import Symphony.Proof.Replay
import Symphony.Proof.Horizon
import Symphony.Proof.Isolation
import Symphony.Proof.CacheTransparent
import Symphony.Storage.MergeSpec
import Symphony.Storage.TaskCalls
import Symphony.Storage.CounterSpec
import Symphony.Storage.StoredTypes
import Symphony.Lib.LexRange
import Symphony.Storage.RangeSpec
import Symphony.Proof.TxCounts
import Symphony.Proof.Filed
import Symphony.Proof.Restart
import Symphony.Proof.Locator
import Symphony.Proof.ConcurrentLocator
import Symphony.Proof.PullChain
import Symphony.Proof.TxRule
import Symphony.Sync.OwnedIndex
import Symphony.Sync.UtxosByAddress
import Symphony.Proof.AddressIndex
import Symphony.Sync.Charms
import Symphony.Proof.CharmsIndex
import Symphony.Sync.RuneFlow
import Symphony.Sync.Runes
import Symphony.Sync.RuneFlowSpec
import Symphony.Proof.RuneConservation
import Symphony.Sync.MappedTable
import Symphony.Sync.RuneTables
import Symphony.Proof.RuneCall
import Symphony.Proof.RuneRun
import Symphony.Lib.Holdings
import Symphony.Proof.RuneSupply
import Symphony.Proof.TxPoints
import Symphony.Proof.RuneNames
import Symphony.Sync.ScriptTotal
import Symphony.Proof.RuneMints
import Symphony.Serve.RuneRoutes
import Symphony.Proof.RuneScans
import Symphony.Proof.RuneUtxos
import Symphony.Proof.RuneBalances
import Symphony.Proof.RuneRecords
import Symphony.Proof.RuneActivity
import Symphony.Proof.LocatorShape
import Symphony.Serve.RuneIdentifier
import Symphony.Proof.RuneIdentifiers
import Symphony.Proof.RuneCompletion
import Symphony.Sync.Overflow
import Symphony.Proof.RuneBounds
import Symphony.Proof.CrashSafety
import Symphony.Proof.PipelineInStep
import Symphony.Proof.SyncConverges
import Symphony.Proof.PullLoopRefines
import Symphony.Proof.OwnedScans
import Symphony.Proof.ServedMoments
import Symphony.Proof.AddressResponses
import Symphony.Proof.EnabledIndexers
import Symphony.Proof.CharmResponses
import Symphony.Proof.CharmIntegrity
import Symphony.Proof.RuneInfoResponses
import Symphony.Proof.RuneBalanceResponses
import Symphony.Spec.Exchange
import Symphony.Lib.Carrier
import Symphony.Proof.SessionRefines
import Symphony.Proof.SessionAnswers
import Symphony.Proof.SessionFetch
import Symphony.Lib.Budget
import Symphony.Proof.FetchBudget
import Symphony.Proof.FetchEnds
