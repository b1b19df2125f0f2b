import AssertionExecution.Proofs.AbortedAttempts
import AssertionExecution.Proofs.AcceptedState
import AssertionExecution.Proofs.ActivityTimeline
import AssertionExecution.Proofs.AncestorSearch
import AssertionExecution.Proofs.BalanceTriggers
import AssertionExecution.Proofs.BatchOrder
import AssertionExecution.Proofs.BlockPruning
import AssertionExecution.Proofs.CallPartition
import AssertionExecution.Proofs.ChainEnforcement
import AssertionExecution.Proofs.ChunkedSync
import AssertionExecution.Proofs.CommitAgreement
import AssertionExecution.Proofs.ConcurrentReorg
import AssertionExecution.Proofs.DeepReorg
import AssertionExecution.Proofs.EventRemovals
import AssertionExecution.Proofs.ExternalLoads
import AssertionExecution.Proofs.FailedMoves
import AssertionExecution.Proofs.FilledEnvs
import AssertionExecution.Proofs.ForkIsolation
import AssertionExecution.Proofs.ForkLifecycle
import AssertionExecution.Proofs.MergedCommits
import AssertionExecution.Proofs.PersistentAccounts
import AssertionExecution.Proofs.PrecompileAnswers
import AssertionExecution.Proofs.Provenance
import AssertionExecution.Proofs.RecordUpdates
import AssertionExecution.Proofs.Registrations
import AssertionExecution.Proofs.RepricedRuns
import AssertionExecution.Proofs.ReservedAddresses
import AssertionExecution.Proofs.RetriedSync
import AssertionExecution.Proofs.RetryLoop
import AssertionExecution.Proofs.ServiceSession
import AssertionExecution.Proofs.SharedReads
import AssertionExecution.Proofs.SlotHistory
import AssertionExecution.Proofs.StoreLinearization
import AssertionExecution.Proofs.StoreProgress
import AssertionExecution.Proofs.StoreRecords
import AssertionExecution.Proofs.SyncExactness
import AssertionExecution.Proofs.TransientForks
import AssertionExecution.Proofs.TreeCoupling
import AssertionExecution.Proofs.TriggerSelection
import AssertionExecution.Proofs.ValidationAmidIndexing
import AssertionExecution.Proofs.Verdict
