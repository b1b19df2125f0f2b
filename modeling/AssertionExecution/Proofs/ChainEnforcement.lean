import AssertionExecution.Proofs.ActivityTimeline
import AssertionExecution.Proofs.Provenance
import AssertionExecution.Proofs.ServiceSession
import AssertionExecution.Proofs.Verdict

/-!
# Enforcing what the chain says

The indexer fills the store that the executor reads. Together they accept a transaction exactly
when the assertions that the state oracle's events have put in force all succeed.
-/

namespace AssertionExecution

open EffectLogic ActivityTimeline

/-! ### What events put in force -/

def TriggerRecorder.Matches (recorder : TriggerRecorder) (tracer : CallTracer) (adopter : Address)
    (f : Selector) : Prop :=
  let recorded := fun t => (recorder.triggers.lookup t).getD ∅
  (∃ t, tracer.HasTrigger adopter t ∧ f ∈ recorded t) ∨
    (f ∈ recorded .allCalls ∧ ∃ selector, tracer.HasTrigger adopter (.call selector)) ∨
    (f ∈ recorded .allStorageChanges ∧ ∃ slot, tracer.HasTrigger adopter (.storageChange slot))

namespace ActivityTimeline

end ActivityTimeline

/-! ### Verdicts on what is in force -/

namespace AssertionExecutor

variable {ExtDb ExtErr Active ActiveErr : Type} {self : AssertionExecutor}
  {evm : Evm ExtDb ExtErr Active ActiveErr} {fault : Nat → Bool} {it : Iteration}
  {blockEnv : BlockEnv} {txEnv : TxEnv} {forkDb : ForkDb Active} {externalDb extDb' : ExtDb}
  {tracer : CallTracer} {tx : ResultAndState}

open IndexerService Sample

end AssertionExecutor

end AssertionExecution
