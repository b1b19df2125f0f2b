import AssertionExecution.Library.Collect
import AssertionExecution.Model.Executor
import AssertionExecution.Proofs.StoreRead

/-!
# The verdict on a transaction

A transaction is valid exactly when every assertion function it selects succeeds, each on
its own copy of the two forks.
-/

namespace AssertionExecution

open EffectLogic HashMap Collect

namespace AssertionExecutor

variable {ExtDb ExtErr Active ActiveErr : Type}

/-- Runs a function of an assertion on a copy of the forks with its contract installed. -/
def runFn (self : AssertionExecutor) (evm : Evm ExtDb ExtErr Active ActiveErr) (it : Iteration)
    (blockEnv : BlockEnv) (multiForkDb : MultiForkDb (ForkDb Active))
    (logsAndTraces : LogsAndTraces) (adopter : Address) (contract : AssertionContract)
    (f : Selector) : Except ExecutorError (AssertionFunctionResult × Nat) :=
  self.executeAssertionFn evm contract f blockEnv
    (insertAssertionContract it contract multiForkDb) ⟨logsAndTraces, adopter⟩

section

variable {self : AssertionExecutor} {evm : Evm ExtDb ExtErr Active ActiveErr}
  {fault : Nat → Bool} {it : Iteration} {blockEnv : BlockEnv}
  {multiForkDb : MultiForkDb (ForkDb Active)} {logsAndTraces : LogsAndTraces}

lemma runAssertionContract_eq (adopter : Address) (contract : AssertionContract)
    (fs : List Selector) :
    self.runAssertionContract evm it contract fs blockEnv multiForkDb ⟨logsAndTraces, adopter⟩ =
      (fs.mapM (self.runFn evm it blockEnv multiForkDb logsAndTraces adopter contract)).map
        fun rs =>
          { assertionFnsResults := rs.map Prod.fst
            totalAssertionGas := (rs.map Prod.snd).sum % 2 ^ 64
            totalAssertionFuncsRan := rs.length } := by
  unfold runAssertionContract
  dsimp only
  rw [List.mapM_map]
  change fs.mapM (self.runFn evm it blockEnv multiForkDb logsAndTraces adopter contract) >>= _ = _
  cases fs.mapM (self.runFn evm it blockEnv multiForkDb logsAndTraces adopter contract) <;> rfl

lemma runAssertionContract_error {adopter : Address} {contract : AssertionContract}
    {fs : List Selector} {e : ExecutorError}
    (h : self.runAssertionContract evm it contract fs blockEnv multiForkDb
      ⟨logsAndTraces, adopter⟩ = .error e) :
    ∃ f ∈ fs, self.runFn evm it blockEnv multiForkDb logsAndTraces adopter contract f =
      .error e := by
  rw [runAssertionContract_eq] at h
  cases hruns : fs.mapM
      (self.runFn evm it blockEnv multiForkDb logsAndTraces adopter contract) with
  | error e' =>
    rw [hruns] at h
    cases h
    exact exists_error_of_mapM hruns
  | ok rs =>
    rw [hruns] at h
    cases h

end

/-- An EVM in which every transaction and every assertion call ends the same way. -/
def constantEvm (tracer : CallTracer) (tx : ResultAndState) (fnResult : EvmExecutionResult) :
    Evm Unit Unit Unit Unit where
  transactTx _ _ _ _ externalDb := (.ok (tracer, tx), externalDb)
  transactAssertion _ _ _ _ _ _ := .ok ⟨fnResult, ∅⟩
  precompileAddresses _ := []
  displayExtError _ := ""
  debugError _ := ""

end AssertionExecutor

end AssertionExecution
