import Mathlib.Data.BitVec
import AssertionExecution.Library.ParallelMap
import AssertionExecution.Model.Executor

/-!
# Assertions on worker threads

The executor hands the triggered assertions, and the selected functions of each one, to a pool of
worker threads, whose steps may interleave in any way. The functions of an assertion share two
atomic counters.
-/

namespace AssertionExecution

/-- The result of the call, whether it deployed the assertion or ran it. -/
def AssertionFunctionResult.asResult (r : AssertionFunctionResult) : EvmExecutionResult :=
  match r.result with
  | .assertionContractDeployFailure result => result
  | .assertionExecutionResult result => result

/-- The gas of all assertions. The sum wraps around. -/
def TxValidationResult.totalAssertionsGas (r : TxValidationResult) : Nat :=
  (r.assertionsExecutions.map (·.totalAssertionGas)).sum % 2 ^ 64

def TxValidationResult.totalAssertionFuncsRan (r : TxValidationResult) : Nat :=
  (r.assertionsExecutions.map (·.totalAssertionFuncsRan)).sum % 2 ^ 64

namespace AssertionExecutor

open EffectLogic ParallelMap

variable {ExtDb ExtErr Active ActiveErr : Type}

/-- `assertion_gas` and `assertions_ran`. They wrap around. -/
abbrev Counters := BitVec 64 × BitVec 64

/-- Calls a function and then adds the gas it used and the call itself to the counters. Nothing
is added when the EVM fails. -/
def fnTask (self : AssertionExecutor) (evm : Evm ExtDb ExtErr Active ActiveErr)
    (assertionContract : AssertionContract) (blockEnv : BlockEnv)
    (multiForkDb : MultiForkDb (ForkDb Active)) (context : PhEvmContext) (fnSelector : Selector) :
    Task Counters (Except ExecutorError AssertionFunctionResult) :=
  match self.executeAssertionFn evm assertionContract fnSelector blockEnv multiForkDb context with
  | .error e => ⟨[], .error e⟩
  | .ok (result, gasUsed) => ⟨[(.ofNat 64 gasUsed, 0), (0, 1)], .ok result⟩

abbrev FnPool (fnSelectors : List Selector) :=
  Pool (Fin fnSelectors.length) Counters (Except ExecutorError AssertionFunctionResult)

/-- The results in the order of the selectors, once all functions have returned, and the rest of
`run_assertion_contract`. -/
def contractOutcome {fnSelectors : List Selector} (pool : FnPool fnSelectors) :
    Option (Except ExecutorError AssertionContractExecution) :=
  ((List.finRange fnSelectors.length).mapM fun i => (pool.stage i).result).map fun resultsVec => do
    let validResults ← resultsVec.mapM id
    return { assertionFnsResults := validResults
             totalAssertionGas := pool.counter.1.toNat
             totalAssertionFuncsRan := pool.counter.2.toNat }

/-- The runs of the triggered assertions, each on its own copy of the forks. -/
def assertionJobs (self : AssertionExecutor) (evm : Evm ExtDb ExtErr Active ActiveErr)
    (it : Iteration) (blockEnv : BlockEnv) (multiForkDb : MultiForkDb (ForkDb Active))
    (logsAndTraces : LogsAndTraces) (assertions : List AssertionsForExecution) :
    Jobs (Fin assertions.length) (fun i => FnPool (assertions.get i).selectors)
      (fun i => Fin (assertions.get i).selectors.length) ExecutorError
      AssertionContractExecution where
  start _ := Pool.start
  turn i :=
    let assertion := assertions.get i
    let multiForkDb := insertAssertionContract it assertion.assertionContract multiForkDb
    Pool.turn fun j => self.fnTask evm assertion.assertionContract blockEnv multiForkDb
      ⟨logsAndTraces, assertion.adopter⟩ (assertion.selectors.get j)
  outcome _ := contractOutcome

/-- What `execute_assertions` may return: the assertions that were read, run by the workers in some
order and collected. -/
inductive ExecutesInParallel (self : AssertionExecutor) (evm : Evm ExtDb ExtErr Active ActiveErr)
    (fault : Nat → Bool) (it : Iteration) (blockEnv : BlockEnv)
    (multiForkDb : MultiForkDb (ForkDb Active)) (logsAndTraces : LogsAndTraces) :
    Except ExecutorError (List AssertionContractExecution) → Prop
  | unread {e : Failure AssertionStoreError}
      (h : (exec (AssertionStore.read fault it logsAndTraces.callTraces blockEnv.number)
        self.store).1 = .error e) :
      ExecutesInParallel self evm fault it blockEnv multiForkDb logsAndTraces
        (.error (.assertionReadError e))
  | collected {assertions : List AssertionsForExecution}
      (h : (exec (AssertionStore.read fault it logsAndTraces.callTraces blockEnv.number)
        self.store).1 = .ok assertions)
      (moves : List (Move (Fin assertions.length)
        fun i => Fin (assertions.get i).selectors.length))
      (hcomplete : (Collection.run (self.assertionJobs evm it blockEnv multiForkDb logsAndTraces
        assertions) moves).Complete) :
      ExecutesInParallel self evm fault it blockEnv multiForkDb logsAndTraces
        (Collection.run (self.assertionJobs evm it blockEnv multiForkDb logsAndTraces
          assertions) moves).collect

/-- `validate_transaction_ext_db` over an execution of the assertions. -/
def validateWith (self : AssertionExecutor) (evm : Evm ExtDb ExtErr Active ActiveErr)
    (it : Iteration) (blockEnv : BlockEnv) (txEnv : TxEnv) (forkDb : ForkDb Active)
    (externalDb : ExtDb)
    (execute : MultiForkDb (ForkDb Active) → LogsAndTraces →
      Except ExecutorError (List AssertionContractExecution)) :
    Except ExecutorError TxValidationResult × ForkDb Active × ExtDb :=
  match self.executeForkedTxExtDb evm it blockEnv txEnv forkDb externalDb with
  | (.error e, _, externalDb) => (.error e, forkDb, externalDb)
  | (.ok (txTraces, resultAndState), postTxDb, externalDb) =>
    if !resultAndState.result.isSuccess then
      (.ok ⟨true, resultAndState, []⟩, forkDb, externalDb)
    else
      match execute (MultiForkDb.new forkDb postTxDb) ⟨resultAndState.result.logs, txTraces⟩ with
      | .error e => (.error e, forkDb, externalDb)
      | .ok results =>
        if results.isEmpty then
          (.ok ⟨true, resultAndState, []⟩, forkDb.commit it resultAndState.state, externalDb)
        else
          let invalidAssertions :=
            (results.filter fun a => !a.assertionFnsResults.all (·.isSuccess)).flatMap
              fun a => a.assertionFnsResults.map (·.id)
          let valid := invalidAssertions.isEmpty
          (.ok ⟨valid, resultAndState, results⟩,
            if valid then forkDb.commit it resultAndState.state else forkDb, externalDb)

/-- What `validate_transaction_ext_db` may return when its assertions run on worker threads. -/
def ValidatesInParallel (self : AssertionExecutor) (evm : Evm ExtDb ExtErr Active ActiveErr)
    (fault : Nat → Bool) (it : Iteration) (blockEnv : BlockEnv) (txEnv : TxEnv)
    (forkDb : ForkDb Active) (externalDb : ExtDb)
    (outcome : Except ExecutorError TxValidationResult × ForkDb Active × ExtDb) : Prop :=
  ∃ execute, (∀ multiForkDb logsAndTraces, self.ExecutesInParallel evm fault it blockEnv
      multiForkDb logsAndTraces (execute multiForkDb logsAndTraces)) ∧
    outcome = self.validateWith evm it blockEnv txEnv forkDb externalDb execute

end AssertionExecutor

end AssertionExecution
