import AssertionExecution.Model.AssertionStore
import AssertionExecution.Model.MultiForkDb

/-!
# The assertion executor

EVM execution is a parameter: what a transaction does to an external database, and what
an assertion call returns over a multi-fork database.
-/

namespace AssertionExecution

open EffectLogic

structure ExecutorConfig where
  specId : Nat
  chainId : Nat
  assertionGasLimit : Nat
deriving DecidableEq, Repr

/-- `EVMError`, with the payloads of the error variants that carry a text. -/
inductive EvmError (DbError : Type) where
  | transaction (e : String)
  | header (e : String)
  | database (e : DbError)
  | custom (e : String)
  | precompile (e : String)
deriving DecidableEq, Repr

inductive ExecutorError where
  | txError (e : EvmError Empty)
  | assertionReadError (e : Failure AssertionStoreError)
deriving DecidableEq

structure AssertionFnId where
  fnSelector : Selector
  assertionContractId : B256
deriving DecidableEq, Repr

inductive AssertionFunctionExecutionResult where
  | assertionContractDeployFailure (result : EvmExecutionResult)
  | assertionExecutionResult (result : EvmExecutionResult)
deriving DecidableEq, Repr

structure AssertionFunctionResult where
  id : AssertionFnId
  result : AssertionFunctionExecutionResult
deriving DecidableEq, Repr

def AssertionFunctionResult.isSuccess (r : AssertionFunctionResult) : Bool :=
  match r.result with
  | .assertionExecutionResult result => result.isSuccess
  | .assertionContractDeployFailure _ => false

structure AssertionContractExecution where
  assertionFnsResults : List AssertionFunctionResult
  totalAssertionGas : Nat
  totalAssertionFuncsRan : Nat
deriving DecidableEq, Repr

structure TxValidationResult where
  transactionValid : Bool
  resultAndState : ResultAndState
  assertionsExecutions : List AssertionContractExecution

structure LogsAndTraces where
  txLogs : List EvmLog
  callTraces : CallTracer

structure PhEvmContext where
  logsAndTraces : LogsAndTraces
  adopter : Address

structure PhEvmInspector where
  initJournaledState : JournaledState
  context : PhEvmContext

/-- The EVM: transactions over an external database, assertion calls over a multi-fork one. -/
structure Evm (ExtDb ExtErr Active ActiveErr : Type) where
  /-- Runs a transaction under a `CallTracer`; the external database may cache what it reads. -/
  transactTx : TxEnv → BlockEnv → (chainId specId : Nat) → ExtDb →
    Except (EvmError ExtErr) (CallTracer × ResultAndState) × ExtDb
  /-- Runs a call under a `PhEvmInspector`. -/
  transactAssertion : TxEnv → BlockEnv → (chainId specId : Nat) →
    MultiForkDb (ForkDb Active) → PhEvmInspector →
    Except (EvmError ActiveErr) ResultAndState
  /-- The precompile addresses of a spec, which a fresh journaled state holds warm. -/
  precompileAddresses : Nat → List Address
  displayExtError : EvmError ExtErr → String
  debugError : EvmError ActiveErr → String

/-- Installs the account whose calls the inspector answers. -/
def insertPrecompileAccount {Db : Type} (db : MultiForkDb Db) : MultiForkDb Db :=
  { db with
    activeDb := (db.activeDb.insertAccountInfo precompileAddress
      { AccountInfo.default with code := some [0x45] }).hideInnerStorage precompileAddress }

/-- `PhEvmInspector::new`: the inspector starts forks it has not seen from an empty state. -/
def PhEvmInspector.new {Db : Type} (precompileAddresses : List Address) (db : MultiForkDb Db)
    (context : PhEvmContext) : PhEvmInspector × MultiForkDb Db :=
  (⟨.new precompileAddresses, context⟩, insertPrecompileAccount db)

structure AssertionExecutor where
  config : ExecutorConfig
  store : AssertionStore

namespace AssertionExecutor

variable {ExtDb ExtErr Active ActiveErr : Type}

/-- The error of a transaction run, kept except for errors of the external database. -/
def mapTxError (evm : Evm ExtDb ExtErr Active ActiveErr) : EvmError ExtErr → ExecutorError
  | .transaction e => .txError (.transaction e)
  | .header e => .txError (.header e)
  | .precompile e => .txError (.precompile e)
  | .custom e => .txError (.custom e)
  | e => .txError (.custom ("Error: " ++ evm.displayExtError e))

/-- Runs a transaction against the external database and commits it to `forkDb`. -/
def executeForkedTxExtDb (self : AssertionExecutor) (evm : Evm ExtDb ExtErr Active ActiveErr)
    (it : Iteration) (blockEnv : BlockEnv) (txEnv : TxEnv) (forkDb : ForkDb Active)
    (externalDb : ExtDb) :
    Except ExecutorError (CallTracer × ResultAndState) × ForkDb Active × ExtDb :=
  match evm.transactTx txEnv blockEnv self.config.chainId self.config.specId externalDb with
  | (.error e, externalDb) => (.error (mapTxError evm e), forkDb, externalDb)
  | (.ok (callTracer, resultAndState), externalDb) =>
    (.ok (callTracer, resultAndState), forkDb.commit it resultAndState.state, externalDb)

/-- Installs an assertion contract and the caller above both forks. -/
def insertAssertionContract (it : Iteration) (assertionContract : AssertionContract)
    (multiForkDb : MultiForkDb (ForkDb Active)) : MultiForkDb (ForkDb Active) :=
  let account : Account :=
    { info :=
        { nonce := 1
          balance := u256Max
          code := some assertionContract.deployedCode
          codeHash := assertionContract.codeHash }
      storage := assertionContract.storage
      status := assertionContract.accountStatus }
  let callerAccount : Account :=
    { info := { AccountInfo.default with nonce := 42, balance := u256Max }
      storage := ∅
      status := { touched := true } }
  let state : EvmState :=
    ((∅ : EvmState).insert assertionContractAddress account).insert callerAddress callerAccount
  let committed := multiForkDb.commit it state
  { committed with
    activeDb := (committed.activeDb.hideInnerStorage assertionContractAddress).hideInnerStorage
      callerAddress }

def executeAssertionFn (self : AssertionExecutor) (evm : Evm ExtDb ExtErr Active ActiveErr)
    (assertionContract : AssertionContract) (fnSelector : Selector) (blockEnv : BlockEnv)
    (multiForkDb : MultiForkDb (ForkDb Active)) (context : PhEvmContext) :
    Except ExecutorError (AssertionFunctionResult × Nat) :=
  let (inspector, multiForkDb) :=
    PhEvmInspector.new (evm.precompileAddresses self.config.specId) multiForkDb context
  let txEnv : TxEnv :=
    { transactTo := .call assertionContractAddress
      caller := callerAddress
      data := toBytes 4 fnSelector.toNat
      gasLimit := self.config.assertionGasLimit
      gasPrice := blockEnv.basefee
      value := 0 }
  match evm.transactAssertion txEnv blockEnv self.config.chainId self.config.specId multiForkDb
      inspector with
  | .error e => .error (.txError (.custom (evm.debugError e)))
  | .ok resultAndState =>
    .ok (⟨⟨fnSelector, assertionContract.id⟩, .assertionExecutionResult resultAndState.result⟩,
      resultAndState.result.gasUsed)

/-- Runs the selected functions of an assertion, each on its own copy of the database. -/
def runAssertionContract (self : AssertionExecutor) (evm : Evm ExtDb ExtErr Active ActiveErr)
    (it : Iteration) (assertionContract : AssertionContract) (fnSelectors : List Selector)
    (blockEnv : BlockEnv) (multiForkDb : MultiForkDb (ForkDb Active)) (context : PhEvmContext) :
    Except ExecutorError AssertionContractExecution := do
  let multiForkDb := insertAssertionContract it assertionContract multiForkDb
  let resultsVec := fnSelectors.map fun fnSelector =>
    self.executeAssertionFn evm assertionContract fnSelector blockEnv multiForkDb context
  let validResults ← resultsVec.mapM id
  return { assertionFnsResults := validResults.map Prod.fst
           totalAssertionGas := (validResults.map Prod.snd).sum % 2 ^ 64
           totalAssertionFuncsRan := validResults.length }

def executeAssertions (self : AssertionExecutor) (evm : Evm ExtDb ExtErr Active ActiveErr)
    (fault : Nat → Bool) (it : Iteration) (blockEnv : BlockEnv)
    (multiForkDb : MultiForkDb (ForkDb Active)) (logsAndTraces : LogsAndTraces) :
    Except ExecutorError (List AssertionContractExecution) :=
  match (exec (AssertionStore.read fault it logsAndTraces.callTraces blockEnv.number)
      self.store).1 with
  | .error e => .error (.assertionReadError e)
  | .ok assertions =>
    if assertions.isEmpty then .ok []
    else assertions.mapM fun assertionForExecution =>
      self.runAssertionContract evm it assertionForExecution.assertionContract
        assertionForExecution.selectors blockEnv multiForkDb
        ⟨logsAndTraces, assertionForExecution.adopter⟩

/-- Executes a transaction against an external database and runs its assertions. Returns
the result, the caller's fork database and the external database. -/
def validateTransactionExtDb (self : AssertionExecutor) (evm : Evm ExtDb ExtErr Active ActiveErr)
    (fault : Nat → Bool) (it : Iteration) (blockEnv : BlockEnv) (txEnv : TxEnv)
    (forkDb : ForkDb Active) (externalDb : ExtDb) :
    Except ExecutorError TxValidationResult × ForkDb Active × ExtDb :=
  let preTxDb := forkDb
  match self.executeForkedTxExtDb evm it blockEnv txEnv forkDb externalDb with
  | (.error e, _, externalDb) => (.error e, forkDb, externalDb)
  | (.ok (txTraces, resultAndState), postTxDb, externalDb) =>
    -- An unsuccessful transaction skips the assertions and returns before any commit.
    if !resultAndState.result.isSuccess then
      (.ok ⟨true, resultAndState, []⟩, forkDb, externalDb)
    else
      let multiForkDb := MultiForkDb.new preTxDb postTxDb
      let logsAndTraces : LogsAndTraces := ⟨resultAndState.result.logs, txTraces⟩
      match self.executeAssertions evm fault it blockEnv multiForkDb logsAndTraces with
      | .error e => (.error e, forkDb, externalDb)
      | .ok results =>
        if results.isEmpty then
          (.ok ⟨true, resultAndState, []⟩, forkDb.commit it resultAndState.state, externalDb)
        else
          let invalidAssertions :=
            (results.filter fun a => !a.assertionFnsResults.all (·.isSuccess)).flatMap
              fun a => a.assertionFnsResults.map (·.id)
          let valid := invalidAssertions.isEmpty
          (.ok ⟨valid, resultAndState, results⟩,
            if valid then forkDb.commit it resultAndState.state else forkDb, externalDb)

end AssertionExecutor

end AssertionExecution
