import AssertionExecution.Model.Indexer

/-!
# The contract extractor

Deploys an assertion contract on an in-memory database and calls its `triggers()` under a
`TriggerRecorder`. The database, the hash and the EVM are parameters.
-/

namespace AssertionExecution

inductive FnSelectorExtractorError where
  | triggersCallError (e : EvmError Empty)
  | triggersCallFailed (result : ResultAndState)
  | assertionContractDeployError (e : EvmError Empty)
  | assertionContractDeployFailed (result : ResultAndState)
  | noTriggersRecorded
  | assertionContractNotFound
  | assertionContractNoCode

/-- An in-memory database and the EVM over it. -/
structure ExtractorEvm (Db : Type) where
  keccak256 : Bytes → B256
  /-- `InMemoryDB::default()` -/
  emptyDb : Db
  commit : Db → EvmState → Db
  insertAccountInfo : Db → Address → AccountInfo → Db
  transact : TxEnv → BlockEnv → (chainId specId : Nat) → Db → Except (EvmError Empty) ResultAndState
  /-- Runs a transaction under a `TriggerRecorder`. -/
  transactTriggers : TxEnv → BlockEnv → (chainId specId : Nat) → Db →
    Except (EvmError Empty) (ResultAndState × TriggerRecorder)

namespace ContractExtractor

/-- `DEPLOYMENT_GAS_LIMIT` -/
def deploymentGasLimit : Nat := 20000000

/-- `triggersCall::SELECTOR` -/
def triggersSelector : Selector := 0x7bbb19dc

variable {Db : Type}

/-- Installs the account whose calls the trigger recorder answers. -/
def insertTriggerRecorderAccount (evm : ExtractorEvm Db) (db : Db) : Db :=
  evm.insertAccountInfo db triggerRecorderAddress { AccountInfo.default with code := some [0x45] }

def deployTx (assertionCode : Bytes) : TxEnv where
  caller := callerAddress
  gasLimit := deploymentGasLimit
  gasPrice := 0
  transactTo := .create
  value := 0
  data := assertionCode

/-- The call gets the gas that the deployment has left. -/
def triggersTx (gasUsed : Nat) : TxEnv where
  caller := callerAddress
  gasLimit := deploymentGasLimit - gasUsed
  gasPrice := 0
  transactTo := .call assertionContractAddress
  value := 0
  data := toBytes 4 triggersSelector.toNat

def extractAssertionContract (evm : ExtractorEvm Db) (assertionCode : Bytes)
    (config : ExecutorConfig) :
    Except FnSelectorExtractorError (AssertionContract × TriggerRecorder) :=
  let assertionId := evm.keccak256 assertionCode
  let blockEnv : BlockEnv := ⟨0, 0⟩
  match evm.transact (deployTx assertionCode) blockEnv config.chainId config.specId evm.emptyDb with
  | .error e => .error (.assertionContractDeployError e)
  | .ok resultAndState =>
    if !resultAndState.result.isSuccess then .error (.assertionContractDeployFailed resultAndState)
    else
      match resultAndState.state.lookup assertionContractAddress with
      | none => .error .assertionContractNotFound
      | some initAccount =>
        let db := insertTriggerRecorderAccount evm (evm.commit evm.emptyDb resultAndState.state)
        match evm.transactTriggers (triggersTx resultAndState.result.gasUsed) blockEnv
            config.chainId config.specId db with
        | .error e => .error (.triggersCallError e)
        | .ok (triggerCallResult, triggerRecorder) =>
          if !triggerCallResult.result.isSuccess then .error (.triggersCallFailed triggerCallResult)
          else if triggerRecorder.triggers.entries.isEmpty then .error .noTriggersRecorded
          else
            match initAccount.info.code with
            | none => .error .assertionContractNoCode
            | some deployedCode =>
              .ok (⟨assertionId, deployedCode, initAccount.info.codeHash, initAccount.storage,
                initAccount.status⟩, triggerRecorder)

/-- An assertion on its own, from deployment bytecode. It is never removed. -/
def newActive (evm : ExtractorEvm Db) (bytecode : Bytes) (executorConfig : ExecutorConfig) :
    Except FnSelectorExtractorError AssertionState :=
  (extractAssertionContract evm bytecode executorConfig).map fun extracted =>
    ⟨0, none, extracted.1, extracted.2⟩

/-- The services' extractor is this one, over some EVM. An error is logged and dropped. -/
def Extracts (evm : ExtractorEvm Db) (services : Services) : Prop :=
  ∀ code config, services.extractAssertionContract code config =
    (extractAssertionContract evm code config).toOption

end ContractExtractor

end AssertionExecution
