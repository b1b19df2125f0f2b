import AssertionExecution.Model.Precompiles

/-!
# What assertions see of a transaction

The precompile hands out the calls, the logs and the storage changes of the transaction that
triggered an assertion. How arrays of structures are encoded is a parameter.
-/

namespace AssertionExecution

/-- `PhEvm::CallInputs` -/
structure PhEvmCallInputs where
  input : Bytes
  gasLimit : Nat
  bytecodeAddress : Address
  targetAddress : Address
  caller : Address
  value : U256
deriving DecidableEq, Repr

/-- `PhEvm::Log` -/
structure PhEvmLog where
  topics : List B256
  data : Bytes
  emitter : Address
deriving DecidableEq, Repr

inductive GetCallInputsError where
  | failedToDecodeGetCallInputsCall
deriving DecidableEq, Repr

inductive GetStateChangesError where
  | callDecodeError
  | journaledStateMissing
  | slotNotFound
  | accountNotFound
deriving DecidableEq, Repr

def getCallInputsCall : SolCall (Address × Selector) := .ofArgs 0x0fd7f2b5 (.pair .address .bytes4)

def getStateChangesCall : SolCall (Address × B256) := .ofArgs 0x83620407 (.pair .address .bytes32)

/-- Call inputs as they are handed out, without their selector. -/
def solCallInput (input : CallInputs) : PhEvmCallInputs :=
  { input := if 4 ≤ input.input.length then input.input.drop 4 else []
    gasLimit := input.gasLimit
    bytecodeAddress := input.bytecodeAddress
    targetAddress := input.targetAddress
    caller := input.caller
    value := input.value }

def solCallInputs (callTraces : CallTracer) (target : Address) (selector : Selector) :
    List PhEvmCallInputs :=
  ((callTraces.callInputs.lookup (target, selector)).getD []).map solCallInput

def getCallInputs (abiEncode : List PhEvmCallInputs → Bytes) (inputs : CallInputs)
    (context : PhEvmContext) : Except GetCallInputsError Bytes :=
  match getCallInputsCall.abiDecode inputs.input with
  | none => .error .failedToDecodeGetCallInputsCall
  | some (target, selector) =>
    .ok (abiEncode (solCallInputs context.logsAndTraces.callTraces target selector))

/-- The different values of a slot, from the journal and, if there are any, the state. -/
def getDifferences (journaledState : JournaledState) (contractAddress : Address) (slot : U256) :
    Except GetStateChangesError (List U256) :=
  let differences := journaledState.journal.flatten.filterMap fun
    | .storageChanged address key hadValue =>
      if address = contractAddress ∧ key = slot then some hadValue else none
    | _ => none
  if differences.isEmpty then .ok differences
  else match journaledState.state.lookup contractAddress with
    | none => .error .accountNotFound
    | some account =>
      match account.storage.lookup slot with
      | none => .error .slotNotFound
      | some slot => .ok (differences ++ [slot.presentValue])

/-- `Vec::<U256>::abi_encode` -/
def abiEncodeWords (words : List U256) : Bytes :=
  toBytes 32 32 ++ toBytes 32 words.length ++ words.flatMap fun word => toBytes 32 word.toNat

def getStateChanges (inputs : CallInputs) (context : PhEvmContext) :
    Except GetStateChangesError Bytes :=
  match getStateChangesCall.abiDecode inputs.input with
  | none => .error .callDecodeError
  | some (contractAddress, slot) =>
    match context.logsAndTraces.callTraces.journaledState with
    | none => .error .journaledStateMissing
    | some journaledState =>
      (getDifferences journaledState contractAddress slot).map abiEncodeWords

def getLogs (abiEncode : List PhEvmLog → Bytes) (context : PhEvmContext) : Bytes :=
  abiEncode (context.logsAndTraces.txLogs.map fun log => ⟨log.topics, log.data, log.address⟩)

end AssertionExecution
