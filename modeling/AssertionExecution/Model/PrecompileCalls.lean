import AssertionExecution.Library.HeadTail
import AssertionExecution.Model.TransactionViews

/-!
# Calls of the precompile

The inspector answers every call of the precompile address. It finds the function by its selector
and hands back a result, or an error as a revert with a text.
-/

namespace AssertionExecution

open HeadTail

/-! ### The ABI of dynamic values -/

/-- The words of the ABI: big-endian, 32 bytes long. -/
def abiWord : WordFormat (BitVec 8) where
  length := 32
  bound := 2 ^ 256
  write := toBytes 32
  read bytes := ofBytes (bytes.take 32)
  length_write := length_toBytes 32
  read_write n rest h := by
    rw [List.take_left' (length_toBytes 32 n), ofBytes_toBytes]
    exact Nat.mod_eq_of_lt h

namespace Abi

def ofArgs {A : Type} (args : AbiArgs A) : Layout abiWord A where
  dynamic := false
  size := args.length
  valid _ := True
  encode := args.encode
  decode bytes := some (args.decode (bytes.take args.length))
  size_dynamic h := by cases h
  length_encode _ := args.length_encode
  decode_encode a rest _ _ := by
    rw [List.take_left' (args.length_encode a), args.decode_encode]

def address : Layout abiWord Address := ofArgs .address

def bytes32 : Layout abiWord B256 := ofArgs .bytes32

def uint256 : Layout abiWord U256 := ofArgs .bytes32

def uint64 : Layout abiWord Nat where
  dynamic := false
  size := 32
  valid n := n < 2 ^ 64
  encode := toBytes 32
  decode bytes := some (ofBytes (bytes.take 32))
  size_dynamic h := by cases h
  length_encode _ := length_toBytes 32
  decode_encode n rest h _ := by
    rw [List.take_left' (length_toBytes 32 n), ofBytes_toBytes, Nat.mod_eq_of_lt (by omega)]

def bytes : Layout abiWord Bytes := .symbols abiWord 0

/-- `PhEvm::Log` -/
def log : Layout abiWord PhEvmLog :=
  (Fields.cons bytes32.array (.cons bytes (.cons address .nil))).layout.map
    (fun l => (l.topics, l.data, l.emitter, ())) (fun x => ⟨x.1, x.2.1, x.2.2.1⟩) fun _ => rfl

/-- `PhEvm::CallInputs` -/
def callInputs : Layout abiWord PhEvmCallInputs :=
  (Fields.cons bytes (.cons uint64 (.cons address (.cons address (.cons address
    (.cons uint256 .nil)))))).layout.map
    (fun c => (c.input, c.gasLimit, c.bytecodeAddress, c.targetAddress, c.caller, c.value, ()))
    (fun x => ⟨x.1, x.2.1, x.2.2.1, x.2.2.2.1, x.2.2.2.2.1, x.2.2.2.2.2.1⟩) fun _ => rfl

def utf8 (text : String) : Bytes := text.toByteArray.data.toList.map fun b => b.toBitVec

def fromUtf8 (bytes : Bytes) : String :=
  (String.fromUTF8? ⟨(bytes.map UInt8.ofBitVec).toArray⟩).getD ""

lemma fromUtf8_utf8 (text : String) : fromUtf8 (utf8 text) = text := by
  have hbytes : (⟨((utf8 text).map UInt8.ofBitVec).toArray⟩ : ByteArray) = text.toByteArray := by
    have hid : (UInt8.ofBitVec ∘ fun b : UInt8 => b.toBitVec) = id := rfl
    unfold utf8
    rw [List.map_map, hid, List.map_id]
  unfold fromUtf8 String.fromUTF8?
  rw [hbytes, dif_pos text.isValidUTF8]
  rfl

def string : Layout abiWord String := bytes.map utf8 fromUtf8 fromUtf8_utf8

end Abi

def errorSelector : Selector := 0x08c379a0

/-- `Error::abi_encode` -/
def abiEncodeError (text : String) : Bytes :=
  toBytes 4 errorSelector.toNat ++ Abi.string.single.encode text

/-! ### Errors and their texts -/

inductive PrecompileError where
  | selectorNotFound (selector : Selector)
  | getStateChangesError (e : GetStateChangesError)
  | getCallInputsError (e : GetCallInputsError)
  | forkError (e : ForkError)
deriving DecidableEq, Repr

/-- A selector as it is printed for debugging. -/
def debugSelector (selector : Selector) : String :=
  .ofList ( '0' :: 'x' :: (List.range 8).map fun i =>
    Nat.digitChar (selector.toNat / 16 ^ (7 - i) % 16))

def GetStateChangesError.display : GetStateChangesError → String
  | callDecodeError => "Error decoding call inputs"
  | journaledStateMissing =>
    "Journaled State Missing from Context. For some reason it was not captured."
  | slotNotFound => "Slot not found in journaled state, but differences were found."
  | accountNotFound => "Account not found in journaled state, but differences were found."

/-- `debugDecode` is how the error of the ABI decoder is printed for debugging. -/
def GetCallInputsError.display (debugDecode : String) : GetCallInputsError → String
  | failedToDecodeGetCallInputsCall => "Failed to decode getCallInputs call: " ++ debugDecode

def ForkError.display : ForkError → String
  | forkNotFound _ => "Fork not found."

def PrecompileError.display (debugDecode : String) : PrecompileError → String
  | selectorNotFound selector => "Precompile selector not found: " ++ debugSelector selector
  | getStateChangesError e => "Error getting state changes: " ++ e.display
  | getCallInputsError e => "Error getting call inputs: " ++ e.display debugDecode
  | forkError e => "Error switching forks: " ++ e.display

/-! ### Call outcomes -/

namespace Interpreter

/-- `revm::interpreter::Gas` -/
structure Gas where
  limit : Nat
  remaining : Nat
  refunded : Int
deriving DecidableEq, Repr

def Gas.new (limit : Nat) : Gas := ⟨limit, limit, 0⟩

/-- The results that the inspectors hand out. -/
inductive InstructionResult where
  | returned
  | reverted
deriving DecidableEq, Repr

structure InterpreterResult where
  result : InstructionResult
  output : Bytes
  gas : Gas
deriving DecidableEq, Repr

structure CallOutcome where
  result : InterpreterResult
  memoryOffset : Nat × Nat
deriving DecidableEq, Repr

end Interpreter

open Interpreter

/-- Converts a result to a call outcome. An error is a revert with its text. -/
def inspectorResultToCallOutcome {E : Type} (display : E → String) (result : Except E Bytes)
    (gas : Gas) (memoryOffset : Nat × Nat) : Interpreter.CallOutcome :=
  match result with
  | .ok output => ⟨⟨.returned, output, gas⟩, memoryOffset⟩
  | .error e => ⟨⟨.reverted, abiEncodeError (display e), gas⟩, memoryOffset⟩

/-! ### The functions of the precompile -/

/-- The selectors of the functions of `PhEvm`. -/
def forkPreStateSelector : Selector := 0xa09960eb

def forkPostStateSelector : Selector := 0x70c0dc2e

def getLogsSelector : Selector := 0xfe290ccb

def getAssertionAdopterSelector : Selector := 0xf0afd132

def getAssertionAdopter (context : PhEvmContext) : Bytes :=
  Abi.address.single.encode context.adopter

namespace PhEvmInspector

variable {Db Err : Type} [DatabaseRef Db Err]

/-- The outcome of a switch, which has no result. -/
def forked (db : MultiForkDb Db) (journaled : JournaledState)
    (switched : Except ForkError (MultiForkDb Db × JournaledState)) :
    Except PrecompileError Bytes × MultiForkDb Db × JournaledState :=
  match switched with
  | .ok (db, journaled) => (.ok [], db, journaled)
  | .error e => (.error (.forkError e), db, journaled)

def executePrecompile (inspector : PhEvmInspector) (db : MultiForkDb Db)
    (journaled : JournaledState) (inputs : CallInputs) :
    Except PrecompileError Bytes × MultiForkDb Db × JournaledState :=
  let selector := leadingSelector inputs.input
  if selector = forkPreStateSelector then
    forked db journaled (forkPreState db journaled inspector.initJournaledState)
  else if selector = forkPostStateSelector then
    forked db journaled (forkPostState db journaled inspector.initJournaledState)
  else if selector = loadCall.selector then (.ok (loadExternalSlot db inputs.input), db, journaled)
  else if selector = getLogsSelector then
    (.ok (getLogs Abi.log.array.single.encode inspector.context), db, journaled)
  else if selector = getCallInputsCall.selector then
    ((getCallInputs Abi.callInputs.array.single.encode inputs inspector.context).mapError
      .getCallInputsError, db, journaled)
  else if selector = getStateChangesCall.selector then
    ((getStateChanges inputs inspector.context).mapError .getStateChangesError, db, journaled)
  else if selector = getAssertionAdopterSelector then
    (.ok (getAssertionAdopter inspector.context), db, journaled)
  else (.error (.selectorNotFound selector), db, journaled)

/-- The hook on calls. Only those of the precompile address are answered here. -/
def call (inspector : PhEvmInspector) (debugDecode : Bytes → String) (db : MultiForkDb Db)
    (journaled : JournaledState) (inputs : CallInputs) (returnMemoryOffset : Nat × Nat) :
    Option Interpreter.CallOutcome × MultiForkDb Db × JournaledState :=
  if inputs.targetAddress = precompileAddress then
    let (result, db, journaled) := inspector.executePrecompile db journaled inputs
    (some (inspectorResultToCallOutcome (·.display (debugDecode inputs.input)) result
      (Gas.new inputs.gasLimit) returnMemoryOffset), db, journaled)
  else (none, db, journaled)

end PhEvmInspector

end AssertionExecution
