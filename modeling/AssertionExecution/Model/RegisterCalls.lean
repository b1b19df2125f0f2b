import AssertionExecution.Model.ContractExtractor
import AssertionExecution.Model.PrecompileCalls

/-!
# Register calls

While `triggers()` runs, the trigger recorder answers each call of its address in the EVM's
place. What it cannot record it hands back as a revert with a text.
-/

namespace AssertionExecution

open Interpreter (Gas)

def RecordError.display : RecordError → String
  | callDecodeError => "Failed to decode call inputs"
  | fnSelectorNotFound => "Fn selector not found"

namespace TriggerRecorder

/-- The hook on calls, with the outcome of a call that it answers. -/
def callOutcome (abi : ITriggerRecorder) (r : TriggerRecorder) (inputs : CallInputs)
    (returnMemoryOffset : Nat × Nat) : Option Interpreter.CallOutcome × TriggerRecorder :=
  let (recordResult, r) := r.call abi inputs
  (recordResult.map fun recordResult => inspectorResultToCallOutcome RecordError.display
    recordResult (Gas.new inputs.gasLimit) returnMemoryOffset, r)

/-- A call the hook has seen, and what it answered. -/
structure SeenCall where
  inputs : CallInputs
  returnMemoryOffset : Nat × Nat
  outcome : Option Interpreter.CallOutcome

/-- A recorder sees calls one after the other, starting empty. -/
inductive Sees (abi : ITriggerRecorder) : List SeenCall → TriggerRecorder → Prop
  | start : Sees abi [] default
  | call {calls : List SeenCall} {r : TriggerRecorder} (h : Sees abi calls r) (inputs : CallInputs)
      (returnMemoryOffset : Nat × Nat) :
      Sees abi (calls ++ [⟨inputs, returnMemoryOffset,
        (r.callOutcome abi inputs returnMemoryOffset).1⟩])
        (r.callOutcome abi inputs returnMemoryOffset).2

end TriggerRecorder

/-- The EVM changes the recorder by calls of its hook alone. -/
def ExtractorEvm.RunsHook {Db : Type} (evm : ExtractorEvm Db) (abi : ITriggerRecorder) : Prop :=
  ∀ tx blockEnv chainId specId db result r,
    evm.transactTriggers tx blockEnv chainId specId db = .ok (result, r) →
    ∃ calls, TriggerRecorder.Sees abi calls r

end AssertionExecution
