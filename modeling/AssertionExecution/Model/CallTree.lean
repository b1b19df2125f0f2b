import AssertionExecution.Model.Checkpoints
import AssertionExecution.Model.Triggers

/-!
# Call trees

A transaction as the EVM runs it under a `CallTracer`. The tracer records a call before its
frame is entered. Each frame has a checkpoint, which is reverted if the frame fails.
-/

namespace AssertionExecution

/-- What happens in a frame, in order, up to its end. -/
inductive CallTree where
  | done
  | load (address : Address) (rest : CallTree)
  | sload (address : Address) (key : U256) (rest : CallTree)
  | sstore (address : Address) (key value : U256) (rest : CallTree)
  | log (log : EvmLog) (rest : CallTree)
  /-- A frame within the frame: a call with its inputs, or a contract creation. -/
  | frame (inputs : Option CallInputs) (body : CallTree) (reverts : Bool) (rest : CallTree)

namespace CallTree

variable {DB E : Type} [DatabaseRef DB E] (db : DB)

/-- Runs a tree. It is abandoned where the database fails or an account has not been loaded. -/
def run : CallTree → CallTracer → JournaledState → Option (CallTracer × JournaledState)
  | done, tracer, js => some (tracer, js)
  | load address rest, tracer, js =>
    match js.loadAccount db address with
    | .error _ => none
    | .ok js => rest.run tracer js
  | sload address key rest, tracer, js =>
    match js.sload db address key with
    | .error _ => none
    | .ok (_, js) => rest.run tracer js
  | sstore address key value rest, tracer, js =>
    match js.sstore db address key value with
    | .error _ => none
    | .ok js => rest.run tracer js
  | log entry rest, tracer, js => rest.run tracer { js with logs := js.logs ++ [entry] }
  | frame inputs body reverts rest, tracer, js =>
    let tracer := match inputs with
      | some inputs => tracer.recordCall inputs
      | none => tracer
    let (js, checkpoint) := js.checkpoint
    match body.run tracer js with
    | none => none
    | some (tracer, js) =>
      match if reverts then js.checkpointRevert checkpoint else js.checkpointCommit with
      | none => none
      | some js => rest.run tracer js

/-- Runs a transaction. The tracer captures the journaled state at its end, whose logs are the
logs of the transaction. -/
def transact (warm : List Address) (tree : CallTree) : Option (CallTracer × List EvmLog) :=
  (tree.run db .default (.new warm)).map fun (tracer, js) =>
    ({ tracer with journaledState := some js }, js.logs)

end CallTree

end AssertionExecution
