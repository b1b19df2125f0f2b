import AssertionExecution.Model.Abi
import AssertionExecution.Model.Executor

/-!
# Precompiles over the forks

What an assertion reaches through the precompile address: the slots of the active fork's
database and the switch between the two forks.
-/

namespace AssertionExecution

def loadCall : SolCall (Address × B256) := .ofArgs 0x667f9d70 (.pair .address .bytes32)

/-- Returns a storage slot of the active fork, or nothing when the call or the read fails. -/
def loadExternalSlot {Db Err : Type} [DatabaseRef Db Err] (db : MultiForkDb Db) (input : Bytes) :
    Bytes :=
  match loadCall.abiDecode input with
  | none => []
  | some (target, slot) =>
    match storageRef db.activeDb target slot with
    | .ok value => toBytes 32 value.toNat
    | .error _ => []

def forkPreState {Db : Type} (db : MultiForkDb Db) (active init : JournaledState) :
    Except ForkError (MultiForkDb Db × JournaledState) :=
  db.switchFork .preTx active init

def forkPostState {Db : Type} (db : MultiForkDb Db) (active init : JournaledState) :
    Except ForkError (MultiForkDb Db × JournaledState) :=
  db.switchFork .postTx active init

end AssertionExecution
