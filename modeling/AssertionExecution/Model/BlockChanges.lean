import AssertionExecution.Model.Primitives

/-!
# The changes of a block

`BlockChanges` gathers the states of a block's transactions in one state.
-/

namespace AssertionExecution

structure BlockChanges where
  blockNum : Nat
  blockHash : B256
  stateChanges : EvmState

namespace BlockChanges

def new (blockNum : Nat) (blockHash : B256) : BlockChanges := ⟨blockNum, blockHash, ∅⟩

/-- The loop body of `merge_state`. -/
def mergeAccount (stateChanges : EvmState) (key : Address) (value : Account) : EvmState :=
  match stateChanges.lookup key with
  | some existingAccount => stateChanges.insert key
    -- Info and status are those of the later state; old slots stay unless they are overridden.
    { info := value.info
      status := value.status
      storage := HashMap.extend existingAccount.storage value.storage }
  | none => stateChanges.insert key value

/-- Merges a later state into the changes, account by account in iteration order. -/
def mergeState (it : Iteration) (changes : BlockChanges) (evmState : EvmState) : BlockChanges :=
  { changes with
    stateChanges := (HashMap.iter it evmState).foldl
      (fun stateChanges e => mergeAccount stateChanges e.1 e.2) changes.stateChanges }

end BlockChanges

end AssertionExecution
