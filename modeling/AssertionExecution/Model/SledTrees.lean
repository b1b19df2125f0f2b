import Mathlib.Data.List.Lex
import AssertionExecution.Model.Indexer

/-!
# The indexer's trees as sled keeps them

sled orders keys by their bytes. A block number is a key as the serialized `U256` of the number:
the length of a byte string and then its big-endian bytes.
-/

namespace AssertionExecution

/-- What bincode writes of the length of a byte string, before the string. -/
structure Bincode where
  lengthPrefix : Nat → Bytes

namespace Bincode

/-- `ser(&U256)` -/
def ser (codec : Bincode) (value : U256) : Bytes :=
  codec.lengthPrefix 32 ++ toBytes 32 value.toNat

/-- The key of a block number, `ser(&U256::from(number))`. -/
def blockKey (codec : Bincode) (number : Nat) : Bytes := codec.ser (BitVec.ofNat 256 number)

/-- Lengths are little-endian `u64`s by default. -/
def fixint : Bincode := ⟨fun n => (toBytes 8 n).reverse⟩

end Bincode

/-- The two trees that are keyed by block numbers, and the number of steps taken. -/
structure SledTrees where
  blockHashTree : OrderedTree Bytes B256
  pendingModificationsTree : OrderedTree Bytes (List PendingModification)
  steps : Nat

abbrev SledM (α : Type) := EffectLogic.Eff (Failure IndexerError) SledTrees α

namespace SledTrees

variable (fault : Nat → Bool)

def step (e : IndexerError) : SledM Unit := do
  let s ← get
  set { s with steps := s.steps + 1 }
  if fault s.steps then throw (.error e)

/-- `block_hash_tree.pop_first_in_range(range)` -/
def popFirstInRange (range : Bytes → Bool) : SledM (Option Bytes) := do
  step fault .sledError
  let s ← get
  match s.blockHashTree.firstInRange range with
  | none => return none
  | some e =>
    set { s with blockHashTree := s.blockHashTree.remove e.1 }
    return some e.1

/-- `pending_modifications_tree.remove(key)` -/
def removePending (key : Bytes) : SledM (Option (List PendingModification)) := do
  step fault .sledError
  let s ← get
  set { s with pendingModificationsTree := s.pendingModificationsTree.remove key }
  return s.pendingModificationsTree.get key

def pruneToLoop (serTo : Bytes) :
    Nat → List PendingModification → SledM (List PendingModification)
  | 0, _ => throw .diverged
  | fuel + 1, pendingModifications => do
    match ← popFirstInRange fault (· < serTo) with
    | none => return pendingModifications
    | some key =>
      match ← removePending fault key with
      | none => pruneToLoop serTo fuel pendingModifications
      | some pendingMods => do
        -- The modifications are deserialized after they were removed.
        step fault .bincodeError
        pruneToLoop serTo fuel (pendingModifications ++ pendingMods)

def pruneTo (codec : Bincode) (upTo : Nat) : SledM (List PendingModification) := do
  let s ← get
  pruneToLoop fault (codec.blockKey upTo) (s.blockHashTree.entries.length + 1) []

def pruneFromLoop (serFrom : Bytes) : Nat → SledM Unit
  | 0 => throw .diverged
  | fuel + 1 => do
    match ← popFirstInRange fault (serFrom ≤ ·) with
    | none => return ()
    | some key => do
      let _ ← removePending fault key
      pruneFromLoop serFrom fuel

def pruneFrom (codec : Bincode) (start : Nat) : SledM Unit := do
  let s ← get
  pruneFromLoop fault (codec.blockKey start) (s.blockHashTree.entries.length + 1)

def writeBlockNumHashBatch (codec : Bincode) (blockNumHashes : List BlockNumHash) : SledM Unit := do
  step fault .sledError
  modify fun s => { s with
    blockHashTree := s.blockHashTree.applyBatch
      (blockNumHashes.map fun b => (codec.blockKey b.number, b.hash)) }

/-- Writes the modifications of each block in log order, replacing earlier ones. -/
def writePendingModifications (codec : Bincode) (pending : Indexer.OrderedModifications) :
    SledM Unit := do
  step fault .sledError
  modify fun s => { s with
    pendingModificationsTree := s.pendingModificationsTree.applyBatch
      (pending.entries.map fun e => (codec.blockKey e.1, e.2.values)) }

end SledTrees

end AssertionExecution
