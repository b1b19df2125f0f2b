import AssertionExecution.Library.EffectLogic
import AssertionExecution.Library.FirstMatch
import AssertionExecution.Library.OrderedTree
import AssertionExecution.Model.Triggers

/-!
# The assertion store

A tree from adopters to the assertions registered for them. Any tree operation may fail
with an I/O error; `fault` tells which ones do, counted from the store's creation.
-/

namespace AssertionExecution

open EffectLogic FirstMatch

/-- A program returns an error of its own, panics, or never ends. -/
inductive Failure (E : Type) where
  | error (e : E)
  | panicked
  | diverged
deriving DecidableEq, Repr

inductive AssertionStoreError where
  | sledError
  | bincodeError
  | blockNumberExceedsU64
deriving DecidableEq, Repr

/-- An assertion with its matched fn selectors and its adopter. -/
structure AssertionsForExecution where
  assertionContract : AssertionContract
  selectors : List Selector
  adopter : Address

structure AssertionState where
  activeAtBlock : Nat
  inactiveAtBlock : Option Nat
  assertionContract : AssertionContract
  triggerRecorder : TriggerRecorder
deriving DecidableEq

def AssertionState.assertionContractId (a : AssertionState) : B256 := a.assertionContract.id

inductive PendingModification where
  | add (assertionAdopter : Address) (assertionContract : AssertionContract)
      (triggerRecorder : TriggerRecorder) (activeAtBlock logIndex : Nat)
  | remove (assertionAdopter : Address) (assertionContractId : B256)
      (inactiveAtBlock logIndex : Nat)
deriving DecidableEq

namespace PendingModification

def assertionAdopter : PendingModification → Address
  | add adopter .. => adopter
  | remove adopter .. => adopter

def assertionContractId : PendingModification → B256
  | add _ contract .. => contract.id
  | remove _ id .. => id

end PendingModification

/-- The stored content and the number of tree operations performed so far. -/
structure AssertionStore where
  db : OrderedTree Address (List AssertionState)
  operations : Nat

abbrev StoreM (α : Type) := Eff (Failure AssertionStoreError) AssertionStore α

namespace AssertionStore

/-- `AssertionStore::new_ephemeral` -/
def newEphemeral : AssertionStore := ⟨.empty, 0⟩

def assertions (db : OrderedTree Address (List AssertionState)) (adopter : Address) :
    List AssertionState :=
  (db.get adopter).getD []

variable (fault : Nat → Bool)

/-- Performs a tree operation; the result tells whether it failed. -/
def operation : StoreM Bool := do
  let s ← get
  set { s with operations := s.operations + 1 }
  pure (fault s.operations)

def dbGet (adopter : Address) : StoreM (Option (List AssertionState)) := do
  if ← operation fault then throw (.error .sledError)
  return (← get).db.get adopter

def dbInsert (adopter : Address) (value : List AssertionState) : StoreM Unit := do
  if ← operation fault then throw (.error .sledError)
  modify fun s => { s with db := s.db.insert adopter value }

/-- The body of the modification loop of `apply_pending_modification`. -/
def applyModification (assertions : List AssertionState) :
    PendingModification → List AssertionState
  | .add _ assertionContract triggerRecorder activeAtBlock _ =>
    modifyFirstOrAppend (fun a => a.assertionContractId = assertionContract.id)
      (fun a => { a with activeAtBlock := activeAtBlock })
      [⟨activeAtBlock, none, assertionContract, triggerRecorder⟩] assertions
  | .remove _ assertionContractId inactiveAtBlock _ =>
    modifyFirstOrAppend (fun a => a.assertionContractId = assertionContractId)
      (fun a => { a with inactiveAtBlock := some inactiveAtBlock }) [] assertions

/-- The outcome of sled's compare-and-swap. -/
inductive CompareAndSwapResult where
  | swapped
  | mismatch
  | sledError
deriving DecidableEq, Repr

def compareAndSwap (adopter : Address) (old : Option (List AssertionState))
    (new : List AssertionState) : StoreM CompareAndSwapResult := do
  if ← operation fault then return .sledError
  if (← get).db.get adopter = old then
    modify fun s => { s with db := s.db.insert adopter new }
    return .swapped
  return .mismatch

/-- Applies the modifications of one adopter. The loop retries until the swap succeeds. -/
def applyPendingModification (adopter : Address) (modifications : List PendingModification) :
    Nat → StoreM Unit
  | 0 => throw .diverged
  | fuel + 1 => do
    let assertionsSerialized ← dbGet fault adopter
    let assertions := modifications.foldl applyModification (assertionsSerialized.getD [])
    match ← compareAndSwap fault adopter assertionsSerialized assertions with
    | .swapped => pure ()
    | _ => applyPendingModification adopter modifications fuel

def groupByAdopter (modifications : List PendingModification) :
    HashMap Address (List PendingModification) :=
  modifications.foldl
    (fun map m => HashMap.modifyOrDefault map m.assertionAdopter [] (· ++ [m])) ∅

def applyGroups (fuel : Nat) : List (Address × List PendingModification) → StoreM Unit
  | [] => pure ()
  | (adopter, modifications) :: groups => do
    applyPendingModification fault adopter modifications fuel
    applyGroups fuel groups

def applyPendingModifications (it : Iteration) (fuel : Nat)
    (modifications : List PendingModification) : StoreM Unit :=
  applyGroups fault fuel (HashMap.iter it (groupByAdopter modifications))

/-- Inserts an assertion, replacing and returning the one with the same id. -/
def insert (adopter : Address) (assertion : AssertionState) : StoreM (Option AssertionState) := do
  let assertions := (← dbGet fault adopter).getD []
  let sameId := fun a : AssertionState => a.assertionContractId = assertion.assertionContractId
  dbInsert fault adopter
    (modifyFirstOrAppend (fun a => sameId a) (fun _ => assertion) [assertion] assertions)
  return assertions.find? (fun a => sameId a)

end AssertionStore

namespace AssertionState

/-- The block from which on an assertion is no longer active. -/
def inactiveBlock (a : AssertionState) : Nat :=
  match a.inactiveAtBlock with
  | some inactiveBlock =>
    -- An end before the start is ignored.
    if inactiveBlock < a.activeAtBlock then u64Max else inactiveBlock
  | none => u64Max

def isActiveAt (a : AssertionState) (block : Nat) : Bool :=
  a.activeAtBlock ≤ block ∧ block < a.inactiveBlock

def recorded (a : AssertionState) (trigger : TriggerType) : HashSet Selector :=
  (a.triggerRecorder.triggers.lookup trigger).getD ∅

end AssertionState

/-- Selectors collected so far, and which kinds of triggers were met. -/
structure MatchedTriggers where
  allSelectors : HashSet Selector
  hasCallTrigger : Bool
  hasStorageTrigger : Bool

namespace AssertionStore

/-- The body of the trigger loop of `read_adopter`. -/
def matchTrigger (a : AssertionState) (m : MatchedTriggers) (trigger : TriggerType) :
    MatchedTriggers :=
  let m := { m with allSelectors := HashMap.extend m.allSelectors (a.recorded trigger) }
  match trigger with
  | .call _ => { m with hasCallTrigger := true }
  | .storageChange _ => { m with hasStorageTrigger := true }
  | _ => m

def matchedSelectors (it : Iteration) (a : AssertionState) (triggers : HashSet TriggerType) :
    HashSet Selector :=
  let m := ((HashMap.iter it triggers).map Prod.fst).foldl (matchTrigger a) ⟨∅, false, false⟩
  let selectors :=
    if m.hasCallTrigger then HashMap.extend m.allSelectors (a.recorded .allCalls)
    else m.allSelectors
  if m.hasStorageTrigger then HashMap.extend selectors (a.recorded .allStorageChanges)
  else selectors

variable (fault : Nat → Bool)

/-- The active assertions of an adopter with their matched selectors. -/
def readAdopter (it : Iteration) (adopter : Address) (triggers : HashSet TriggerType)
    (block : Nat) : StoreM (List (AssertionContract × List Selector)) := do
  let assertionStates := (← dbGet fault adopter).getD []
  return (assertionStates.filter (·.isActiveAt block)).map fun a =>
    (a.assertionContract, (HashMap.iter it (matchedSelectors it a triggers)).map Prod.fst)

def readAdopters (it : Iteration) (block : Nat) :
    List (Address × HashSet TriggerType) → StoreM (List AssertionsForExecution)
  | [] => pure []
  | (adopter, triggers) :: rest => do
    let contractAssertions ← readAdopter fault it adopter triggers block
    let assertions ← readAdopters it block rest
    return contractAssertions.map (fun c => ⟨c.1, c.2, adopter⟩) ++ assertions

def read (it : Iteration) (traces : CallTracer) (blockNum : U256) :
    StoreM (List AssertionsForExecution) := do
  if u64Max < blockNum.toNat then throw (.error .blockNumberExceedsU64)
  readAdopters fault it blockNum.toNat (HashMap.iter it (traces.triggers it))

end AssertionStore

end AssertionExecution
