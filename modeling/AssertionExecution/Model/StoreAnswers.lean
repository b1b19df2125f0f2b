import AssertionExecution.Model.AssertionStore

/-!
# The retry loop over any database

`apply_pending_modification` with the answers of the database and the codec given from
outside. Whoever else writes to the tree, all that the call sees of it are these answers.
-/

namespace AssertionExecution

open AssertionStore

/-- What the database and the codec answer in one iteration of the loop. -/
structure IterationAnswers where
  /-- The stored assertions, unless reading or deserializing them fails. -/
  get : Except AssertionStoreError (Option (List AssertionState))
  ser : Except AssertionStoreError Unit
  compareAndSwap : CompareAndSwapResult

inductive StoreEvent where
  | get
  | compareAndSwap (result : CompareAndSwapResult)
deriving DecidableEq, Repr

/-- What a call returns, what it has done on the way and what it has written for the adopter. -/
structure CallOutcome where
  result : Except AssertionStoreError Unit
  events : List StoreEvent
  written : Option (List AssertionState)

namespace CallOutcome

def failed (e : AssertionStoreError) : CallOutcome := ⟨.error e, [.get], none⟩

def retried (swap : CompareAndSwapResult) (rest : CallOutcome) : CallOutcome :=
  { rest with events := .get :: .compareAndSwap swap :: rest.events }

end CallOutcome

/-- The loop of `apply_pending_modification` from an iteration on, as far as the fuel lasts. -/
def applyAgainst (answers : Nat → IterationAnswers) (modifications : List PendingModification) :
    Nat → Nat → Option CallOutcome
  | 0, _ => none
  | fuel + 1, i =>
    match (answers i).get with
    | .error e => some (.failed e)
    | .ok assertionsSerialized =>
      let assertions := modifications.foldl applyModification (assertionsSerialized.getD [])
      match (answers i).ser with
      | .error e => some (.failed e)
      | .ok () =>
        match (answers i).compareAndSwap with
        | .swapped => some ⟨.ok (), [.get, .compareAndSwap .swapped], some assertions⟩
        -- A swap that fails is retried like one that finds another value.
        | swap => (applyAgainst answers modifications fuel (i + 1)).map (.retried swap)

end AssertionExecution
