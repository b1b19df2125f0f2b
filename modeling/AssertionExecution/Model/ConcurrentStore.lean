import Mathlib.Logic.Function.Basic
import AssertionExecution.Library.Linearization
import AssertionExecution.Model.AssertionStore

/-!
# The assertion store under concurrency

Clones of the store share one tree behind a lock. Each step is one critical section of a
thread, or its local work before and after. The tree holds serialized values, and `de` is
what a value decodes to; serializing the same assertions twice may give different values.
-/

namespace AssertionExecution

open FirstMatch Linearization

namespace ConcurrentStore

/-- A call to the store. `apply_pending_modifications` makes one call for each adopter, and
`read` calls `read_adopter` for each adopter. -/
inductive Operation where
  | insert (adopter : Address) (assertion : AssertionState)
  | applyPendingModification (adopter : Address) (modifications : List PendingModification)
  | readAdopter (adopter : Address)

/-- What a call returns. The rest of `read_adopter` is local work on what it read. -/
inductive Response where
  | previous (assertion : Option AssertionState)
  | applied
  | assertions (assertions : List AssertionState)

inductive Phase (Stored : Type) where
  | idle
  | inserting (adopter : Address) (assertion : AssertionState)
  | getting (adopter : Address) (modifications : List PendingModification)
  /-- The lock is released; the modified assertions are swapped in next. -/
  | swapping (adopter : Address) (modifications : List PendingModification)
      (assertionsSerialized : Option Stored) (assertions : List AssertionState)
  | reading (adopter : Address)
  | returning (result : Option Response)

def Operation.entry {Stored : Type} : Operation → Phase Stored
  | insert adopter assertion => .inserting adopter assertion
  | applyPendingModification adopter modifications => .getting adopter modifications
  | readAdopter adopter => .reading adopter

/-- The call of a thread in this phase, as long as it has not taken effect. -/
def Phase.pending {Stored : Type} : Phase Stored → Option Operation
  | idle => none
  | inserting adopter assertion => some (.insert adopter assertion)
  | getting adopter modifications => some (.applyPendingModification adopter modifications)
  | swapping adopter modifications _ _ => some (.applyPendingModification adopter modifications)
  | reading adopter => some (.readAdopter adopter)
  | returning _ => none

/-- The shared tree, the threads with the number of calls each has completed, and what the
callers have seen. A call is known by its thread and its number. -/
structure System (Thread Stored : Type) where
  db : OrderedTree Address Stored
  phase : Thread → Phase Stored
  calls : Thread → Nat
  history : List (Event (Thread × Nat) Operation Response)

section Steps

variable {Thread Stored : Type} [DecidableEq Thread] (de : Stored → List AssertionState)

def initial (db : OrderedTree Address Stored) : System Thread Stored :=
  ⟨db, fun _ => .idle, fun _ => 0, []⟩

def decoded (serialized : Option Stored) : List AssertionState := (serialized.map de).getD []

def inserted (assertion : AssertionState) (assertions : List AssertionState) :
    List AssertionState :=
  modifyFirstOrAppend (fun a => a.assertionContractId = assertion.assertionContractId)
    (fun _ => assertion) [assertion] assertions

def replaced (assertion : AssertionState) (assertions : List AssertionState) :
    Option AssertionState :=
  assertions.find? (fun a => a.assertionContractId = assertion.assertionContractId)

def System.setPhase (w : System Thread Stored) (t : Thread) (phase : Phase Stored) :
    System Thread Stored :=
  { w with phase := Function.update w.phase t phase }

inductive Step : System Thread Stored → System Thread Stored → Prop
  | invoke {w : System Thread Stored} (t : Thread) (op : Operation) (h : w.phase t = .idle) :
      Step w { w.setPhase t op.entry with
        history := w.history ++ [.invoked (t, w.calls t) op] }
  /-- `insert` reads and writes under one lock. -/
  | insert {w : System Thread Stored} (t : Thread) {adopter : Address} {assertion : AssertionState}
      (h : w.phase t = .inserting adopter assertion) (value : Stored)
      (hvalue : de value = inserted assertion (decoded de (w.db.get adopter))) :
      Step w { w.setPhase t (.returning
          (some (.previous (replaced assertion (decoded de (w.db.get adopter)))))) with
        db := w.db.insert adopter value }
  | get {w : System Thread Stored} (t : Thread) {adopter : Address}
      {modifications : List PendingModification}
      (h : w.phase t = .getting adopter modifications) :
      Step w (w.setPhase t (.swapping adopter modifications (w.db.get adopter)
        (modifications.foldl AssertionStore.applyModification
          (decoded de (w.db.get adopter)))))
  /-- The compare-and-swap finds the value that was read. -/
  | swap {w : System Thread Stored} (t : Thread) {adopter : Address}
      {modifications : List PendingModification} {assertions : List AssertionState}
      (h : w.phase t = .swapping adopter modifications (w.db.get adopter) assertions)
      (value : Stored) (hvalue : de value = assertions) :
      Step w { w.setPhase t (.returning (some .applied)) with
        db := w.db.insert adopter value }
  /-- The compare-and-swap finds another value or fails with an I/O error. -/
  | retry {w : System Thread Stored} (t : Thread) {adopter : Address}
      {modifications : List PendingModification} {assertionsSerialized : Option Stored}
      {assertions : List AssertionState}
      (h : w.phase t = .swapping adopter modifications assertionsSerialized assertions) :
      Step w (w.setPhase t (.getting adopter modifications))
  | read {w : System Thread Stored} (t : Thread) {adopter : Address}
      (h : w.phase t = .reading adopter) :
      Step w (w.setPhase t (.returning (some (.assertions (decoded de (w.db.get adopter))))))
  /-- A tree operation or a serialization fails, and the call passes the error on. -/
  | fail {w : System Thread Stored} (t : Thread) {op : Operation}
      (h : (w.phase t).pending = some op) :
      Step w (w.setPhase t (.returning none))
  | return {w : System Thread Stored} (t : Thread) {result : Option Response}
      (h : w.phase t = .returning result) :
      Step w { w.setPhase t .idle with
        calls := Function.update w.calls t (w.calls t + 1)
        history := w.history ++ [.returned (t, w.calls t) result] }

inductive Run : System Thread Stored → System Thread Stored → Prop
  | refl (w : System Thread Stored) : Run w w
  | step {w w' w'' : System Thread Stored} (h : Run w w') (hstep : Step de w' w'') : Run w w''

end Steps

end ConcurrentStore

end AssertionExecution
