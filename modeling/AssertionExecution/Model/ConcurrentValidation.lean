import AssertionExecution.Model.ConcurrentStore
import AssertionExecution.Model.ParallelExecution

/-!
# Validation while the store is in use

The executor and the indexer share one store. The executor reads the adopters of a transaction one
after the other, each under the lock, and other threads may change the store in between.
-/

namespace AssertionExecution

open EffectLogic ParallelMap

namespace ConcurrentStore

section

variable {Thread Stored : Type} [DecidableEq Thread] (de : Stored → List AssertionState)
  (P : System Thread Stored → Prop)

inductive RunWithin : System Thread Stored → System Thread Stored → Prop
  | refl (w : System Thread Stored) (h : P w) : RunWithin w w
  | step {w w' w'' : System Thread Stored} (h : RunWithin w w') (hstep : Step de w' w'')
      (hw : P w'') : RunWithin w w''

/-- What `read_adopter` makes of the assertions that it read, and `read` of that. -/
def matchedFrom (it : Iteration) (block : Nat) (adopter : Address)
    (triggers : HashSet TriggerType) (assertions : List AssertionState) :
    List AssertionsForExecution :=
  (assertions.filter (·.isActiveAt block)).map fun a =>
    ⟨a.assertionContract,
      (HashMap.iter it (AssertionStore.matchedSelectors it a triggers)).map Prod.fst, adopter⟩

/-- The loop of `read` over the adopters of a transaction. Other threads go on before and after
each adopter is read. -/
inductive ReadsAmid (it : Iteration) (block : Nat) : System Thread Stored →
    List (Address × HashSet TriggerType) → List AssertionsForExecution → Prop
  | nil (w : System Thread Stored) : ReadsAmid it block w [] []
  | cons {w w' : System Thread Stored} (hrun : RunWithin de P w w') (adopter : Address)
      (triggers : HashSet TriggerType) {rest : List (Address × HashSet TriggerType)}
      {assertions : List AssertionsForExecution} (h : ReadsAmid it block w' rest assertions) :
      ReadsAmid it block w ((adopter, triggers) :: rest)
        (matchedFrom it block adopter triggers (decoded de (w'.db.get adopter)) ++ assertions)

end

end ConcurrentStore

namespace AssertionExecutor

open ConcurrentStore

variable {Thread Stored : Type} [DecidableEq Thread] {ExtDb ExtErr Active ActiveErr : Type}

/-- What `execute_assertions` may return while other threads use the store. -/
inductive ExecutesAmid (self : AssertionExecutor) (evm : Evm ExtDb ExtErr Active ActiveErr)
    (de : Stored → List AssertionState) (P : System Thread Stored → Prop)
    (w : System Thread Stored) (it : Iteration) (blockEnv : BlockEnv)
    (multiForkDb : MultiForkDb (ForkDb Active)) (logsAndTraces : LogsAndTraces) :
    Except ExecutorError (List AssertionContractExecution) → Prop
  | unread (e : Failure AssertionStoreError) :
      ExecutesAmid self evm de P w it blockEnv multiForkDb logsAndTraces
        (.error (.assertionReadError e))
  | collected {assertions : List AssertionsForExecution}
      (hblock : blockEnv.number.toNat ≤ u64Max)
      (hread : ReadsAmid de P it blockEnv.number.toNat w
        (HashMap.iter it (logsAndTraces.callTraces.triggers it)) assertions)
      (moves : List (Move (Fin assertions.length)
        fun i => Fin (assertions.get i).selectors.length))
      (hcomplete : (Collection.run (self.assertionJobs evm it blockEnv multiForkDb logsAndTraces
        assertions) moves).Complete) :
      ExecutesAmid self evm de P w it blockEnv multiForkDb logsAndTraces
        (Collection.run (self.assertionJobs evm it blockEnv multiForkDb logsAndTraces
          assertions) moves).collect

/-- What `validate_transaction_ext_db` may return while other threads use the store. -/
def ValidatesAmid (self : AssertionExecutor) (evm : Evm ExtDb ExtErr Active ActiveErr)
    (de : Stored → List AssertionState) (P : System Thread Stored → Prop)
    (w : System Thread Stored) (it : Iteration) (blockEnv : BlockEnv) (txEnv : TxEnv)
    (forkDb : ForkDb Active) (externalDb : ExtDb)
    (outcome : Except ExecutorError TxValidationResult × ForkDb Active × ExtDb) : Prop :=
  ∃ execute, (∀ multiForkDb logsAndTraces, self.ExecutesAmid evm de P w it blockEnv
      multiForkDb logsAndTraces (execute multiForkDb logsAndTraces)) ∧
    outcome = self.validateWith evm it blockEnv txEnv forkDb externalDb execute

end AssertionExecutor

end AssertionExecution
