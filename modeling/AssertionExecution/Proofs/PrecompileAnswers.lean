import AssertionExecution.Model.PrecompileCalls
import AssertionExecution.Proofs.ReservedAddresses
import AssertionExecution.Proofs.SlotHistory

/-!
# What an assertion learns from the precompile

An assertion encodes a request, calls the precompile and decodes what it returns. Over any run it
learns what an oracle would tell that knows the transaction, the two databases and the fork
that was chosen last.
-/

namespace AssertionExecution

open HeadTail CallTracer

/-! ### Requests and answers -/

/-- What an assertion asks. -/
inductive Request where
  | forkPreState
  | forkPostState
  | load (target : Address) (slot : B256)
  | getLogs
  | getCallInputs (target : Address) (selector : Selector)
  | getStateChanges (contractAddress : Address) (slot : B256)
  | getAssertionAdopter

/-- What an assertion learns. -/
inductive Answer where
  | nothing
  | word (value : Option U256)
  | logs (logs : List PhEvmLog)
  | calls (calls : List PhEvmCallInputs)
  | changes (values : List U256)
  | adopter (adopter : Address)
deriving DecidableEq

namespace Request

def abiEncode : Request → Bytes
  | forkPreState => toBytes 4 forkPreStateSelector.toNat
  | forkPostState => toBytes 4 forkPostStateSelector.toNat
  | load target slot => loadCall.abiEncode (target, slot)
  | getLogs => toBytes 4 getLogsSelector.toNat
  | getCallInputs target selector => getCallInputsCall.abiEncode (target, selector)
  | getStateChanges contractAddress slot => getStateChangesCall.abiEncode (contractAddress, slot)
  | getAssertionAdopter => toBytes 4 getAssertionAdopterSelector.toNat

def selector : Request → Selector
  | forkPreState => forkPreStateSelector
  | forkPostState => forkPostStateSelector
  | load .. => loadCall.selector
  | getLogs => getLogsSelector
  | getCallInputs .. => getCallInputsCall.selector
  | getStateChanges .. => getStateChangesCall.selector
  | getAssertionAdopter => getAssertionAdopterSelector

/-- Reads the answer from what a call returned. A word may be missing. -/
def decode : Request → Bytes → Option Answer
  | forkPreState, _ => some .nothing
  | forkPostState, _ => some .nothing
  | load _ _, output =>
    if output = [] then some (.word none) else (Abi.uint256.decode output).map (.word ∘ some)
  | getLogs, output => (Abi.log.array.single.decode output).map .logs
  | getCallInputs _ _, output => (Abi.callInputs.array.single.decode output).map .calls
  | getStateChanges _ _, output => (Abi.uint256.array.single.decode output).map .changes
  | getAssertionAdopter, output => (Abi.address.single.decode output).map .adopter

def fork (active : ForkId) : Request → ForkId
  | forkPreState => .preTx
  | forkPostState => .postTx
  | _ => active

end Request

/-- A transaction that was traced: the run of its steps on a database, the recorded calls and
the logs. -/
structure TracedTx {DB E : Type} [DatabaseRef DB E] (db : DB) where
  warm : List Address
  steps : List JournalStep
  final : OpenJournal
  run : steps.foldlM (JournalStep.run db) ⟨.new warm, []⟩ = some final
  calls : List CallInputs
  logs : List EvmLog
  /-- Gas limits are 64-bit numbers, and a log has at most four topics. -/
  gasLimit_lt : ∀ call ∈ calls, call.gasLimit < 2 ^ 64
  topics_le : ∀ log ∈ logs, log.topics.length ≤ 4

namespace TracedTx

variable {DB E : Type} [DatabaseRef DB E] {db : DB}

/-- What the inspector is given of the transaction. -/
def context (tx : TracedTx db) (adopter : Address) : PhEvmContext :=
  ⟨⟨tx.logs, .ofCalls tx.calls (some tx.final.journaled)⟩, adopter⟩

/-- The values of a slot before and after each write that changed it and was not reverted. There
are none if no write did. -/
def history (tx : TracedTx db) (a : Address) (key : U256) : List U256 :=
  differences (storedValue db a key ::
    changedValues (storedValue db a key) (writtenTo a key (keptWrites tx.steps)))

end TracedTx

section

variable {DB E : Type} [DatabaseRef DB E] {db : DB} {tx : TracedTx db} {adopter : Address}

end

section Runs

variable {Active Err : Type} [DatabaseRef Active Err] {it : Iteration}
  {contract : AssertionContract} {preTxDb postTxDb : ForkDb Active}
  {inspector : PhEvmInspector} {debugDecode : Bytes → String} {active : ForkId}
  {s : Running (ForkDb Active)}

/-- What the run of an assertion keeps: it is a run of switches and writes, and the active fork is
the one chosen last. -/
def Isolates (inspector : PhEvmInspector) (start : MultiForkDb (ForkDb Active)) (active : ForkId)
    (s : Running (ForkDb Active)) : Prop :=
  s.db.activeForkId = active ∧ ∃ visited, ForkRun start inspector.initJournaledState (s :: visited)

omit [DatabaseRef Active Err] in
lemma Isolates.switchFork
    (h : Isolates inspector (installed it contract preTxDb postTxDb) active s) (id : ForkId) :
    ∃ db journaled, s.db.switchFork id s.journaled inspector.initJournaledState =
        .ok (db, journaled) ∧
      Isolates inspector (installed it contract preTxDb postTxDb) id ⟨db, journaled⟩ := by
  obtain ⟨-, visited, hrun⟩ := h
  by_cases hid : id = s.db.activeForkId
  · have hswitch : s.db.switchFork id s.journaled inspector.initJournaledState =
        .ok (s.db, s.journaled) := if_pos hid
    exact ⟨_, _, hswitch, hid.symm, _, .switchFork hrun id hswitch⟩
  · have hisolated := isolated_of_run hrun s visited rfl
    obtain ⟨db, hswitch, -⟩ := hisolated.switchFork inspector.initJournaledState hid
    refine ⟨_, _, hswitch, ?_, _, .switchFork hrun id hswitch⟩
    rw [MultiForkDb.switchFork, if_neg hid, hisolated.inactive id hid] at hswitch
    cases hswitch
    rfl

variable {DB E : Type} [DatabaseRef DB E] {db : DB} {tx : TracedTx db} {adopter : Address}

def Request.call (r : Request) (gasLimit : Nat) (caller : Address) : CallInputs :=
  ⟨r.abiEncode, gasLimit, precompileAddress, precompileAddress, caller, 0⟩

/-- The calldata that the precompile answers. Only two functions look at what follows the
selector. -/
def Answered (input : Bytes) : Prop :=
  leadingSelector input ∈ [forkPreStateSelector, forkPostStateSelector, loadCall.selector,
    getLogsSelector, getAssertionAdopterSelector] ∨
  (∃ target selector, input = (Request.getCallInputs target selector).abiEncode) ∨
  ∃ contractAddress slot, input = (Request.getStateChanges contractAddress slot).abiEncode

lemma decode_revert {text : String} (h : (abiEncodeError text).length < 2 ^ 256) :
    leadingSelector (abiEncodeError text) = errorSelector ∧
      Abi.string.single.decode ((abiEncodeError text).drop 4) = some text := by
  have hdrop : (abiEncodeError text).drop 4 = Abi.string.single.encode text :=
    List.drop_left' (length_toBytes 4 _)
  have hlength : (Abi.string.single.encode text).length < abiWord.bound := by
    have hle : (Abi.string.single.encode text).length ≤ (abiEncodeError text).length := by
      rw [← hdrop, List.length_drop]
      exact Nat.sub_le _ _
    exact Nat.lt_of_le_of_lt hle h
  refine ⟨leadingSelector_toBytes_append _ _, ?_⟩
  rw [hdrop, Abi.string.decode_single trivial hlength]

end Runs

end AssertionExecution
