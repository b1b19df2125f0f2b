import AssertionExecution.Model.Indexer

/-!
# The indexer as a service

What an indexer does around `sync`: it syncs to the head once and then handles the blocks of
a subscription until something fails. The trees outlive the indexer that works on them.
-/

namespace AssertionExecution

open EffectLogic

/-- What the service returns: errors of its calls, and two of its own. -/
inductive ServiceError where
  | indexer (e : IndexerError)
  | blockStreamError
  | storeNotSynced
deriving DecidableEq, Repr

inductive StreamItem where
  | block (header : Header)
  /-- The receiver has lagged behind, or the channel is closed. -/
  | recvError
deriving DecidableEq, Repr

/-- An indexer at work: its trees, and whether it has synced to the latest block. -/
structure IndexerService where
  trees : IndexerState
  isSynced : Bool

abbrev ServiceM (α : Type) := Eff (Failure ServiceError) IndexerService α

/-- `MAX_BLOCKS_PER_CALL` -/
def maxBlocksPerCall : Nat := 50000

namespace IndexerService

/-- Creates an indexer on trees that may have been used before. -/
def new (trees : IndexerState) : IndexerService := ⟨trees, false⟩

def onTrees {α : Type} (x : IndexerM α) : ServiceM α := do
  let s ← get
  match exec x s.trees with
  | (.ok a, trees) => do
    set { s with trees := trees }
    return a
  | (.error e, trees) => do
    set { s with trees := trees }
    match e with
    | .error e => throw (.error (.indexer e))
    | .panicked => throw .panicked
    | .diverged => throw .diverged

section

variable (self : Indexer) (env : Env) (it : Nat → Iteration) (fuel : Nat)

/-- The call of `sync` for a header. `it` orders the hash maps of the call made at each step. -/
def syncTo (header : Header) : ServiceM Unit := do
  let s ← get
  onTrees (self.sync env (it s.trees.steps) fuel
    ⟨header.number, header.hash, header.parentHash⟩ maxBlocksPerCall)

def handleLatestBlock (header : Header) : ServiceM Unit := syncTo self env it fuel header

/-- Syncs the indexer to the latest block. Without a latest block it returns unsynced. -/
def syncToHead : ServiceM Unit := do
  match ← onTrees (Indexer.request env (·.getBlockByTag .latest)) with
  | none => return ()
  | some header => do
    syncTo self env it fuel header
    modify fun s => { s with isSynced := true }

def newSynced (trees : IndexerState) : Except (Failure ServiceError) Unit × IndexerService :=
  exec (syncToHead self env it fuel) (new trees)

/-- The loop of `run` over what the subscription delivers. It returns where it waits for more. -/
def runLoop : List StreamItem → ServiceM Unit
  | [] => pure ()
  | .recvError :: _ => throw (.error .blockStreamError)
  | .block header :: rest => do
    handleLatestBlock self env it fuel header
    runLoop rest

/-- Runs the indexer. It refuses to before it has been synced. -/
def run (stream : List StreamItem) : ServiceM Unit := do
  let s ← get
  if !s.isSynced then throw (.error .storeNotSynced)
  -- `subscribe_blocks`
  let _ ← onTrees (Indexer.step env .transportError)
  runLoop self env it fuel stream

end

end IndexerService

end AssertionExecution
