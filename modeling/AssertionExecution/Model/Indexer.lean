import AssertionExecution.Model.Executor

/-!
# The indexer

`Indexer::sync` and everything it calls, as programs over the indexer's trees. Every RPC
answer, DA fetch and tree operation is one numbered step: `Env.node` is the RPC node as it
is at a step, `Env.fault` tells whether the step fails.
-/

namespace AssertionExecution

open EffectLogic

/-! ### What the node, the DA layer and the event codec answer -/

structure Header where
  number : Nat
  hash : B256
  parentHash : B256
deriving DecidableEq, Repr

structure BlockNumHash where
  number : Nat
  hash : B256
deriving DecidableEq, Repr

structure RpcLog where
  address : Address
  topics : List B256
  data : Bytes
  logIndex : Option Nat
  blockNumber : Option Nat
deriving DecidableEq, Repr

structure Filter where
  address : Address
  fromBlock : Nat
  toBlock : Nat
deriving DecidableEq, Repr

inductive BlockTag where
  | latest
  | finalized
  | safe
deriving DecidableEq, Repr

structure Node where
  getLogs : Filter → List RpcLog
  getBlockByHash : B256 → Option Header
  getBlockByNumber : Nat → Option Header
  getBlockByTag : BlockTag → Option Header

/-- `AssertionAdded` and `AssertionRemoved` carry the same fields. -/
structure StateOracleEvent where
  contractAddress : Address
  assertionId : B256
  activeAtBlock : U256
deriving DecidableEq, Repr

structure SolEvent where
  signatureHash : B256
  decode : List B256 → Bytes → Option StateOracleEvent

structure DaFetchResponse where
  bytecode : Bytes
  encodedConstructorArgs : Bytes
deriving DecidableEq, Repr

/-- The event codecs, the DA layer and the contract extractor. -/
structure Services where
  assertionAdded : SolEvent
  assertionRemoved : SolEvent
  fetchAssertion : B256 → Option DaFetchResponse
  extractAssertionContract : Bytes → ExecutorConfig → Option (AssertionContract × TriggerRecorder)

structure Env where
  node : Nat → Node
  fault : Nat → Bool
  storeFault : Nat → Bool
  services : Services

/-! ### The indexer's state -/

inductive CheckIfReorgedError where
  | parentBlockNotFound
  | transportError
deriving DecidableEq, Repr

inductive IndexerError where
  | transportError
  | sledError
  | bincodeError
  | eventDecodeError
  | blockNumberMissing
  | logIndexMissing
  | blockNumberExceedsU64
  | daClientError
  | parentBlockNotFound
  | blockHashMissing
  | noCommonAncestor
  | checkIfReorgedError (e : CheckIfReorgedError)
  | assertionStoreError (e : AssertionStoreError)
deriving DecidableEq, Repr

structure UpdateBlock where
  blockNumber : Nat
  blockHash : B256
  parentHash : B256
deriving DecidableEq, Repr

/-- What `index_range` reports through `tracing`. -/
inductive TraceEvent where
  | indexingRange (first last : Nat)
  | pendingModificationsMoved (blockToMove : Nat)
deriving DecidableEq, Repr

/-- The indexer's trees and store, the number of steps taken and the trace, latest first. -/
structure IndexerState where
  blockHashTree : OrderedTree Nat B256
  latestBlockTree : Option BlockNumHash
  pendingModificationsTree : OrderedTree Nat (List PendingModification)
  store : AssertionStore
  steps : Nat
  trace : List TraceEvent

structure Indexer where
  stateOracle : Address
  executorConfig : ExecutorConfig
  awaitTag : BlockTag
deriving DecidableEq, Repr

abbrev IndexerM (α : Type) := Eff (Failure IndexerError) IndexerState α

namespace Indexer

/-! ### Steps -/

/-- Takes the next step, which may fail with the given error. -/
def step (env : Env) (e : IndexerError) : IndexerM Nat := do
  let s ← get
  set { s with steps := s.steps + 1 }
  if env.fault s.steps then throw (.error e)
  return s.steps

/-- Asks the RPC node as it is at this step. -/
def request {α : Type} (env : Env) (ask : Node → α) (e : IndexerError := .transportError) :
    IndexerM α := do
  let t ← step env e
  return ask (env.node t)

def treeOperation {α : Type} (env : Env) (f : IndexerState → α × IndexerState) : IndexerM α := do
  let _ ← step env .sledError
  let s ← get
  set (f s).2
  return (f s).1

def okOr {α : Type} (a : Option α) (e : IndexerError) : IndexerM α :=
  match a with
  | some a => pure a
  | none => throw (.error e)

/-- Addition on `u64`, which panics on overflow. -/
def checkedAdd (a b : Nat) : IndexerM Nat :=
  if a + b ≤ u64Max then pure (a + b) else throw .panicked

def checkedSub (a b : Nat) : IndexerM Nat :=
  if b ≤ a then pure (a - b) else throw .panicked

def trace (event : TraceEvent) : IndexerM Unit :=
  modify fun s => { s with trace := event :: s.trace }

def onStore {α : Type} (x : StoreM α) : IndexerM α := do
  let s ← get
  match exec x s.store with
  | (.ok a, store) => do
    set { s with store := store }
    return a
  | (.error e, store) => do
    set { s with store := store }
    match e with
    | .error e => throw (.error (.assertionStoreError e))
    | .panicked => throw .panicked
    | .diverged => throw .diverged

/-! ### The trees -/

def getLastIndexedBlockNumHash (env : Env) : IndexerM (Option BlockNumHash) :=
  treeOperation env fun s => (s.latestBlockTree, s)

def insertLastIndexedBlockNumHash (env : Env) (blockNumHash : BlockNumHash) : IndexerM Unit :=
  treeOperation env fun s => ((), { s with latestBlockTree := some blockNumHash })

def writeBlockNumHashBatch (env : Env) (blockNumHashes : List BlockNumHash) : IndexerM Unit :=
  treeOperation env fun s => ((), { s with
    blockHashTree := s.blockHashTree.applyBatch (blockNumHashes.map fun b => (b.number, b.hash)) })

/-- `block_hash_tree.pop_first_in_range(range)` -/
def popBlockHash (env : Env) (range : Nat → Bool) : IndexerM (Option Nat) :=
  treeOperation env fun s => match s.blockHashTree.firstInRange range with
    | none => (none, s)
    | some e => (some e.1, { s with blockHashTree := s.blockHashTree.remove e.1 })

/-- `pending_modifications_tree.remove(key)` -/
def removePending (env : Env) (key : Nat) : IndexerM (Option (List PendingModification)) :=
  treeOperation env fun s => (s.pendingModificationsTree.get key,
    { s with pendingModificationsTree := s.pendingModificationsTree.remove key })

/-- The loop of `prune_to`: pops the block hashes below `to` with their modifications. -/
def pruneToLoop (env : Env) (upTo : Nat) :
    Nat → List PendingModification → IndexerM (List PendingModification)
  | 0, _ => throw .diverged
  | fuel + 1, pendingModifications => do
    match ← popBlockHash env (· < upTo) with
    | none => return pendingModifications
    | some key =>
      match ← removePending env key with
      | none => pruneToLoop env upTo fuel pendingModifications
      | some pendingMods => do
        -- Decoding the stored modifications may fail after they were removed.
        let _ ← step env .bincodeError
        pruneToLoop env upTo fuel (pendingModifications ++ pendingMods)

def pruneTo (env : Env) (upTo : Nat) : IndexerM (List PendingModification) := do
  let s ← get
  pruneToLoop env upTo (s.blockHashTree.entries.length + 1) []

/-- The loop of `prune_from`. -/
def pruneFromLoop (env : Env) (start : Nat) : Nat → IndexerM Unit
  | 0 => throw .diverged
  | fuel + 1 => do
    match ← popBlockHash env (start ≤ ·) with
    | none => return ()
    | some key => do
      let _ ← removePending env key
      pruneFromLoop env start fuel

def pruneFrom (env : Env) (start : Nat) : IndexerM Unit := do
  let s ← get
  pruneFromLoop env start (s.blockHashTree.entries.length + 1)

/-! ### Reorganisations -/

/-- The loop of `check_if_reorged`: follows parents down to the last indexed number. -/
def checkIfReorgedLoop (env : Env) (lastIndexedBlock : BlockNumHash) : Nat → B256 → IndexerM Bool
  | 0, _ => throw .diverged
  | fuel + 1, cursorHash => do
    let cursor ← request env (·.getBlockByHash cursorHash) (.checkIfReorgedError .transportError)
    let header ← okOr cursor (.checkIfReorgedError .parentBlockNotFound)
    if header.number ≠ lastIndexedBlock.number then
      checkIfReorgedLoop env lastIndexedBlock fuel header.parentHash
    else return header.hash ≠ lastIndexedBlock.hash

/-- Checks if the new block is part of the same chain as the last indexed block. -/
def checkIfReorged (env : Env) (fuel : Nat) (updateBlock : UpdateBlock)
    (lastIndexedBlock : BlockNumHash) : IndexerM Bool :=
  if updateBlock.blockNumber = lastIndexedBlock.number then
    return updateBlock.blockHash ≠ lastIndexedBlock.hash
  else checkIfReorgedLoop env lastIndexedBlock fuel updateBlock.parentHash

/-- Walks backwards until the block hashes tree knows the block under the cursor. -/
def findCommonAncestor (env : Env) : Nat → B256 → IndexerM Nat
  | 0, _ => throw .diverged
  | fuel + 1, cursorHash => do
    let cursor ← request env (·.getBlockByHash cursorHash)
    let header ← okOr cursor .parentBlockNotFound
    let stored ← treeOperation env fun s => (s.blockHashTree.get header.number, s)
    match stored with
    | none => throw (.error .noCommonAncestor)
    | some hash =>
      if hash = header.hash then return header.number
      else findCommonAncestor env fuel header.parentHash

/-! ### Indexing -/

/-- Decodes a log of the state oracle. An added assertion is fetched from the DA layer and
extracted; one that cannot be extracted is skipped. -/
def extractPendingModifications (self : Indexer) (env : Env) (topics : List B256) (data : Bytes)
    (logIndex : Nat) : IndexerM (Option PendingModification) := do
  let services := env.services
  if topics.head? = some services.assertionAdded.signatureHash then
    let event ← okOr (services.assertionAdded.decode topics data) .eventDecodeError
    let _ ← step env .daClientError
    let response ← okOr (services.fetchAssertion event.assertionId) .daClientError
    match services.extractAssertionContract (response.bytecode ++ response.encodedConstructorArgs)
        self.executorConfig with
    | none => return none
    | some (assertionContract, triggerRecorder) =>
      if u64Max < event.activeAtBlock.toNat then throw (.error .blockNumberExceedsU64)
      return some (.add event.contractAddress assertionContract triggerRecorder
        event.activeAtBlock.toNat logIndex)
  else if topics.head? = some services.assertionRemoved.signatureHash then
    let event ← okOr (services.assertionRemoved.decode topics data) .eventDecodeError
    if u64Max < event.activeAtBlock.toNat then throw (.error .blockNumberExceedsU64)
    return some (.remove event.contractAddress event.assertionId event.activeAtBlock.toNat logIndex)
  else return none

/-- Modifications by block number and log index. -/
abbrev OrderedModifications := OrderedTree Nat (OrderedTree Nat PendingModification)

def insertModification (pending : OrderedModifications) (blockNumber logIndex : Nat)
    (modification : PendingModification) : OrderedModifications :=
  pending.insert blockNumber
    (((pending.get blockNumber).getD .empty).insert logIndex modification)

def processLogs (self : Indexer) (env : Env) :
    List RpcLog → OrderedModifications → IndexerM OrderedModifications
  | [], pending => pure pending
  | log :: logs, pending => do
    let logIndex ← okOr log.logIndex .logIndexMissing
    let blockNumber ← okOr log.blockNumber .blockNumberMissing
    match ← self.extractPendingModifications env log.topics log.data logIndex with
    | none => processLogs self env logs pending
    | some modification =>
      processLogs self env logs (insertModification pending blockNumber logIndex modification)

/-- Writes the modifications of each block in log order, replacing earlier ones. -/
def writePendingModifications (env : Env) (pending : OrderedModifications) : IndexerM Unit :=
  treeOperation env fun s => ((), { s with
    pendingModificationsTree := s.pendingModificationsTree.applyBatch
      (pending.entries.map fun e => (e.1, e.2.values)) })

def fetchBlockHashes (env : Env) : List Nat → IndexerM (List BlockNumHash)
  | [] => pure []
  | i :: rest => do
    let block ← request env (·.getBlockByNumber i)
    let header ← okOr block .blockHashMissing
    let blockHashes ← fetchBlockHashes env rest
    return ⟨i, header.hash⟩ :: blockHashes

/-- Moves pending modifications to the store, with the given block as an upper bound. -/
def movePendingModificationsToStore (env : Env) (it : Iteration) (fuel : Nat) (upperBound : Nat) :
    IndexerM Unit := do
  -- The genesis block is kept until a later block is ready to be moved.
  if upperBound = 0 then return ()
  let pendingModifications ← pruneTo env (← checkedAdd upperBound 1)
  if pendingModifications.isEmpty then return ()
  onStore (AssertionStore.applyPendingModifications env.storeFault it fuel pendingModifications)

/-- Indexes the state oracle events of the blocks from `first` to `last`. -/
def indexRange (self : Indexer) (env : Env) (it : Iteration) (fuel : Nat) (first last : Nat) :
    IndexerM Unit := do
  trace (.indexingRange first last)
  let logs ← request env (·.getLogs ⟨self.stateOracle, first, last⟩)
  let pendingModifications ← self.processLogs env logs .empty
  writePendingModifications env pendingModifications
  let blockHashes ← fetchBlockHashes env (List.range' first (last + 1 - first))
  match blockHashes.getLast? with
  | none => pure ()
  | some lastIndexed => insertLastIndexedBlockNumHash env lastIndexed
  writeBlockNumHashBatch env blockHashes
  let block ← request env (·.getBlockByTag self.awaitTag)
  let blockToMove ← okOr block .parentBlockNotFound
  movePendingModificationsToStore env it fuel blockToMove.number
  trace (.pendingModificationsMoved blockToMove.number)

/-- The chunk loop of `sync`. -/
def syncLoop (self : Indexer) (env : Env) (it : Iteration) (fuel : Nat)
    (updateBlockNumber maxBlocksPerCall : Nat) : Nat → Nat → IndexerM Unit
  | 0, _ => throw .diverged
  | chunks + 1, currentFrom =>
    if currentFrom ≤ updateBlockNumber then do
      let chunkEnd ← checkedSub (← checkedAdd currentFrom maxBlocksPerCall) 1
      let currentTo := min chunkEnd updateBlockNumber
      self.indexRange env it fuel currentFrom currentTo
      if currentTo = updateBlockNumber then return ()
      syncLoop self env it fuel updateBlockNumber maxBlocksPerCall chunks
        (← checkedAdd currentTo 1)
    else pure ()

/-- The first block to index: after the last indexed block, or after the common ancestor
once a reorganisation has been rolled back. -/
def syncStart (env : Env) (fuel : Nat) (updateBlock : UpdateBlock) : IndexerM Nat := do
  match ← getLastIndexedBlockNumHash env with
  | none => return 0
  | some lastIndexed =>
    if ← checkIfReorged env fuel updateBlock lastIndexed then
      let commonAncestor ← findCommonAncestor env fuel updateBlock.parentHash
      let start ← checkedAdd commonAncestor 1
      pruneFrom env start
      insertLastIndexedBlockNumHash env ⟨commonAncestor, updateBlock.parentHash⟩
      return start
    else checkedAdd lastIndexed.number 1

/-- Syncs the indexer to an update block. `fuel` bounds every loop that the trees or the
block number do not bound. -/
def sync (self : Indexer) (env : Env) (it : Iteration) (fuel : Nat) (updateBlock : UpdateBlock)
    (maxBlocksPerCall : Nat) : IndexerM Unit := do
  let start ← syncStart env fuel updateBlock
  self.syncLoop env it fuel updateBlock.blockNumber maxBlocksPerCall
    (updateBlock.blockNumber + 1 - start + 1) start

end Indexer

end AssertionExecution
