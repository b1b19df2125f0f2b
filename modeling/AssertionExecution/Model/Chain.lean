import AssertionExecution.Model.Indexer

/-!
# Chains and nodes that serve them

What the indexer is meant to mirror: chains of blocks with their logs, and RPC nodes that
answer every query for one chain. `blockOf` is the block that a hash identifies.
-/

namespace AssertionExecution

structure ChainLog where
  address : Address
  topics : List B256
  data : Bytes
  logIndex : Nat
deriving DecidableEq, Repr

structure Block where
  header : Header
  logs : List ChainLog
  logs_sorted : (logs.map (·.logIndex)).Pairwise (· < ·)

namespace Block

/-- The logs of a block as an RPC node reports them. -/
def rpcLogs (b : Block) : List RpcLog :=
  b.logs.map fun l => ⟨l.address, l.topics, l.data, some l.logIndex, some b.header.number⟩

def updateBlock (b : Block) : UpdateBlock := ⟨b.header.number, b.header.hash, b.header.parentHash⟩

end Block

structure Chain (blockOf : B256 → Option Block) where
  blocks : List Block
  nonempty : blocks ≠ []
  bounded : blocks.length ≤ u64Max
  known : ∀ b ∈ blocks, blockOf b.header.hash = some b
  numbered : ∀ (n : Nat) (b : Block), blocks[n]? = some b → b.header.number = n
  linked : ∀ (n : Nat) (b c : Block), blocks[n]? = some b → blocks[n + 1]? = some c →
    c.header.parentHash = b.header.hash
  genesis : ∀ b : Block, blocks[0]? = some b → blockOf b.header.parentHash = none

namespace Chain

variable {blockOf : B256 → Option Block}

def head (chain : Chain blockOf) : Block := chain.blocks.getLast chain.nonempty

/-- The logs that a filter selects. -/
def logs (chain : Chain blockOf) (filter : Filter) : List RpcLog :=
  ((chain.blocks.filter fun b =>
      filter.fromBlock ≤ b.header.number ∧ b.header.number ≤ filter.toBlock).flatMap
    Block.rpcLogs).filter fun l => l.address = filter.address

/-- The chains have the same blocks below `k`. -/
def Agree (chain chain' : Chain blockOf) (k : Nat) : Prop :=
  ∀ n, n < k → chain.blocks[n]? = chain'.blocks[n]?

end Chain

/-- The node answers every query for the chain, with the given block under the await tag. It
may also know blocks of other chains by their hashes. -/
structure Node.Serves {blockOf : B256 → Option Block} (node : Node) (chain : Chain blockOf)
    (tag : BlockTag) (awaited : Nat) : Prop where
  getLogs : ∀ filter, (node.getLogs filter).Perm (chain.logs filter)
  getBlockByNumber : ∀ n, node.getBlockByNumber n = (chain.blocks[n]?).map Block.header
  getBlockByHash : ∀ b ∈ chain.blocks, node.getBlockByHash b.header.hash = some b.header
  unknown : ∀ hash, blockOf hash = none → node.getBlockByHash hash = none
  getBlockByTag : ∃ b, chain.blocks[awaited]? = some b ∧ node.getBlockByTag tag = some b.header

/-! ### The modifications of a block -/

namespace Indexer

/-- The modification of a log, or the error that stops the indexer on it. -/
def extract (self : Indexer) (services : Services) (topics : List B256) (data : Bytes)
    (logIndex : Nat) : Except IndexerError (Option PendingModification) :=
  if topics.head? = some services.assertionAdded.signatureHash then
    match services.assertionAdded.decode topics data with
    | none => .error .eventDecodeError
    | some event =>
      match services.fetchAssertion event.assertionId with
      | none => .error .daClientError
      | some response =>
        match services.extractAssertionContract
            (response.bytecode ++ response.encodedConstructorArgs) self.executorConfig with
        | none => .ok none
        | some (contract, recorder) =>
          if u64Max < event.activeAtBlock.toNat then .error .blockNumberExceedsU64
          else .ok (some (.add event.contractAddress contract recorder
            event.activeAtBlock.toNat logIndex))
  else if topics.head? = some services.assertionRemoved.signatureHash then
    match services.assertionRemoved.decode topics data with
    | none => .error .eventDecodeError
    | some event =>
      if u64Max < event.activeAtBlock.toNat then .error .blockNumberExceedsU64
      else .ok (some (.remove event.contractAddress event.assertionId
        event.activeAtBlock.toNat logIndex))
  else .ok none

def modificationOf (self : Indexer) (services : Services) (log : ChainLog) :
    Option PendingModification :=
  match self.extract services log.topics log.data log.logIndex with
  | .ok m => m
  | .error _ => none

/-- The state oracle's modifications in a block with their log indices, in log order. -/
def blockEntries (self : Indexer) (services : Services) (b : Block) :
    List (Nat × PendingModification) :=
  (b.logs.filter fun l => l.address = self.stateOracle).filterMap fun l =>
    (self.modificationOf services l).map fun m => (l.logIndex, m)

def blockModifications (self : Indexer) (services : Services) (b : Block) :
    List PendingModification :=
  (self.blockEntries services b).map Prod.snd

def Extractable (self : Indexer) (services : Services) (b : Block) : Prop :=
  ∀ l ∈ b.logs, l.address = self.stateOracle →
    ∃ m, self.extract services l.topics l.data l.logIndex = .ok m

end Indexer

def Chain.modifications {blockOf : B256 → Option Block} (chain : Chain blockOf) (self : Indexer)
    (services : Services) (n : Nat) : List PendingModification :=
  ((chain.blocks[n]?).map (self.blockModifications services)).getD []

/-- The pending entry that stands for the modifications of a block. -/
def Chain.pendingEntry {blockOf : B256 → Option Block} (chain : Chain blockOf) (self : Indexer)
    (services : Services) (n : Nat) : Option (List PendingModification) :=
  if chain.modifications self services n = [] then none
  else some (chain.modifications self services n)

/-! ### Chains and nodes from blocks -/

namespace Chain

variable {blockOf : B256 → Option Block}

def ofGenesis (b : Block) (hknown : blockOf b.header.hash = some b) (hnumber : b.header.number = 0)
    (hparent : blockOf b.header.parentHash = none) : Chain blockOf where
  blocks := [b]
  nonempty := List.cons_ne_nil _ _
  bounded := by
    rw [List.length_singleton]
    decide
  known := by simpa using hknown
  numbered := by
    intro n c hc
    cases n with
    | zero =>
      cases hc
      exact hnumber
    | succ n => simp at hc
  linked := by simp
  genesis := by
    intro c hc
    cases hc
    exact hparent

def extend (chain : Chain blockOf) (b : Block) (hknown : blockOf b.header.hash = some b)
    (hnumber : b.header.number = chain.blocks.length)
    (hparent : b.header.parentHash = chain.head.header.hash)
    (hbound : chain.blocks.length < u64Max) : Chain blockOf where
  blocks := chain.blocks ++ [b]
  nonempty := by simp
  bounded := by
    rw [List.length_append, List.length_singleton]
    exact hbound
  known := by
    intro c hc
    rcases List.mem_append.mp hc with hc | hc
    · exact chain.known c hc
    · rw [List.mem_singleton.mp hc]
      exact hknown
  numbered := by
    intro n c hc
    rcases Nat.lt_or_ge n chain.blocks.length with hn | hn
    · rw [List.getElem?_append_left hn] at hc
      exact chain.numbered n c hc
    · rw [List.getElem?_append_right hn, List.getElem?_singleton] at hc
      obtain ⟨h0, hc⟩ := Option.ite_none_right_eq_some.mp hc
      cases hc
      omega
  linked := by
    intro n c d hc hd
    have hn : n < chain.blocks.length := by
      have hlen := (List.getElem?_eq_some_iff.mp hd).1
      rw [List.length_append, List.length_singleton] at hlen
      omega
    rw [List.getElem?_append_left hn] at hc
    rcases Nat.lt_or_ge (n + 1) chain.blocks.length with hn' | hn'
    · rw [List.getElem?_append_left hn'] at hd
      exact chain.linked n c d hc hd
    · have hlast : n = chain.blocks.length - 1 := by omega
      have hhead : chain.head = c := by
        rw [head, ← Option.some_inj, ← List.getLast?_eq_some_getLast, List.getLast?_eq_getElem?,
          ← hlast, hc]
      rw [List.getElem?_append_right hn', List.getElem?_singleton] at hd
      obtain ⟨h0, hd⟩ := Option.ite_none_right_eq_some.mp hd
      cases hd
      rw [hparent, hhead]
  genesis := by
    intro c hc
    rw [List.getElem?_append_left (List.length_pos_iff.mpr chain.nonempty)] at hc
    exact chain.genesis c hc

/-- The node that knows this chain only, with the given block under every tag. -/
def node (chain : Chain blockOf) (awaited : Nat) : Node where
  getLogs := chain.logs
  getBlockByHash hash := (chain.blocks.find? fun b => b.header.hash = hash).map Block.header
  getBlockByNumber n := (chain.blocks[n]?).map Block.header
  getBlockByTag _ := (chain.blocks[awaited]?).map Block.header

theorem node_serves (chain : Chain blockOf) (tag : BlockTag) {awaited : Nat}
    (h : awaited < chain.blocks.length) : (chain.node awaited).Serves chain tag awaited where
  getLogs _ := List.Perm.refl _
  getBlockByNumber _ := rfl
  getBlockByHash := by
    intro b hb
    have hfind : chain.blocks.find? (fun c => c.header.hash = b.header.hash) = some b := by
      cases hc : chain.blocks.find? (fun c => c.header.hash = b.header.hash) with
      | none => simpa using List.find?_eq_none.mp hc b hb
      | some c =>
        have hhash : c.header.hash = b.header.hash := by simpa using List.find?_some hc
        have hknown := chain.known c (List.mem_of_find?_eq_some hc)
        rw [hhash, chain.known b hb] at hknown
        exact hknown.symm
    exact congrArg (Option.map Block.header) hfind
  unknown := by
    intro hash hunknown
    have hfind : chain.blocks.find? (fun c => c.header.hash = hash) = none := by
      rw [List.find?_eq_none]
      intro b hb hhash
      rw [decide_eq_true_eq] at hhash
      have hknown := chain.known b hb
      rw [hhash, hunknown] at hknown
      cases hknown
    exact congrArg (Option.map Block.header) hfind
  getBlockByTag := ⟨chain.blocks[awaited], List.getElem?_eq_getElem h, by
    exact congrArg (Option.map Block.header) (List.getElem?_eq_getElem h)⟩

end Chain

/-! ### Sample chains -/

namespace Sample

/-- The data of an `AssertionRemoved` event: a contract, an assertion id and a block. -/
def removedData : Bytes := toBytes 32 7 ++ toBytes 32 8 ++ toBytes 32 5

/-- Services that know the event above and no assertion. -/
def services : Services where
  assertionAdded := ⟨1, fun _ _ => none⟩
  assertionRemoved := ⟨2, fun _ data => if data = removedData then some ⟨7, 8, 5⟩ else none⟩
  fetchAssertion _ := none
  extractAssertionContract _ _ := none

def genesis : Block := ⟨⟨0, 10, 9⟩, [], by simp⟩

def removalBlock : Block := ⟨⟨1, 11, 10⟩, [⟨1, [2], removedData, 0⟩], by simp⟩

/-- A block without logs in place of the removal. -/
def emptyBlock : Block := ⟨⟨1, 12, 10⟩, [], by simp⟩

/-- Two blocks that follow the removal. -/
def secondBlock : Block := ⟨⟨2, 13, 11⟩, [⟨1, [2], removedData, 3⟩], by simp⟩

def otherSecondBlock : Block := ⟨⟨2, 14, 11⟩, [], by simp⟩

/-- Two blocks that follow the second block. -/
def thirdBlock : Block := ⟨⟨3, 15, 13⟩, [⟨1, [2], removedData, 2⟩], by simp⟩

def otherThirdBlock : Block := ⟨⟨3, 16, 13⟩, [], by simp⟩

def blockOf (hash : B256) : Option Block :=
  [genesis, removalBlock, emptyBlock, secondBlock, otherSecondBlock, thirdBlock,
    otherThirdBlock].find? fun b => b.header.hash = hash

def genesisChain : Chain blockOf := .ofGenesis genesis rfl rfl rfl

def removalChain : Chain blockOf := genesisChain.extend removalBlock rfl rfl rfl (by decide)

def emptyChain : Chain blockOf := genesisChain.extend emptyBlock rfl rfl rfl (by decide)

def secondChain : Chain blockOf := removalChain.extend secondBlock rfl rfl rfl (by decide)

def otherSecondChain : Chain blockOf :=
  removalChain.extend otherSecondBlock rfl rfl rfl (by decide)

def thirdChain : Chain blockOf := secondChain.extend thirdBlock rfl rfl rfl (by decide)

def otherThirdChain : Chain blockOf := secondChain.extend otherThirdBlock rfl rfl rfl (by decide)

def indexer : Indexer := ⟨1, ⟨0, 1, 1000⟩, .finalized⟩

def env (chain : Chain blockOf) (awaited : Nat) (fault : Nat → Bool) : Env :=
  ⟨fun _ => chain.node awaited, fault, fun _ => false, services⟩

def initial : IndexerState := ⟨.empty, none, .empty, .newEphemeral, 0, []⟩

end Sample

end AssertionExecution
