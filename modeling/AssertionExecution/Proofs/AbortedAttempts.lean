import AssertionExecution.Proofs.IndexRange

/-!
# Indexing a range again after an aborted attempt

An attempt that stops between its two batches leaves pending entries for blocks that have
no block hash yet. Later attempts overwrite such an entry only where they have
modifications of their own.
-/

namespace AssertionExecution

open EffectLogic

namespace Indexer

section Reindexing

variable {self : Indexer} {env : Env} {it : Iteration} {fuel : Nat} {s s' : IndexerState}
  {blockOf : B256 → Option Block} {chain : Chain blockOf} {awaited : Nat → Nat} {first last : Nat}

lemma pending_of_indexRange (hserves : ∀ t, (env.node t).Serves chain self.awaitTag (awaited t))
    (hawaited : ∀ t, awaited t < first)
    (hrun : exec (self.indexRange env it fuel first last) s = (.ok (), s')) {n : Nat}
    (hfirst : first ≤ n) (hlast : n ≤ last) :
    s'.pendingModificationsTree.get n =
      (chain.pendingEntry self env.services n).or (s.pendingModificationsTree.get n) := by
  obtain ⟨c, t, header, hrecorded, hheader, hs'⟩ :=
    (indexRange_describes (c := s.contents) (describesRange_of_serves hserves)).ok rfl hrun
  obtain ⟨b, hb, htag⟩ := (hserves t).getBlockByTag
  rw [htag] at hheader
  cases hheader
  have hnumber : b.header.number < n := by
    rw [chain.numbered _ b hb]
    exact Nat.lt_of_lt_of_le (hawaited t) hfirst
  change s'.contents.pending.get n = _
  rw [hs', Contents.get_pending_moved, if_neg (by omega), hrecorded.pending,
    if_pos ⟨hfirst, hlast⟩]
  rfl

/-- From any state, a range above the awaited block is indexed exactly if and only if no
entry was pending for one of its blocks that has no modifications. -/
theorem reindexed_exactly_iff
    (hserves : ∀ t, (env.node t).Serves chain self.awaitTag (awaited t))
    (hawaited : ∀ t, awaited t < first)
    (hrun : exec (self.indexRange env it fuel first last) s = (.ok (), s')) :
    (∀ n, first ≤ n → n ≤ last →
      s'.pendingModificationsTree.get n = chain.pendingEntry self env.services n) ↔
    ∀ n, first ≤ n → n ≤ last → chain.modifications self env.services n = [] →
      s.pendingModificationsTree.get n = none := by
  have hget := fun n => pending_of_indexRange (n := n) hserves hawaited hrun
  constructor
  · intro h n hfirst hlast hnil
    have hentry := h n hfirst hlast
    rw [hget n hfirst hlast, Chain.pendingEntry, if_pos hnil, Option.none_or] at hentry
    exact hentry
  · intro h n hfirst hlast
    rw [hget n hfirst hlast, Chain.pendingEntry]
    by_cases hnil : chain.modifications self env.services n = []
    · rw [if_pos hnil, Option.none_or, h n hfirst hlast hnil]
    · rw [if_neg hnil, Option.some_or]

end Reindexing

/-- The states of an indexer after any number of attempts to sync, failed ones included. -/
inductive Attempted (self : Indexer) : IndexerState → Prop
  | start {s : IndexerState} (h : s.contents = ⟨.empty, none, .empty, .empty, []⟩) :
      Attempted self s
  | sync {s : IndexerState} (env : Env) (it : Iteration) (fuel : Nat) (updateBlock : UpdateBlock)
      (maxBlocksPerCall : Nat) (h : Attempted self s) :
      Attempted self (exec (self.sync env it fuel updateBlock maxBlocksPerCall) s).2

/-! ### An aborted attempt before a reorganisation -/

open Sample

namespace StaleEntry

def started : IndexerState :=
  (exec (indexer.sync (env genesisChain 0 fun _ => false) .buckets 5 genesis.updateBlock 50000)
    initial).2

/-- The step after the pending batch of block 1 has failed. -/
def aborted : IndexerState :=
  (exec (indexer.sync (env removalChain 0 fun t => t = 11) .buckets 5
    removalBlock.updateBlock 50000) started).2

lemma aborted_attempted : indexer.Attempted aborted :=
  .sync _ _ _ _ _ (.sync _ _ _ _ _ (.start rfl))

end StaleEntry

/-- The entry of the block with a removal, indexed after the genesis block. -/
theorem reindexed_exactly_iff_removal :
    ∃ s, exec (indexer.indexRange (env removalChain 0 fun _ => false)
        .buckets 5 1 1) StaleEntry.started = (.ok (), s) ∧
      ∀ n, 1 ≤ n → n ≤ 1 → s.pendingModificationsTree.get n =
        removalChain.pendingEntry indexer services n := by
  have hrun : exec (indexer.indexRange
      (env removalChain 0 fun _ => false) .buckets 5 1 1) StaleEntry.started =
    (.ok (), _) := rfl
  refine ⟨_, hrun, (reindexed_exactly_iff (fun _ => Chain.node_serves _ _ (by decide))
    (fun _ => Nat.one_pos) hrun).mpr ?_⟩
  intro n hfirst hlast hnil
  obtain rfl : n = 1 := Nat.le_antisymm hlast hfirst
  exact absurd hnil (by decide)

/-- Block 1 is replaced by a block without modifications, and its old entry stays. -/
theorem stale_entry_survives :
    ¬∀ (self : Indexer) (blockOf : B256 → Option Block) (chain : Chain blockOf) (env : Env)
      (awaited first last fuel : Nat) (it : Iteration) (s s' : IndexerState), self.Attempted s →
      (∀ t, (env.node t).Serves chain self.awaitTag awaited) → awaited < first →
      exec (self.indexRange env it fuel first last) s = (.ok (), s') →
      ∀ n, first ≤ n → n ≤ last →
        s'.pendingModificationsTree.get n = chain.pendingEntry self env.services n := by
  intro h
  have hentry := h indexer blockOf emptyChain
    (env emptyChain 0 fun _ => false) 0 1 1 5 .buckets StaleEntry.aborted _
    StaleEntry.aborted_attempted (fun _ => Chain.node_serves _ _ (by decide)) (by decide) rfl
    1 (Nat.le_refl _) (Nat.le_refl _)
  exact absurd hentry (by decide)

end Indexer

end AssertionExecution
