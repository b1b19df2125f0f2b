import AssertionExecution.Proofs.IndexRange

/-!
# Indexing a range while the chain changes

The provider may serve a different chain at every step. The logs of a range and each of its
hashes are separate answers, so they describe the same block only as far as the chains
that are served agree on it.
-/

namespace AssertionExecution

open EffectLogic

/-- Some stretch of the moved modifications is the pending entry of a recorded block. -/
lemma Contents.exists_split_pendingIn (range : Nat → Bool) {c : Contents} {n : Nat} {hash : B256}
    (hhash : c.hashes.get n = some hash) (hrange : range n = true) :
    ∃ before after, c.pendingIn range = before ++ (c.pending.get n).getD [] ++ after := by
  have hmem : (n, hash) ∈ c.hashes.entries.filter fun e => range e.1 :=
    List.mem_filter.mpr ⟨(c.hashes.get_eq_some_iff n hash).mp hhash, hrange⟩
  obtain ⟨l, l', hsplit⟩ := List.append_of_mem hmem
  refine ⟨l.flatMap fun e => (c.pending.get e.1).getD [],
    l'.flatMap fun e => (c.pending.get e.1).getD [], ?_⟩
  rw [pendingIn, hsplit, List.flatMap_append, List.flatMap_cons, List.append_assoc]

namespace Indexer

/-- A block of a range as a call records it: `c` is what the trees hold before the
modifications up to `upperBound` are moved to the store. -/
structure RecordsBlock (indexer : Indexer) (services : Services) (s s' : IndexerState)
    (c : Contents) (first upperBound n : Nat) (b : Block) : Prop where
  hash : c.hashes.get n = some b.header.hash
  modifications : (c.pending.get n).getD [] = indexer.blockModifications services b
  parent : first < n → c.hashes.get (n - 1) = some b.header.parentHash
  kept : upperBound = 0 ∨ upperBound < n → s'.blockHashTree.get n = some b.header.hash ∧
    (s'.pendingModificationsTree.get n).getD [] = indexer.blockModifications services b
  moved : upperBound ≠ 0 → n ≤ upperBound → ∃ before after, s'.store.db =
    AssertionStore.applyAll s.store.db
      (before ++ indexer.blockModifications services b ++ after)

section Reorganising

variable {self : Indexer} {env : Env} {it : Iteration} {fuel : Nat} {s s' : IndexerState}
  {blockOf : B256 → Option Block} {chainAt : Nat → Chain blockOf} {awaited : Nat → Nat}
  {first last : Nat}

/-- The answer for a number is the block that all served chains have there. -/
lemma hash_of_stable {n : Nat} {b : Block} {header : Header}
    (hserves : ∀ t, (env.node t).Serves (chainAt t) self.awaitTag (awaited t)) {t : Nat}
    (hstable : (chainAt t).blocks[n]? = some b)
    (hheader : (env.node t).getBlockByNumber n = some header) : header.hash = b.header.hash := by
  rw [(hserves t).getBlockByNumber, hstable] at hheader
  cases hheader
  rfl

lemma parentHash_of_stable {n : Nat} {b : Block} {header : Header}
    (hserves : ∀ t, (env.node t).Serves (chainAt t) self.awaitTag (awaited t)) {t : Nat}
    (hstable : (chainAt t).blocks[n + 1]? = some b)
    (hheader : (env.node t).getBlockByNumber n = some header) :
    header.hash = b.header.parentHash := by
  rw [(hserves t).getBlockByNumber] at hheader
  obtain ⟨parent, hparent, rfl⟩ := Option.map_eq_some_iff.mp hheader
  exact ((chainAt t).linked n parent b hparent hstable).symm

/-- However the served chain changes during the call, a block of the range that all served
chains contain is recorded with its own modifications under its own hash, above the hash of
its parent. It stays in the trees until its modifications are moved to the store, with the
blocks up to one that the node had under the await tag during the call. -/
theorem stable_blocks_recorded
    (hserves : ∀ t, (env.node t).Serves (chainAt t) self.awaitTag (awaited t))
    (hrun : exec (self.indexRange env it fuel first last) s = (.ok (), s')) :
    ∃ (c : Contents) (upperBound : Nat), s'.contents = c.moved upperBound ∧
      self.AwaitedIn env s.steps s'.steps upperBound ∧
      ∀ n b, first ≤ n → n ≤ last → (∀ t, (chainAt t).blocks[n]? = some b) →
        (self.blockModifications env.services b = [] →
          s.pendingModificationsTree.get n = none) →
        self.RecordsBlock env.services s s' c first upperBound n b := by
  obtain ⟨t₀, pending, blockHashes, t₁, header, hcollect, hnumbers, hanswered, hheader, hs'⟩ :=
    (indexRange_answers (c := s.contents) first last).ok rfl hrun
  obtain ⟨upperBound, trace, htrace, hawaited⟩ :=
    (indexRange_awaited s.steps first last).ok (Nat.le_refl _) hrun
  -- What the call reports last is the block that it moved up to.
  obtain ⟨heq, -⟩ := List.cons.inj (htrace.symm.trans (congrArg Contents.trace hs'))
  cases heq
  refine ⟨_, header.number, hs', hawaited, ?_⟩
  intro n b hfirst hlast hstable hstale
  have hhash : (recorded s.contents first last pending blockHashes).hashes.get n =
      some b.header.hash := by
    obtain ⟨answer, hanswer, rfl⟩ := exists_mem_of_range hnumbers hfirst hlast
    obtain ⟨t, found, hfound, hfoundHash⟩ := hanswered answer hanswer
    rw [get_hashes_recorded_of_mem hnumbers hanswer, hfoundHash,
      hash_of_stable hserves (hstable t) hfound]
  have hmods : ((recorded s.contents first last pending blockHashes).pending.get n).getD [] =
      self.blockModifications env.services b := by
    have hlogs : self.LogsOf (chainAt t₀) first last
        ((env.node t₀).getLogs ⟨self.stateOracle, first, last⟩) :=
      fun log => ((hserves t₀).getLogs _).mem_iff
    have hblock : (chainAt t₀).modifications self env.services n =
        self.blockModifications env.services b := by
      rw [Chain.modifications, hstable t₀, Option.map_some, Option.getD_some]
    rw [get_pending_recorded hlogs hcollect, if_pos ⟨hfirst, hlast⟩, Chain.pendingEntry, hblock]
    by_cases hnil : self.blockModifications env.services b = []
    · rw [if_pos hnil, hnil, Option.none_or]
      exact congrArg (Option.getD · []) (hstale hnil)
    · rw [if_neg hnil, Option.some_or, Option.getD_some]
  refine ⟨hhash, hmods, ?_, ?_, ?_⟩
  · intro hlt
    obtain ⟨n, rfl⟩ := Nat.exists_eq_add_of_lt hlt
    obtain ⟨answer, hanswer, hnumber⟩ :=
      exists_mem_of_range (n := first + n) hnumbers (by omega) (by omega)
    obtain ⟨t, found, hfound, hfoundHash⟩ := hanswered answer hanswer
    rw [hnumber] at hfound
    rw [Nat.add_sub_cancel, ← hnumber, get_hashes_recorded_of_mem hnumbers hanswer, hfoundHash,
      parentHash_of_stable hserves (hstable t) hfound]
  · intro hkept
    change s'.contents.hashes.get n = _ ∧ (s'.contents.pending.get n).getD [] = _
    rw [hs']
    rw [Contents.get_hashes_moved, Contents.get_pending_moved, if_neg (by omega),
      if_neg (by omega)]
    exact ⟨hhash, hmods⟩
  · intro hne hle
    obtain ⟨before, after, hsplit⟩ := Contents.exists_split_pendingIn
      (fun k => decide (k < header.number + 1)) hhash (by simpa using Nat.lt_succ_of_le hle)
    refine ⟨before, after, ?_⟩
    change s'.contents.db = _
    rw [hs', Contents.moved, Contents.move, if_neg hne, ← hmods, ← hsplit]
    rfl

end Reorganising

open Sample

/-- A provider whose chain changes before a step. -/
def switching (before after : Chain blockOf) (step : Nat) : Env :=
  ⟨fun t => (if t < step then before else after).node 0, fun _ => false, fun _ => false, services⟩

lemma switching_serves {before after : Chain blockOf} {step : Nat}
    (hbefore : 0 < before.blocks.length) (hafter : 0 < after.blocks.length) (t : Nat) :
    ((switching before after step).node t).Serves (if t < step then before else after)
      indexer.awaitTag 0 := by
  refine Chain.node_serves _ _ ?_
  split
  · exact hbefore
  · exact hafter

/-- Block 1 is on both chains and block 2 is replaced after the logs have been listed. -/
theorem stable_blocks_recorded_removal :
    ∃ s c upperBound, exec (indexer.indexRange (switching secondChain otherSecondChain 1)
        .buckets 5 0 2) initial = (.ok (), s) ∧ s.contents = c.moved upperBound ∧
      upperBound = 0 ∧ indexer.RecordsBlock services initial s c 0 upperBound 1 removalBlock := by
  obtain ⟨s, hrun⟩ : ∃ s, exec (indexer.indexRange (switching secondChain otherSecondChain 1)
      .buckets 5 0 2) initial = (.ok (), s) := exists_exec_ok (by decide)
  obtain ⟨c, upperBound, hs, hawaited, hrecords⟩ := stable_blocks_recorded
    (fun t => switching_serves (by decide) (by decide) t) hrun
  obtain ⟨-, -, -, rfl⟩ := hawaited.exists_eq
    (fun t => @switching_serves secondChain otherSecondChain 1 (by decide) (by decide) t)
  refine ⟨s, c, 0, hrun, hs, rfl, hrecords 1 removalBlock (by decide) (by decide) ?_ ?_⟩
  · intro t
    split <;> rfl
  · exact fun _ => rfl

/-- The removal of one block is recorded under the hash of the block that replaced it. -/
theorem switched_block_mismatch :
    ¬∀ (self : Indexer) (blockOf : B256 → Option Block) (chainAt : Nat → Chain blockOf) (env : Env)
      (awaited : Nat → Nat) (first last fuel : Nat) (it : Iteration) (s s' : IndexerState),
      s.contents = ⟨.empty, none, .empty, .empty, []⟩ →
      (∀ t, (env.node t).Serves (chainAt t) self.awaitTag (awaited t)) →
      exec (self.indexRange env it fuel first last) s = (.ok (), s') →
      (∀ t, awaited t = 0) → ∀ n hash b, first ≤ n → n ≤ last →
        s'.blockHashTree.get n = some hash → blockOf hash = some b →
        (s'.pendingModificationsTree.get n).getD [] = self.blockModifications env.services b := by
  intro h
  have hmods := h indexer blockOf (fun t => if t < 1 then removalChain else emptyChain)
    (switching removalChain emptyChain 1) (fun _ => 0) 0 1 5 .buckets initial _ rfl
    (fun t => switching_serves (by decide) (by decide) t) rfl (fun _ => rfl) 1 12 emptyBlock
    (by decide) (by decide) rfl rfl
  exact absurd hmods (by decide)

end Indexer

end AssertionExecution
