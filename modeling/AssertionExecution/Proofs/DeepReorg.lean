import AssertionExecution.Proofs.SyncExactness

/-!
# Recovering from a reorganisation

A call after a run, on a chain that shares the blocks up to the awaited block. The block
hashes tree no longer holds the awaited block itself, so the call recovers exactly when the
block after it survived, and when the update block is not below the last indexed one.
-/

namespace AssertionExecution

open EffectLogic

namespace Indexer

section Recovery

variable {self : Indexer} {services : Services} {blockOf : B256 → Option Block}
  {db₀ : OrderedTree Address (List AssertionState)} {chain chain' : Chain blockOf}
  {c c' : Contents} {u start moved : Nat} {b : Block}

/-- The trees describe the chain above a number, up to a block. -/
def DescribesAbove (indexer : Indexer) (services : Services) (chain : Chain blockOf) (low u : Nat)
    (s : IndexerState) : Prop :=
  ∀ n, low < n →
    s.blockHashTree.get n =
      (if n ≤ u then (chain.blocks[n]?).map (·.header.hash) else none) ∧
    s.pendingModificationsTree.get n =
      if n ≤ u then chain.pendingEntry indexer services n else none

/-- What a recovery needs: the update block is not below the last indexed block, the block
after the moved ones is on both chains, and the logs of the new blocks extract. -/
structure Recoverable (indexer : Indexer) (services : Services) (chain chain' : Chain blockOf)
    (moved u : Nat) : Prop where
  ahead : chain.blocks.length - 1 ≤ u
  shared : chain'.blocks[moved + 1]? = chain.blocks[moved + 1]?
  extractable : ∀ n b, n ≤ u → chain'.blocks[n]? = some b → chain.blocks[n]? ≠ some b →
    indexer.Extractable services b

lemma Synced.latest_eq (h : self.Synced services db₀ chain moved c) :
    c.latest = some ⟨chain.blocks.length - 1, chain.head.header.hash⟩ := by
  rw [h.latest, head_eq, Option.map_some]

/-- Blocks below the start of a call are on both chains, and the start is a new block. -/
lemma Synced.agree_below_start (h : self.Synced services db₀ chain moved c)
    (hmoved : 0 < moved) (hlen : moved + 1 < chain.blocks.length)
    (hstart : StartsAt chain' c u b start c') :
    chain.blocks.length - 1 ≤ u ∧ moved + 1 < start ∧ chain.Agree chain' start := by
  have hfirst : firstPending moved = moved + 1 :=
    if_neg (Nat.ne_of_gt hmoved)
  cases hstart with
  | fresh hnone =>
    rw [h.latest_eq] at hnone
    cases hnone
  | continues lastIndexed b' hsome hle hb' hhash =>
    rw [h.latest_eq] at hsome
    cases hsome
    exact ⟨hle, by dsimp only; omega, Chain.agree_of_hash_eq head_eq hb' hhash.symm⟩
  | rollsBack lastIndexed b' r hsome hle hb' hhash hr hknows =>
    rw [h.latest_eq] at hsome
    cases hsome
    obtain ⟨hlow, -, hagree⟩ := h.indexes.agree_of_knows hknows
    rw [hfirst] at hlow
    exact ⟨hle, Nat.lt_succ_of_le hlow, hagree⟩

lemma Synced.new_of_start_le (h : self.Synced services db₀ chain moved c)
    (hmoved : 0 < moved) (hlen : moved + 1 < chain.blocks.length)
    (hstart : StartsAt chain' c u b start c') {n : Nat} {d : Block}
    (hd : chain'.blocks[n]? = some d) (hn : start ≤ n) (hnu : n ≤ u) :
    chain.blocks[n]? ≠ some d := by
  obtain ⟨-, hlow, -⟩ := h.agree_below_start hmoved hlen hstart
  intro heq
  have hlt : n < chain.blocks.length := (List.getElem?_eq_some_iff.mp heq).1
  cases hstart with
  | fresh => omega
  | continues lastIndexed b' hsome =>
    rw [h.latest_eq] at hsome
    cases hsome
    dsimp only at hn
    omega
  | rollsBack lastIndexed b' r hsome hle hb' hhash hr hknows habove =>
    rw [h.latest_eq] at hsome
    cases hsome
    rcases Nat.lt_or_ge n u with hlt' | hge
    · have hfirst : firstPending moved = moved + 1 :=
        if_neg (Nat.ne_of_gt hmoved)
      refine habove n hn hlt' ⟨d, hd, ?_⟩
      rw [h.indexes.hashes, if_pos (by rw [hfirst]; omega), heq, Option.map_some]
    · dsimp only at hle hb' hhash
      have hnlast : n = chain.blocks.length - 1 := by omega
      rw [← hnlast, hd] at hb'
      rw [hnlast, head_eq] at heq
      cases heq
      cases hb'
      exact hhash rfl

/-- When the block after the moved ones survived, the walk back ends in the trees. -/
lemma Synced.not_hidden (h : self.Synced services db₀ chain moved c) (hmoved : 0 < moved)
    (hlen : moved + 1 < chain.blocks.length)
    (hshared : chain'.blocks[moved + 1]? = chain.blocks[moved + 1]?)
    (hu : u ≤ chain.blocks.length) (hlow : moved + 1 < u) :
    ¬Hidden chain' c u := by
  intro hhidden
  have hfirst : firstPending moved = moved + 1 :=
    if_neg (Nat.ne_of_gt hmoved)
  have hknows : c.Knows chain' (moved + 1) := by
    have hd := List.getElem?_eq_getElem hlen
    refine ⟨_, hshared.trans hd, ?_⟩
    rw [h.indexes.hashes, if_pos (by rw [hfirst]; omega), hd, Option.map_some]
  obtain ⟨j, hj, hju, hnone⟩ := hhidden _ hlow hknows
  have hsome := (h.indexes.isSome_hashes j).mpr (by rw [hfirst]; omega)
  rw [hnone] at hsome
  cases hsome

/-- A call that returns describes the new chain above both awaited blocks. -/
lemma describesAbove_of_outcome {awaited : Nat} {s s' : IndexerState}
    (h : self.Synced services db₀ chain moved s.contents) (hmoved : 0 < moved)
    (hcall : self.SyncOutcome services chain' db₀ (firstPending moved) u awaited b
      s.contents s'.contents start) :
    self.DescribesAbove services chain' (max moved awaited) u s' := by
  have hfirst : firstPending moved = moved + 1 :=
    if_neg (Nat.ne_of_gt hmoved)
  obtain ⟨rolledBack, hstart, hkept⟩ := hcall.startsAt
  have hwindow : ∃ p, p ≤ max moved awaited + 1 ∧
      s'.contents.Indexes chain' self services db₀ p (u + 1) := by
    rcases Nat.lt_or_ge u start with hgt | hle
    · have hindexes := h.indexes_of_startsAt hstart
      have hstart_eq : start = u + 1 := by
        cases hstart with
        | fresh => omega
        | continues => omega
        | rollsBack => omega
      rw [hkept hgt, ← hstart_eq]
      exact ⟨_, by omega, hindexes⟩
    · refine ⟨_, ?_, (hcall.indexed hle).indexes⟩
      rw [hfirst]
      unfold Contents.cut
      split <;> omega
  obtain ⟨p, hp, hindexes⟩ := hwindow
  intro n hn
  have hrange : p ≤ n ∧ n < u + 1 ↔ n ≤ u := by omega
  exact ⟨(hindexes.hashes n).trans (if_congr hrange rfl rfl),
    (hindexes.pending n).trans (if_congr hrange rfl rfl)⟩

/-- After a run whose last call that indexed a range awaited some block `F ≥ 1` below the last
indexed block, let an undisturbed node serve another chain, which may share any number of
blocks. A call for one of its blocks, whose parent is at most the last indexed number, succeeds
and describes the new chain exactly when the reorganisation is recoverable. -/
theorem reorg_recovered_iff {env : Env} (it : Iteration) (fuel m : Nat)
    {awaited awaited' : Nat} {s : IndexerState}
    (hrun : SyncRun self env.services db₀ chain awaited moved s)
    (hmoved : 1 ≤ moved) (hlast : moved < chain.blocks.length - 1)
    (hb : chain'.blocks[u]? = some b) (hparent : u - 1 ≤ chain.blocks.length - 1)
    (hserves : ∀ t, (env.node t).Serves chain' self.awaitTag awaited') (hcalm : ¬env.Disturbed)
    (hm : 1 ≤ m) (hbound : u + m ≤ u64Max) (hfuel : u < fuel) :
    (∃ s', exec (self.sync env it fuel b.updateBlock m) s = (.ok (), s') ∧
      self.DescribesAbove env.services chain' (max moved awaited') u s') ↔
    self.Recoverable env.services chain chain' moved u := by
  obtain ⟨hsynced, -⟩ := synced_of_run hrun
  have hlen : moved + 1 < chain.blocks.length := by omega
  have hspec := sync_spec it fuel hserves hb m
    fun start c' hstart => hsynced.indexes_of_startsAt hstart
  constructor
  · rintro ⟨s', hok, -⟩
    obtain ⟨start, hcall⟩ := hspec.ok rfl hok
    obtain ⟨rolledBack, hstart, -⟩ := hcall.startsAt
    obtain ⟨hahead, hbelow, hsame⟩ := hsynced.agree_below_start hmoved hlen hstart
    refine ⟨hahead, (hsame _ hbelow).symm, fun n d hnu hd hnew => ?_⟩
    rcases Nat.lt_or_ge n start with hlt | hge
    · exact absurd ((hsame n hlt).trans hd) hnew
    · exact (hcall.indexed (Nat.le_trans hge hnu)).extractable n d hd hge hnu
  · rintro ⟨hahead, hshared, hextract⟩
    have hnone : ¬self.SyncFailure env fuel m chain' s.contents u b := by
      intro hfail
      cases hfail with
      | start h =>
        cases h with
        | disturbed h => exact hcalm h
        | outOfFuel h => omega
        | behind lastIndexed hsome hlt =>
          rw [hsynced.latest_eq] at hsome
          cases hsome
          exact absurd hahead (Nat.not_le.mpr hlt)
        | hidden lastIndexed b' hsome hb' hhash hhidden =>
          rw [hsynced.latest_eq] at hsome
          cases hsome
          refine hsynced.not_hidden hmoved hlen hshared (by omega) ?_ hhidden
          -- The block after the moved ones is not the last indexed one, which was replaced.
          have hne : moved + 1 ≠ chain.blocks.length - 1 := by
            intro heq
            rw [heq, head_eq, hb'] at hshared
            cases hshared
            exact hhash rfl
          change moved + 1 < u
          omega
      | chunkSize h => omega
      | chunk start rolledBack hstart h =>
        cases h with
        | disturbed h => exact hcalm h
        | outOfFuel h => omega
        | unextractable n d hd hfirst hlast h =>
          exact h (hextract n d hlast hd
            (hsynced.new_of_start_le hmoved hlen hstart hd hfirst hlast))
    obtain ⟨_, s', hok, start, hcall⟩ := hspec.exists_ok rfl fun _ _ => hnone
    exact ⟨s', hok, describesAbove_of_outcome hsynced hmoved hcall⟩

end Recovery

open Sample

def indexedWith (chain : Chain Sample.blockOf) : IndexerState :=
  (exec (indexer.sync (env chain 1 fun _ => false) .buckets 5 chain.head.updateBlock 50000)
    initial).2

lemma env_calm (chain : Chain Sample.blockOf) (awaited : Nat) :
    ¬(env chain awaited fun _ => false).Disturbed :=
  Env.not_disturbed (fun _ => rfl) fun _ => rfl

lemma indexedWith_run (chain : Chain Sample.blockOf) (hlen : 1 < chain.blocks.length)
    (h : (exec (indexer.sync (env chain 1 fun _ => false) .buckets 5
      chain.head.updateBlock 50000) initial).1 = .ok ()) :
    SyncRun indexer services .empty chain 1 (lastAwaited 0 1 initial (indexedWith chain))
      (indexedWith chain) :=
  .first (s := initial) rfl (.of_ok (env chain 1 fun _ => false) .buckets 5 50000
    (fun _ => Chain.node_serves _ _ hlen) h)

/-- The last of four blocks is replaced while block 1 is awaited. -/
theorem reorg_recovered_iff_replaced :
    ∃ s, exec (indexer.sync (env otherThirdChain 1 fun _ => false) .buckets 5
        otherThirdBlock.updateBlock 50000) (indexedWith thirdChain) = (.ok (), s) ∧
      indexer.DescribesAbove services otherThirdChain 1 3 s := by
  have hmoved : lastAwaited 0 1 initial (indexedWith thirdChain) = 1 := by decide +kernel
  have hrun := indexedWith_run thirdChain (by decide) (by decide +kernel)
  rw [hmoved] at hrun
  have hb : otherThirdChain.blocks[3]? = some otherThirdBlock := rfl
  have hserves : ∀ t, ((env otherThirdChain 1 fun _ => false).node t).Serves otherThirdChain
      indexer.awaitTag 1 := fun _ => Chain.node_serves _ _ (by decide)
  have hiff := reorg_recovered_iff .buckets 5 50000 hrun (by decide) (by decide) hb (by decide)
    hserves (env_calm otherThirdChain 1) (by decide) (by decide) (by decide)
  refine hiff.mpr ⟨by decide, rfl, fun n d hn hd hnew => ?_⟩
  match n, hn with
  | 0, _ => exact absurd hd hnew
  | 1, _ => exact absurd hd hnew
  | 2, _ => exact absurd hd hnew
  | 3, _ =>
    cases hd
    exact fun l hl => absurd hl (List.not_mem_nil)

/-- The deepest reorganisation above the awaited block: every later block is replaced. -/
theorem deepest_reorg_fails :
    ¬∀ (self : Indexer) (blockOf : B256 → Option Block) (chain chain' : Chain blockOf) (env : Env)
      (it : Iteration) (awaited moved awaited' a u m fuel : Nat) (b : Block) (s : IndexerState),
      SyncRun self env.services .empty chain awaited moved s → 1 ≤ moved → moved ≤ a →
      a < chain.blocks.length - 1 → chain.Agree chain' (a + 1) → chain'.blocks[u]? = some b →
      u - 1 ≤ chain.blocks.length - 1 →
      (∀ t, (env.node t).Serves chain' self.awaitTag awaited') → ¬env.Disturbed →
      1 ≤ m → u + m ≤ u64Max → u < fuel →
      ∃ s', exec (self.sync env it fuel b.updateBlock m) s = (.ok (), s') ∧
        self.DescribesAbove env.services chain' (max moved awaited') u s' := by
  intro h
  have hmoved : lastAwaited 0 1 initial (indexedWith secondChain) = 1 := by decide +kernel
  have hrun := indexedWith_run secondChain (by decide) (by decide +kernel)
  rw [hmoved] at hrun
  have hagree : secondChain.Agree otherSecondChain 2 := by
    intro n hn
    match n, hn with
    | 0, _ => rfl
    | 1, _ => rfl
  obtain ⟨s', hok, -⟩ := h indexer blockOf secondChain otherSecondChain
    (env otherSecondChain 1 fun _ => false) .buckets 1 1 1 1 2 50000 5 otherSecondBlock
    (indexedWith secondChain) hrun (by decide) (by decide) (by decide) hagree rfl (by decide)
    (fun _ => Chain.node_serves _ _ (by decide)) (env_calm otherSecondChain 1) (by decide)
    (by decide) (by decide)
  have hfails : (exec (indexer.sync (env otherSecondChain 1 fun _ => false) .buckets 5
      otherSecondBlock.updateBlock 50000) (indexedWith secondChain)).1 =
    .error (.error .noCommonAncestor) := by decide +kernel
  rw [hok] at hfails
  cases hfails

end Indexer

end AssertionExecution
