import AssertionExecution.Proofs.InterruptedRollback

/-!
# Retrying a call that failed

Runs of calls that may fail at any step, on nodes that may follow any chain. A call that
fails after its rollback is retried for the same update block.
-/

namespace AssertionExecution

open EffectLogic

def Chain.Has {blockOf : B256 → Option Block} (chain : Chain blockOf) (u n : Nat) (hash : B256) :
    Prop :=
  n ≤ u ∧ ∃ b, chain.blocks[n]? = some b ∧ b.header.hash = hash

namespace Indexer

section Retries

variable {self : Indexer} {env : Env} {it : Iteration} {fuel m u : Nat} {s s' : IndexerState}
  {blockOf : B256 → Option Block} {chain : Chain blockOf} {awaited : Nat → Nat} {b : Block}

/-! ### Calls that return -/

/-- The node serves the chain throughout, nothing fails and the blocks can be indexed. -/
structure Works (indexer : Indexer) (env : Env) (chain : Chain blockOf) (fuel m u : Nat) :
    Prop where
  serves : ∃ awaited : Nat → Nat, ∀ t, (env.node t).Serves chain indexer.awaitTag (awaited t)
  calm : ¬env.Disturbed
  extractable : ∀ n b, n ≤ u → chain.blocks[n]? = some b → indexer.Extractable env.services b
  chunks : 0 < m ∧ u + m ≤ u64Max
  fuel : u < fuel

lemma indexRange_returns (hworks : self.Works env chain fuel m u) (hlen : u < chain.blocks.length)
    {first last : Nat} (hlast : last ≤ u) :
    Triple (fun _ => True) (self.indexRange env it fuel first last) (fun _ _ => True)
      (fun _ _ => False) := by
  obtain ⟨awaited, hserves⟩ := hworks.serves
  intro s _
  refine ((indexRange_describes (c := s.contents) (describesRange_of_serves hserves)).consequence
    (fun _ h => h) (fun _ _ _ => trivial) ?_) s rfl
  intro _ _ h
  cases chunkFailure_of_rangeFailure hserves (Nat.lt_of_le_of_lt hlast hlen) h with
  | disturbed h => exact hworks.calm h
  | outOfFuel h => exact absurd hworks.fuel (by omega)
  | unextractable n b hb _ hn h => exact h (hworks.extractable n b (Nat.le_trans hn hlast) hb)

lemma syncLoop_returns (it : Iteration) (hworks : self.Works env chain fuel m u)
    (hlen : u < chain.blocks.length) (first : Nat) :
    Triple (fun _ => True) (self.syncLoop env it fuel u m (u + 1 - first + 1) first)
      (fun _ _ => True) (fun _ _ => False) := by
  obtain ⟨hm, hbound⟩ := hworks.chunks
  by_cases hle : first ≤ u
  · exact syncLoop_chunks (P := fun _ _ => True) hm
      (Nat.le_of_succ_le (succ_le_u64Max hlen)) (fun h => by omega)
      (fun _ _ _ hlast _ => indexRange_returns hworks hlen hlast) _ hle (by omega)
  · rw [syncLoop, if_neg hle]
    exact Triple.pure fun _ _ => trivial

/-- A call on a working node returns if it finds out where to start. -/
lemma sync_returns (hworks : self.Works env chain fuel m u) (hb : chain.blocks[u]? = some b)
    (hstart : ¬StartFailure env fuel chain s.contents u) :
    (exec (self.sync env it fuel b.updateBlock m) s).1 = .ok () := by
  obtain ⟨awaited, hserves⟩ := hworks.serves
  have hlen := (List.getElem?_eq_some_iff.mp hb).1
  have hspec : Triple (fun s₁ => s₁.contents = s.contents) (syncStart env fuel b.updateBlock)
      (fun start s₁ => StartsAt chain s.contents u b start s₁.contents)
      (fun _ _ => StartFailure env fuel chain s.contents u) :=
      (syncStart_spec hserves hb).mono_error fun _ _ h => h.1
  obtain ⟨start, s₁, hrun, hstartsAt⟩ := hspec.exists_ok rfl fun _ _ => hstart
  rw [exec_sync_of_syncStart it m hrun, chain.numbered u b hb]
  obtain ⟨_, s₂, hreturns, -⟩ := (syncLoop_returns it hworks hlen start).exists_ok (s := s₁)
    trivial fun _ _ h => h
  rw [hreturns]

/-! ### The retry -/

/-- The call detects no reorganisation at the mark, and it returns. -/
def Resumes (indexer : Indexer) (env : Env) (it : Iteration) (fuel : Nat) (b : Block) (m : Nat)
    (s : IndexerState) : Prop :=
  (∀ lastIndexed, s.latestBlockTree = some lastIndexed →
    (exec (checkIfReorged env fuel b.updateBlock lastIndexed) s).1 = .ok false) ∧
  (exec (indexer.sync env it fuel b.updateBlock m) s).1 = .ok ()

/-- A mark on a block of the chain is not reorganised. -/
lemma resumes_of_marked (hworks : self.Works env chain fuel m u) (hb : chain.blocks[u]? = some b)
    (hmarked : s.trees.Marked (chain.Has u)) : self.Resumes env it fuel b m s := by
  obtain ⟨awaited, hserves⟩ := hworks.serves
  refine ⟨fun l hl => ?_, sync_returns hworks hb fun h => ?_⟩
  · obtain ⟨hle, d, hd, hhash⟩ := hmarked.named l hl
    have hcheck : Triple (fun s₁ => s₁.contents = s.contents)
        (checkIfReorged env fuel b.updateBlock l)
        (fun r s₁ => (l.number ≤ u ∧ ∃ b', chain.blocks[l.number]? = some b' ∧
          r = decide (b'.header.hash ≠ l.hash)) ∧ s₁.contents = s.contents)
        (fun _ _ => env.Disturbed ∨ fuel ≤ u ∨ u < l.number) :=
          (checkIfReorged_spec hserves l hb).mono_error
            fun _ _ h => h.imp_right (Or.imp_right And.left)
    have hcalm : ¬(env.Disturbed ∨ fuel ≤ u ∨ u < l.number) := by
      rintro (h | h | h)
      · exact hworks.calm h
      · exact absurd hworks.fuel (Nat.not_lt.mpr h)
      · exact absurd hle (Nat.not_le.mpr h)
    obtain ⟨r, s₁, hrun, ⟨-, d', hd', hr⟩, -⟩ := hcheck.exists_ok rfl fun _ _ => hcalm
    rw [hd] at hd'
    cases hd'
    rw [hrun, hr, hhash]
    simp
  · cases h with
    | disturbed h => exact hworks.calm h
    | outOfFuel h => exact absurd hworks.fuel (Nat.not_lt.mpr h)
    | behind l hl hlt => exact absurd (hmarked.named l hl).1 (Nat.not_le.mpr hlt)
    | hidden l b' hl hb' hhash =>
      obtain ⟨-, d, hd, hd'⟩ := hmarked.named l hl
      rw [hd] at hb'
      cases hb'
      exact hhash hd'

lemma Env.names_of_serves (hserves : ∀ t, (env.node t).Serves chain self.awaitTag (awaited t))
    (u : Nat) : env.Names (chain.Has u) u := by
  intro t n header hn hheader
  rw [(hserves t).getBlockByNumber] at hheader
  obtain ⟨b, hblock, rfl⟩ := Option.map_eq_some_iff.mp hheader
  exact ⟨hn, b, hblock, rfl⟩

/-- The call has rolled the trees back to a common ancestor. -/
def RolledBack (env : Env) (fuel : Nat) (b : Block) (s : IndexerState) : Prop :=
  ∃ start s', exec (syncStart env fuel b.updateBlock) s = (.ok start, s')

/-- After its rollback a call leaves a mark on the chain, unless it is interrupted. -/
lemma marked_of_rolledBack (it : Iteration) (m : Nat) (htree : BlockTree blockOf)
    (hserves : ∀ t, (env.node t).Serves chain self.awaitTag (awaited t))
    (htruthful : ∀ t, (env.node t).Truthful blockOf) (hb : chain.blocks[u]? = some b)
    (hmarked : s.trees.Marked (NamesBlock blockOf)) (hreorged : s.trees.Reorged blockOf b.header)
    (hrolled : RolledBack env fuel b s) (hnot : ¬self.Interrupted blockOf env fuel b m s) :
    (exec (self.sync env it fuel b.updateBlock m) s).2.trees.Marked (chain.Has u) := by
  obtain ⟨start, s₁, hrun⟩ := hrolled
  have hknown := chain.known b (List.mem_of_getElem? hb)
  have hnumber := chain.numbered u b hb
  have hbegins := (syncStart_truthful fuel htree htruthful hknown (T := s.trees)).ok rfl hrun
  refine marked_of_begins it (hnumber ▸ Env.names_of_serves hserves u) hrun hbegins
    hmarked.bounded (fun h => absurd hreorged h) (fun k hk _ => ?_) hnot
  rw [show u = k + 1 by omega] at hb
  obtain ⟨p, hp, hparent⟩ := Chain.exists_parent hb
  exact ⟨by omega, p, hp, hparent.symm⟩

/-- If the trees have the parent of the update block, a failed call can be retried. -/
lemma returns_of_recordsParent (htree : BlockTree blockOf)
    (hserves : ∀ t, (env.node t).Serves chain self.awaitTag (awaited t))
    (htruthful : ∀ t, (env.node t).Truthful blockOf) (hb : chain.blocks[u]? = some b)
    (hmarked : s.trees.Marked (NamesBlock blockOf)) (hreorged : s.trees.Reorged blockOf b.header)
    (hrecords : s.trees.RecordsParent b.header) {env' : Env} {it' : Iteration} {fuel' m' : Nat}
    (hworks : self.Works env' chain fuel' m' u) :
    (exec (self.sync env' it' fuel' b.updateBlock m')
      (exec (self.sync env it fuel b.updateBlock m) s).2).1 = .ok () := by
  have hknown := chain.known b (List.mem_of_getElem? hb)
  rcases hrun : exec (syncStart env fuel b.updateBlock) s with ⟨e | start, s₁⟩
  · have hunmoved := (syncStart_truthful fuel htree htruthful hknown (T := s.trees)).error rfl hrun
    rw [exec_sync_of_error it m hrun]
    refine sync_returns hworks hb fun h => ?_
    cases h with
    | disturbed h => exact hworks.calm h
    | outOfFuel h => exact absurd hworks.fuel (Nat.not_lt.mpr h)
    | behind l hl hlt =>
      obtain ⟨l', hl', hle, -⟩ := hreorged
      have heq : some l = some l' := hl.symm.trans (hunmoved.latest.trans hl')
      cases heq
      rw [chain.numbered u b hb] at hle
      exact absurd hle (Nat.not_le.mpr hlt)
    | hidden l b' hl hb' hhash hhidden =>
      -- The walk of the retry ends at the parent at once.
      have hbelow := hunmoved.below hrecords
      obtain ⟨k, hk, hparent⟩ := hrecords
      have hu : u = k + 1 := (chain.numbered u b hb).symm.trans hk
      rw [hu] at hb
      obtain ⟨p, hp, hparentHash⟩ := Chain.exists_parent hb
      have hknows : s₁.contents.Knows chain k := by
        refine ⟨p, hp, ?_⟩
        rw [← hparentHash, ← hparent]
        exact hbelow k (by omega)
      obtain ⟨j, hkj, hju, -⟩ := hhidden k (by omega) hknows
      omega
  · have hmarked' := marked_of_rolledBack it m htree hserves htruthful hb hmarked
      hreorged ⟨start, s₁, hrun⟩ fun h => h.deep hrecords
    exact (resumes_of_marked hworks hb hmarked').2

end Retries

/-! ### Runs -/

/-- The states of an indexer after any number of calls, failed ones included, on nodes whose
answers are blocks. -/
inductive CallRun (self : Indexer) (blockOf : B256 → Option Block)
    (Allowed : Env → Nat → Block → Nat → IndexerState → Prop) : IndexerState → Prop
  | start {s : IndexerState} (h : s.trees = ⟨.empty, none, .empty⟩) : CallRun self blockOf Allowed s
  | call {s : IndexerState} (h : CallRun self blockOf Allowed s) (env : Env) (it : Iteration)
      (fuel : Nat) (b : Block) (m : Nat) (htruthful : ∀ t, (env.node t).Truthful blockOf)
      (hb : blockOf b.header.hash = some b) (hallowed : Allowed env fuel b m s) :
      CallRun self blockOf Allowed (exec (self.sync env it fuel b.updateBlock m) s).2

/-- The last indexed block is a block with its number and hash, and the hash that is stored for
it, if any, is the same. -/
def MarkerRight (blockOf : B256 → Option Block) (s : IndexerState) : Prop :=
  ∀ lastIndexed, s.latestBlockTree = some lastIndexed →
    NamesBlock blockOf lastIndexed.number lastIndexed.hash ∧
    ∀ hash, s.blockHashTree.get lastIndexed.number = some hash → hash = lastIndexed.hash

section Runs

variable {self : Indexer} {blockOf : B256 → Option Block} {s : IndexerState}

lemma marked_of_run (htree : BlockTree blockOf)
    (hrun : self.CallRun blockOf (fun env fuel b m s => ¬self.Interrupted blockOf env fuel b m s)
      s) : s.trees.Marked (NamesBlock blockOf) := by
  induction hrun with
  | start h =>
    rw [h]
    exact Trees.Marked.empty
  | call h env it fuel b m htruthful hb hallowed ih =>
    exact marked_of_not_interrupted htree htruthful hb ih hallowed

lemma markerRight_of_marked (h : s.trees.Marked (NamesBlock blockOf)) : MarkerRight blockOf s :=
  fun l hl => ⟨h.named l hl, h.entry l hl⟩

/-- In a run without an interrupted rollback the mark is right in every state, and after one more
call exactly if no rollback of it is interrupted. Then a call that has rolled back a
reorganisation can be retried on the same chain: the retry detects no reorganisation and returns.
It returns also if the call has not got so far, when the trees have the parent of the update
block. -/
theorem marker_names_block (htree : BlockTree blockOf)
    (hrun : self.CallRun blockOf (fun env fuel b m s => ¬self.Interrupted blockOf env fuel b m s)
      s) :
    MarkerRight blockOf s ∧
    (∀ (env : Env) (it : Iteration) (fuel : Nat) (b : Block) (m : Nat),
      (∀ t, (env.node t).Truthful blockOf) → blockOf b.header.hash = some b →
      (MarkerRight blockOf (exec (self.sync env it fuel b.updateBlock m) s).2 ↔
        ¬self.Interrupted blockOf env fuel b m s)) ∧
    ∀ (chain : Chain blockOf) (awaited : Nat → Nat) (u : Nat) (b : Block) (env env' : Env)
      (it it' : Iteration) (fuel fuel' m m' : Nat),
      (∀ t, (env.node t).Serves chain self.awaitTag (awaited t)) →
      (∀ t, (env.node t).Truthful blockOf) → chain.blocks[u]? = some b →
      s.trees.Reorged blockOf b.header → self.Works env' chain fuel' m' u →
      let s' := (exec (self.sync env it fuel b.updateBlock m) s).2
      (RolledBack env fuel b s ∧ ¬self.Interrupted blockOf env fuel b m s →
        self.Resumes env' it' fuel' b m' s') ∧
      (s.trees.RecordsParent b.header →
        (exec (self.sync env' it' fuel' b.updateBlock m') s').1 = .ok ()) := by
  have hmarked := marked_of_run htree hrun
  refine ⟨markerRight_of_marked hmarked, ?_, ?_⟩
  · intro env it fuel b m htruthful hb
    refine ⟨fun hright hinterrupted => ?_, fun hnot =>
      markerRight_of_marked (marked_of_not_interrupted htree htruthful hb hmarked hnot)⟩
    obtain ⟨l, hl, hnamed⟩ := not_named_of_interrupted it htree htruthful hb hinterrupted
    exact hnamed (hright l hl).1
  · intro chain awaited u b env env' it it' fuel fuel' m m' hserves htruthful hb hreorged hworks s'
    refine ⟨?_, fun hrecords => returns_of_recordsParent htree hserves htruthful hb hmarked
      hreorged hrecords hworks⟩
    rintro ⟨hrolled, hnot⟩
    exact resumes_of_marked hworks hb
      (marked_of_rolledBack it m htree hserves htruthful hb hmarked hreorged hrolled hnot)

end Runs

open Sample

lemma blockTree_of_list (blocks : List Block)
    (h : ∀ b ∈ blocks, ∀ p ∈ blocks, p.header.hash = b.header.parentHash →
      b.header.number = p.header.number + 1) :
    BlockTree fun hash => blocks.find? fun b => b.header.hash = hash := by
  have hfound : ∀ hash b, blocks.find? (fun b => b.header.hash = hash) = some b →
      b ∈ blocks ∧ b.header.hash = hash :=
    fun hash b hb => ⟨List.mem_of_find?_eq_some hb, by simpa using List.find?_some hb⟩
  refine ⟨fun hash b hb => (hfound hash b hb).2, fun hash b p hb hp => ?_⟩
  obtain ⟨hp, hparent⟩ := hfound _ p hp
  exact h b (hfound hash b hb).1 p hp hparent

lemma node_truthful {blockOf : B256 → Option Block} (chain : Chain blockOf) (awaited : Nat) :
    (chain.node awaited).Truthful blockOf where
  getBlockByHash := by
    intro hash header hheader
    obtain ⟨b, hb, rfl⟩ := Option.map_eq_some_iff.mp hheader
    have hhash : b.header.hash = hash := by simpa using List.find?_some hb
    have hknown := chain.known b (List.mem_of_find?_eq_some hb)
    rw [hhash] at hknown
    exact ⟨b, hknown, rfl⟩
  getBlockByNumber := by
    intro n header hheader
    obtain ⟨b, hb, rfl⟩ := Option.map_eq_some_iff.mp hheader
    exact ⟨chain.numbered n b hb, b, chain.known b (List.mem_of_getElem? hb), rfl⟩

namespace ReplacedBlock

def indexed : IndexerState :=
  (exec (indexer.sync (env removalChain 0 fun _ => false) .buckets 5 removalBlock.updateBlock
    50000) StaleEntry.started).2

/-- Block 1 is replaced, and the call fails right after its rollback. -/
def failed : IndexerState :=
  (exec (indexer.sync (env emptyChain 0 fun t => t = 22) .buckets 5 emptyBlock.updateBlock
    50000) indexed).2

lemma failed_run : indexer.CallRun blockOf
    (fun env fuel b m s => ¬indexer.Interrupted blockOf env fuel b m s) failed := by
  have hstarted : indexer.CallRun blockOf
      (fun env fuel b m s => ¬indexer.Interrupted blockOf env fuel b m s) StaleEntry.started := by
    refine .call (.start (s := initial) rfl) _ _ _ _ _ (fun _ => node_truthful _ _) rfl ?_
    rintro ⟨⟨l, hl, -⟩, -, -⟩
    cases hl
  have hindexed : indexer.CallRun blockOf
      (fun env fuel b m s => ¬indexer.Interrupted blockOf env fuel b m s) indexed := by
    refine .call hstarted _ _ _ _ _ (fun _ => node_truthful _ _) rfl ?_
    rintro ⟨⟨l, hl, -, hnot⟩, -, -⟩
    cases hl
    exact hnot (.parent (p := genesis) rfl (.here rfl rfl))
  refine .call hindexed _ _ _ _ _ (fun _ => node_truthful _ _) rfl ?_
  rintro ⟨-, hdeep, -⟩
  exact hdeep ⟨0, rfl, by decide⟩

end ReplacedBlock

/-- After the failed call the genesis block is marked. -/
theorem marker_names_block_replaced :
    NamesBlock blockOf 0 10 ∧
      ∀ hash, ReplacedBlock.failed.blockHashTree.get 0 = some hash → hash = 10 :=
  (marker_names_block (blockTree_of_list _ (by decide)) ReplacedBlock.failed_run).1 ⟨0, 10⟩
    (by decide +kernel)

namespace ReplacedBranch

def firstBlock : Block := ⟨⟨0, 20, 19⟩, [], List.Pairwise.nil⟩

def oldBlock : Block := ⟨⟨1, 21, 20⟩, [], List.Pairwise.nil⟩

def newBlock : Block := ⟨⟨1, 22, 20⟩, [], List.Pairwise.nil⟩

def nextBlock : Block := ⟨⟨2, 23, 22⟩, [], List.Pairwise.nil⟩

def blocks : List Block := [firstBlock, oldBlock, newBlock, nextBlock]

def blockOf (hash : B256) : Option Block := blocks.find? fun b => b.header.hash = hash

def firstChain : Chain blockOf := .ofGenesis firstBlock rfl rfl rfl

def oldChain : Chain blockOf := firstChain.extend oldBlock rfl rfl rfl (by decide)

def newChain : Chain blockOf :=
  (firstChain.extend newBlock rfl rfl rfl (by decide)).extend nextBlock rfl rfl rfl (by decide)

def env (chain : Chain blockOf) (fault : Nat → Bool) : Env :=
  ⟨fun _ => chain.node 0, fault, fun _ => false, services⟩

def indexed : IndexerState :=
  (exec (indexer.sync (env oldChain fun _ => false) .buckets 5 oldBlock.updateBlock 50000)
    initial).2

def failed : IndexerState :=
  (exec (indexer.sync (env newChain fun t => t = 18) .buckets 5 nextBlock.updateBlock
    50000) indexed).2

lemma failed_run : indexer.CallRun blockOf (fun _ _ _ _ _ => True) failed :=
  .call (.call (.start (s := initial) rfl) _ _ _ _ _ (fun _ => node_truthful _ _) rfl trivial)
    _ _ _ _ _ (fun _ => node_truthful _ _) rfl trivial

end ReplacedBranch

/-- Block 0 is marked with the hash of block 1. -/
theorem ancestor_mismarked :
    ¬∀ (self : Indexer) (blockOf : B256 → Option Block) (s : IndexerState), BlockTree blockOf →
      self.CallRun blockOf (fun _ _ _ _ _ => True) s → MarkerRight blockOf s := by
  intro h
  have hright := h indexer ReplacedBranch.blockOf ReplacedBranch.failed
    (blockTree_of_list _ (by decide)) ReplacedBranch.failed_run ⟨0, 22⟩
    (by decide +kernel)
  exact absurd (hright.2 20 (by decide +kernel)) (by decide)

end Indexer

end AssertionExecution
