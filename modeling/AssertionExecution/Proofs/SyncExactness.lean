import AssertionExecution.Proofs.SyncCall

/-!
# Whole runs of `sync`

After every call of a run whose calls all return, the trees hold exactly the blocks above the
awaited block and the store has every earlier modification applied once, in order.
-/

namespace AssertionExecution

open EffectLogic

namespace Indexer

section Runs

variable {self : Indexer} {services : Services} {blockOf : B256 → Option Block}
  {db₀ : OrderedTree Address (List AssertionState)} {chain chain' : Chain blockOf}
  {awaited awaited' moved : Nat} {s s' : IndexerState} {c c' : Contents}

/-- A call that returns, on a node that serves one chain whose head is the update block. -/
structure SyncsTo (indexer : Indexer) (services : Services) (chain : Chain blockOf)
    (awaited : Nat) (s s' : IndexerState) : Prop where
  call : ∃ (env : Env) (it : Iteration) (fuel maxBlocksPerCall : Nat), env.services = services ∧
    (∀ t, (env.node t).Serves chain indexer.awaitTag awaited) ∧
    exec (indexer.sync env it fuel chain.head.updateBlock maxBlocksPerCall) s = (.ok (), s')

lemma SyncsTo.of_ok (env : Env) (it : Iteration) (fuel m : Nat)
    (hserves : ∀ t, (env.node t).Serves chain self.awaitTag awaited)
    (h : (exec (self.sync env it fuel chain.head.updateBlock m) s).1 = .ok ()) :
    self.SyncsTo env.services chain awaited s
      (exec (self.sync env it fuel chain.head.updateBlock m) s).2 :=
  ⟨env, it, fuel, m, rfl, hserves, Prod.ext h rfl⟩

/-- The awaited block of the last call that indexed a range, after a further call. Only a call that
indexes a range reports anything. -/
def lastAwaited (moved awaited : Nat) (s s' : IndexerState) : Nat :=
  if s'.trace = s.trace then moved else awaited

/-- A run of calls on a new indexer over a store with some content. Each call sees its own
chain, in which the awaited block is not below the one of the call before. The second number is
the awaited block of the last call that indexed a range, or 0. -/
inductive SyncRun (indexer : Indexer) (services : Services)
    (db₀ : OrderedTree Address (List AssertionState)) :
    Chain blockOf → Nat → Nat → IndexerState → Prop
  | first {chain : Chain blockOf} {awaited : Nat} {s s' : IndexerState}
      (hs : s.contents = ⟨.empty, none, .empty, db₀, []⟩)
      (h : indexer.SyncsTo services chain awaited s s') :
      SyncRun indexer services db₀ chain awaited (lastAwaited 0 awaited s s') s'
  | next {chain chain' : Chain blockOf} {awaited awaited' moved : Nat} {s s' : IndexerState}
      (hrun : SyncRun indexer services db₀ chain awaited moved s) (hawaited : awaited ≤ awaited')
      (h : indexer.SyncsTo services chain' awaited' s s') :
      SyncRun indexer services db₀ chain' awaited' (lastAwaited moved awaited' s s') s'

lemma lastAwaited_of_reported (hs : lastMoved s.trace = moved)
    (hs' : lastMoved s'.trace = awaited) : lastAwaited moved awaited s s' = awaited := by
  unfold lastAwaited
  split
  · next htrace => rw [← hs, ← hs', htrace]
  · rfl

/-- The first block whose modifications have not been moved. -/
def firstPending (awaited : Nat) : Nat := if awaited = 0 then 0 else awaited + 1

/-- The contents between the calls of a run, with the modifications moved up to a block. -/
structure Synced (indexer : Indexer) (services : Services)
    (db₀ : OrderedTree Address (List AssertionState)) (chain : Chain blockOf) (moved : Nat)
    (c : Contents) : Prop where
  indexes : c.Indexes chain indexer services db₀ (firstPending moved) chain.blocks.length
  latest : c.latest = (chain.blocks[chain.blocks.length - 1]?).map
    fun b => ⟨chain.blocks.length - 1, b.header.hash⟩
  reported : lastMoved c.trace = moved

lemma cut_firstPending {moved upperBound last : Nat} (hmoved : moved ≤ upperBound)
    (hlast : upperBound ≤ last) :
    Contents.cut (firstPending moved) (last + 1) upperBound = firstPending upperBound := by
  unfold Contents.cut firstPending
  split <;> split <;> omega

lemma length_pos (chain : Chain blockOf) : 0 < chain.blocks.length :=
  List.length_pos_iff.mpr chain.nonempty

/-- Where a call may start, the trees mirror a window of the new chain. -/
theorem Synced.indexes_of_startsAt (h : self.Synced services db₀ chain moved c) {u start : Nat}
    {b : Block} (hstart : StartsAt chain' c u b start c') :
    c'.Indexes chain' self services db₀ (firstPending moved) start := by
  have hpos := length_pos chain
  have hhead := List.getElem?_eq_getElem (Nat.sub_lt hpos Nat.one_pos)
  have hlatest := h.latest
  rw [hhead, Option.map_some] at hlatest
  cases hstart with
  | fresh hnone =>
    rw [hlatest] at hnone
    cases hnone
  | continues lastIndexed b' hsome hle hb' hhash =>
    rw [hlatest] at hsome
    cases hsome
    have hlen : chain.blocks.length - 1 + 1 = chain.blocks.length := Nat.sub_add_cancel hpos
    have hagree := Chain.agree_of_hash_eq hhead hb' hhash.symm
    have hlen' : chain.blocks.length - 1 < chain'.blocks.length :=
      (List.getElem?_eq_some_iff.mp hb').1
    dsimp only
    rw [hlen] at hagree ⊢
    exact h.indexes.of_agree hagree (by omega)
  | rollsBack lastIndexed b' r hsome hle hb' hhash hr hknows habove =>
    obtain ⟨hlow, hhigh, hagree⟩ := h.indexes.agree_of_knows hknows
    have hlen : r + 1 ≤ chain'.blocks.length := by
      obtain ⟨b'', hb'', -⟩ := hknows
      exact (List.getElem?_eq_some_iff.mp hb'').1
    have hcut := (h.indexes.prune_from (Nat.le_succ_of_le hlow) hhigh).of_agree hagree hlen
    exact ⟨hcut.lower_le, hcut.present, hcut.hashes, hcut.pending, hcut.db⟩

lemma head_eq : chain.blocks[chain.blocks.length - 1]? = some chain.head := by
  rw [← List.getLast?_eq_getElem?, List.getLast?_eq_some_getLast chain.nonempty]
  rfl

/-- A call that indexes up to the head leaves the contents exact. -/
lemma synced_of_indexedTo {first : Nat}
    (h : self.IndexedTo services chain db₀ (firstPending moved) first (chain.blocks.length - 1)
      awaited c) (hmoved : moved ≤ awaited)
    (hawaited : awaited < chain.blocks.length) : self.Synced services db₀ chain awaited c := by
  have hlen : chain.blocks.length - 1 + 1 = chain.blocks.length := Nat.sub_add_cancel (length_pos _)
  have hindexes := h.indexes
  rw [cut_firstPending hmoved (Nat.le_sub_one_of_lt hawaited), hlen] at hindexes
  exact ⟨hindexes, h.latest, h.moved⟩

lemma awaited_lt {env : Env} (hserves : ∀ t, (env.node t).Serves chain self.awaitTag awaited) :
    awaited < chain.blocks.length := by
  obtain ⟨b, hb, -⟩ := (hserves 0).getBlockByTag
  exact (List.getElem?_eq_some_iff.mp hb).1

lemma eq_of_startsAt_new {u start : Nat} {b : Block}
    (h : StartsAt chain ⟨.empty, none, .empty, db₀, []⟩ u b start c') :
    start = 0 ∧ c' = ⟨.empty, none, .empty, db₀, []⟩ := by
  cases h with
  | fresh => exact ⟨rfl, rfl⟩
  | continues lastIndexed b' hsome => cases hsome
  | rollsBack lastIndexed b' r hsome => cases hsome

lemma indexes_of_startsAt_new {u start : Nat} {b : Block}
    (h : StartsAt chain ⟨.empty, none, .empty, db₀, []⟩ u b start c') :
    c'.Indexes chain self services db₀ 0 start := by
  obtain ⟨rfl, rfl⟩ := eq_of_startsAt_new h
  exact ⟨Nat.le_refl 0, Nat.zero_le _, fun n => by simp, fun n => by simp, rfl⟩

/-- A call with nothing to index is on the chain that has been indexed. -/
lemma Synced.of_nothing_to_index (h : self.Synced services db₀ chain moved c) {start : Nat}
    {b : Block} (hstart : StartsAt chain' c (chain'.blocks.length - 1) b start c')
    (hgt : chain'.blocks.length - 1 < start) :
    c' = c ∧ self.Synced services db₀ chain' moved c := by
  have hindexes := h.indexes_of_startsAt hstart
  have hlatest := h.latest
  rw [head_eq, Option.map_some] at hlatest
  cases hstart with
  | fresh hnone =>
    rw [hlatest] at hnone
    cases hnone
  | continues lastIndexed b' hsome hle hb' hhash =>
    have hnumber : lastIndexed.number = chain'.blocks.length - 1 := by omega
    rw [hnumber, Nat.sub_add_cancel (length_pos _)] at hindexes
    rw [hnumber] at hb'
    refine ⟨rfl, hindexes, ?_, h.reported⟩
    rw [hsome, hb', Option.map_some, hhash, ← hnumber]
  | rollsBack lastIndexed b' r hsome hle hb' hhash hr => omega

theorem synced_of_run (h : SyncRun self services db₀ chain awaited moved s) :
    self.Synced services db₀ chain moved s.contents ∧ moved ≤ awaited := by
  induction h with
  | @first _ _ s _ hs h =>
    obtain ⟨env, it, fuel, m, rfl, hserves, hrun⟩ := h.call
    obtain ⟨start, hcall⟩ := (sync_spec it fuel hserves head_eq m
      fun start c' hstart => indexes_of_startsAt_new hstart).ok hs hrun
    obtain ⟨rolledBack, hstart, -⟩ := hcall.startsAt
    obtain ⟨rfl, -⟩ := eq_of_startsAt_new hstart
    have hindexed := hcall.indexed (Nat.zero_le _)
    have hnew : lastMoved s.trace = 0 := by
      rw [show s.trace = [] from congrArg Contents.trace hs]
      rfl
    rw [lastAwaited_of_reported hnew hindexed.moved]
    have hfirst : firstPending 0 = 0 := rfl
    rw [← hfirst] at hindexed
    exact ⟨synced_of_indexedTo hindexed (Nat.zero_le _) (awaited_lt hserves), Nat.le_refl _⟩
  | @next _ _ _ _ _ s s' hrun hawaited h ih =>
    obtain ⟨hsynced, hmoved⟩ := ih
    obtain ⟨env, it, fuel, m, rfl, hserves, hrun⟩ := h.call
    obtain ⟨start, hcall⟩ := (sync_spec it fuel hserves head_eq m
      fun start c' hstart => hsynced.indexes_of_startsAt hstart).ok rfl hrun
    obtain ⟨rolledBack, hstart, hkept⟩ := hcall.startsAt
    rcases Nat.lt_or_ge _ start with hgt | hle
    · obtain ⟨rfl, hsynced'⟩ := hsynced.of_nothing_to_index hstart hgt
      have hcontents := hkept hgt
      have htrace : s'.trace = s.trace := congrArg Contents.trace hcontents
      rw [lastAwaited, if_pos htrace, hcontents]
      exact ⟨hsynced', hmoved.trans hawaited⟩
    · have hindexed := hcall.indexed hle
      rw [lastAwaited_of_reported hsynced.reported hindexed.moved]
      exact ⟨synced_of_indexedTo hindexed (hmoved.trans hawaited) (awaited_lt hserves),
        Nat.le_refl _⟩

/-- After every call of a run, with `moved` the awaited block of the last call that indexed a
range, which is also what that call reported: the store has the modifications of the blocks up to
it applied in order, and the trees hold exactly the later blocks up to the head. Nothing is moved
while `moved` is 0. -/
theorem synced_exactly (h : SyncRun self services db₀ chain awaited moved s) :
    lastMoved s.trace = moved ∧
    s.store.db = AssertionStore.applyAll db₀
      (if moved = 0 then []
        else (List.range (moved + 1)).flatMap (chain.modifications self services)) ∧
    (∀ n, s.pendingModificationsTree.get n =
      if (moved = 0 ∨ moved < n) ∧ n < chain.blocks.length then
        chain.pendingEntry self services n
      else none) ∧
    ∀ n, s.blockHashTree.get n =
      if (moved = 0 ∨ moved < n) ∧ n < chain.blocks.length then
        (chain.blocks[n]?).map (·.header.hash)
      else none := by
  have hsynced := (synced_of_run h).1
  have hindexes := hsynced.indexes
  have hrange : ∀ n, firstPending moved ≤ n ∧ n < chain.blocks.length ↔
      (moved = 0 ∨ moved < n) ∧ n < chain.blocks.length := by
    intro n
    unfold firstPending
    split <;> omega
  refine ⟨hsynced.reported, hindexes.db.trans ?_,
    fun n => (hindexes.pending n).trans (if_congr (hrange n) rfl rfl),
    fun n => (hindexes.hashes n).trans (if_congr (hrange n) rfl rfl)⟩
  congr 1
  unfold firstPending
  split <;> rfl

end Runs

open Sample

/-- The states after the first two blocks are indexed and after the second is replaced. -/
def indexedSecond : IndexerState :=
  (exec (indexer.sync (env secondChain 0 fun _ => false) .buckets 5
    secondChain.head.updateBlock 50000) initial).2

def replacedSecond : IndexerState :=
  (exec (indexer.sync (env otherSecondChain 1 fun _ => false) .buckets 5
    otherSecondChain.head.updateBlock 50000) indexedSecond).2

lemma replacedSecond_run :
    SyncRun indexer services .empty otherSecondChain 1
      (lastAwaited (lastAwaited 0 0 initial indexedSecond) 1 indexedSecond replacedSecond)
      replacedSecond := by
  have hfirst : SyncRun indexer services .empty secondChain 0
      (lastAwaited 0 0 initial indexedSecond) indexedSecond :=
    .first (s := initial) rfl (.of_ok (env secondChain 0 fun _ => false) .buckets 5 50000
      (fun _ => Chain.node_serves _ _ (by decide)) (by decide +kernel))
  exact hfirst.next (Nat.zero_le 1) (.of_ok (env otherSecondChain 1 fun _ => false) .buckets 5 50000
    (fun _ => Chain.node_serves _ _ (by decide)) (by decide +kernel))

/-- The second block is replaced while the awaited block moves from 0 to 1. -/
theorem synced_exactly_replaced :
    replacedSecond.store.db = AssertionStore.applyAll .empty [.remove 7 8 5 0] ∧
      replacedSecond.pendingModificationsTree.get 2 = none ∧
      replacedSecond.blockHashTree.get 2 = some 14 := by
  have h := synced_exactly replacedSecond_run
  have hmoved : lastAwaited (lastAwaited 0 0 initial indexedSecond) 1 indexedSecond
      replacedSecond = 1 := by decide +kernel
  rw [hmoved] at h
  exact ⟨h.2.1.trans (congrArg _ (by decide)), (h.2.2.1 2).trans (by decide),
    (h.2.2.2 2).trans (by decide)⟩

end Indexer

end AssertionExecution
