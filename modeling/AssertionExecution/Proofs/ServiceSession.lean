import AssertionExecution.Model.IndexerService
import AssertionExecution.Proofs.SyncExactness

/-!
# Sessions of the service

A service that has synced to the head is handed one latest block after the other. It goes on
exactly as long as each chain it is shown follows the one before it.
-/

namespace AssertionExecution

open EffectLogic

namespace Chain

variable {blockOf : B256 → Option Block} {chain chain' : Chain blockOf} {low : Nat}

/-- The chain grows, or is replaced above a block by one that is at most one block longer. -/
inductive FollowedBy (chain chain' : Chain blockOf) (low : Nat) : Prop
  | grows (h : chain.Agree chain' chain.blocks.length)
  | replaces (hle : chain.blocks.length ≤ chain'.blocks.length)
      (hnext : chain'.blocks.length ≤ chain.blocks.length + 1) (hlow : low < chain.blocks.length)
      (h : chain'.blocks[low]? = chain.blocks[low]?)

lemma length_le_of_agree (h : chain.Agree chain' chain.blocks.length) :
    chain.blocks.length ≤ chain'.blocks.length := by
  have hpos := Indexer.length_pos chain
  have hlast := h (chain.blocks.length - 1) (by omega)
  rw [Indexer.head_eq] at hlast
  have hlt := (List.getElem?_eq_some_iff.mp hlast.symm).1
  omega

/-- Chains that share a block share those below it. -/
lemma FollowedBy.mono {high : Nat} (h : chain.FollowedBy chain' high) (hle : low ≤ high) :
    chain.FollowedBy chain' low := by
  cases h with
  | grows h => exact .grows h
  | replaces hlen hnext hhigh h =>
    have hblock := List.getElem?_eq_getElem hhigh
    have hagree := agree_of_hash_eq hblock (h.trans hblock) rfl
    exact .replaces hlen hnext (by omega) (hagree low (by omega)).symm

lemma FollowedBy.length_le (h : chain.FollowedBy chain' low) :
    chain.blocks.length ≤ chain'.blocks.length := by
  cases h with
  | grows h => exact length_le_of_agree h
  | replaces hle => exact hle

end Chain

namespace Indexer

variable {self : Indexer} {services : Services} {env : Env} {fuel u start : Nat} {b : Block}
  {blockOf : B256 → Option Block} {db₀ : OrderedTree Address (List AssertionState)}
  {chain chain' : Chain blockOf} {awaited awaited' moved : Nat} {c c' : Contents}

/-! ### The walk to the common ancestor leaves no gap -/

lemma findCommonAncestor_gapless {awaitedAt : Nat → Nat}
    (hserves : ∀ t, (env.node t).Serves chain self.awaitTag (awaitedAt t))
    (hb : chain.blocks[u]? = some b) :
    Triple (fun s => s.contents = c) (findCommonAncestor env fuel b.header.parentHash)
      (fun r _ => ∀ j, r < j → j < u → c.hashes.get j ≠ none) (fun _ _ => True) := by
  induction u generalizing b fuel with
  | zero =>
    apply (Triple.trivial _).consequence (fun _ _ => trivial) _ (fun _ _ h => h)
    intro r s _ j _ hj
    exact absurd hj (Nat.not_lt_zero j)
  | succ u ih =>
    cases fuel with
    | zero => exact Triple.throw fun _ _ => trivial
    | succ fuel =>
      apply Triple.bind ((request_parent_spec hserves hb _).mono_error fun _ _ _ => trivial)
      intro r
      apply Triple.of_fact
      rintro ⟨p, hp, rfl, -⟩
      rw [okOr, pure_bind, chain.numbered u p hp]
      apply Triple.bind ((treeOperation_spec (P := fun r c' => r = c.hashes.get u ∧ c' = c) _
        (by rintro s rfl; exact ⟨rfl, rfl⟩)).mono_error fun _ _ _ => trivial)
      intro stored
      apply Triple.of_fact
      rintro rfl
      cases hstored : c.hashes.get u with
      | none => exact Triple.throw fun _ _ => trivial
      | some hash =>
        apply Triple.ite
        · intro _
          apply Triple.pure
          intro s _ j hj hju
          omega
        · intro _
          apply (ih hp).consequence (fun _ h => h) _ (fun _ _ h => h)
          intro r s habove j hj hju
          rcases Nat.lt_succ_iff_lt_or_eq.mp hju with hju | rfl
          · exact habove j hj hju
          · rw [hstored]
            exact Option.some_ne_none hash

/-- A call starts after the last indexed block, or where every number from there to the update
block has a hash. -/
def StartsGapless (chain : Chain blockOf) (c : Contents) (u start : Nat) : Prop :=
  ∀ lastIndexed b', c.latest = some lastIndexed → chain.blocks[lastIndexed.number]? = some b' →
    b'.header.hash ≠ lastIndexed.hash → ∀ j, start ≤ j → j < u → c.hashes.get j ≠ none

lemma syncStart_gapless {awaitedAt : Nat → Nat}
    (hserves : ∀ t, (env.node t).Serves chain self.awaitTag (awaitedAt t))
    (hb : chain.blocks[u]? = some b) :
    Triple (fun s => s.contents = c) (syncStart env fuel b.updateBlock)
      (fun start _ => StartsGapless chain c u start) (fun _ _ => True) := by
  apply Triple.bind ((treeOperation_spec (P := fun r c' => r = c.latest ∧ c' = c) _
    (by rintro s rfl; exact ⟨rfl, rfl⟩)).mono_error fun _ _ _ => trivial)
  intro r
  apply Triple.of_fact
  rintro rfl
  cases hlatest : c.latest with
  | none =>
    apply Triple.pure
    intro s _ lastIndexed b' hsome
    cases hlatest.symm.trans hsome
  | some lastIndexed =>
    apply Triple.bind ((checkIfReorged_spec hserves lastIndexed hb).mono_error
      fun _ _ _ => trivial)
    intro reorged
    apply Triple.of_fact
    rintro ⟨-, b', hb', rfl⟩
    apply Triple.ite
    · intro _
      apply Triple.bind ((findCommonAncestor_gapless hserves hb).mono_error fun _ _ h => h)
      intro r
      apply Triple.of_forall
      intro s hgapless
      apply Triple.bind ((checkedAdd_spec r 1).mono_error fun _ _ _ => trivial)
      intro start
      apply Triple.of_fact
      rintro rfl
      apply Triple.bind (R := fun _ _ => True)
      · exact (Triple.trivial _).consequence (fun _ _ => trivial) (fun _ _ h => h) fun _ _ h => h
      intro _
      apply Triple.bind (R := fun _ _ => True)
      · exact Triple.trivial _
      intro _
      apply Triple.pure
      intro _ _ _ _ _ _ _ j hj hju
      exact hgapless j hj hju
    · intro hsame
      apply (Triple.trivial _).consequence (fun _ _ => trivial) _ (fun _ _ h => h)
      intro start s _ lastIndexed' b'' hsome hb'' hhash
      cases hlatest.symm.trans hsome
      cases hb'.symm.trans hb''
      exact absurd hhash (by simpa using hsame)

lemma sync_gapless (it : Iteration)
    (hserves : ∀ t, (env.node t).Serves chain self.awaitTag awaited)
    (hb : chain.blocks[u]? = some b) (m : Nat) :
    Triple (fun s => s.contents = c) (self.sync env it fuel b.updateBlock m)
      (fun _ _ => ∃ start c', StartsAt chain c u b start c' ∧ StartsGapless chain c u start)
      (fun _ _ => True) := by
  apply Triple.bind (((syncStart_spec hserves hb).and (syncStart_gapless hserves hb)).consequence
    (fun _ h => ⟨h, h⟩) (fun _ _ h => h) fun _ _ _ => trivial)
  intro start s hs
  apply Triple.consequence (P := fun _ => True) (Triple.trivial _) (fun _ h => h)
    (fun _ _ _ => ⟨start, s.contents, hs⟩) (fun _ _ h => h) s trivial

/-! ### When a call returns -/

/-- The logs of the blocks that are new on the other chain extract. -/
def ExtractsNew (indexer : Indexer) (services : Services) (chain chain' : Chain blockOf) : Prop :=
  ∀ (n : Nat) (b : Block), chain'.blocks[n]? = some b → chain.blocks[n]? ≠ some b →
    indexer.Extractable services b

/-- The start of a call on synced trees: after the indexed blocks, or after the last of them that
the new chain has kept. -/
lemma Synced.start_cases (h : self.Synced services db₀ chain moved c)
    (hstart : StartsAt chain' c u b start c') :
    chain.blocks.length ≤ u + 1 ∧ chain.Agree chain' start ∧
      (start = chain.blocks.length ∨ firstPending moved < start ∧
        start ≤ u ∧ start ≤ chain.blocks.length ∧
        (∃ b', chain'.blocks[chain.blocks.length - 1]? = some b' ∧
          b'.header.hash ≠ chain.head.header.hash) ∧
        ∀ j, start ≤ j → j < u → ¬c.Knows chain' j) := by
  have hpos := length_pos chain
  have hlatest := h.latest
  rw [head_eq, Option.map_some] at hlatest
  cases hstart with
  | fresh hnone => cases hlatest.symm.trans hnone
  | continues lastIndexed b' hsome hle hb' hhash =>
    cases hlatest.symm.trans hsome
    dsimp only at hle hb' hhash
    have hlen : chain.blocks.length - 1 + 1 = chain.blocks.length := Nat.sub_add_cancel hpos
    have hagree := Chain.agree_of_hash_eq head_eq hb' hhash.symm
    exact ⟨by omega, hagree, Or.inl hlen⟩
  | rollsBack lastIndexed b' r hsome hle hb' hhash hr hknows habove =>
    cases hlatest.symm.trans hsome
    dsimp only at hle hb' hhash
    obtain ⟨hlow, hlt, hagree⟩ := h.indexes.agree_of_knows hknows
    exact ⟨by omega, hagree, Or.inr ⟨Nat.lt_succ_of_le hlow, hr, hlt, ⟨b', hb', hhash⟩,
      fun j hj => habove j hj⟩⟩

lemma Synced.new_from_start (h : self.Synced services db₀ chain moved c)
    (hstart : StartsAt chain' c u b start c') {n : Nat} {d : Block}
    (hd : chain'.blocks[n]? = some d) (hn : start ≤ n) (hnu : n ≤ u) :
    chain.blocks[n]? ≠ some d := by
  intro hold
  have hlt := (List.getElem?_eq_some_iff.mp hold).1
  obtain ⟨hle, -, rfl | ⟨hlow, hstartu, -, ⟨b', hb', hhash⟩, habove⟩⟩ := h.start_cases hstart
  · omega
  rcases Nat.lt_or_ge n u with hlt' | hge
  · apply habove n hn hlt'
    refine ⟨d, hd, ?_⟩
    rw [h.indexes.hashes, if_pos (by omega), hold, Option.map_some]
  · -- The update block would be the last indexed one, which the chain does not have.
    have hlast : n = chain.blocks.length - 1 := by omega
    rw [hlast] at hd hold
    rw [head_eq] at hold
    cases hb'.symm.trans hd
    cases hold
    exact hhash rfl

/-- On a chain that follows, a call can determine where to start. -/
lemma Synced.not_startFailure (h : self.Synced services db₀ chain moved c) (hcalm : ¬env.Disturbed)
    (hfuel : chain'.blocks.length ≤ fuel)
    (hfollows : chain.FollowedBy chain' (firstPending moved)) :
    ¬StartFailure env fuel chain' c (chain'.blocks.length - 1) := by
  have hpos := length_pos chain
  have hlength := hfollows.length_le
  have hlatest := h.latest
  rw [head_eq, Option.map_some] at hlatest
  intro hfail
  cases hfail with
  | disturbed h => exact hcalm h
  | outOfFuel h => omega
  | behind lastIndexed hsome hlt =>
    cases hlatest.symm.trans hsome
    dsimp only at hlt
    omega
  | hidden lastIndexed b' hsome hb' hhash hhidden =>
    cases hlatest.symm.trans hsome
    dsimp only at hb' hhash
    cases hfollows with
    | grows hagree =>
      have hlast := hagree (chain.blocks.length - 1) (by omega)
      rw [head_eq, hb'] at hlast
      cases hlast
      exact hhash rfl
    | replaces hle hnext hlow hshared =>
      have hd := List.getElem?_eq_getElem hlow
      have hne : firstPending moved ≠ chain.blocks.length - 1 := by
        intro heq
        rw [heq, head_eq, hb'] at hshared
        cases hshared
        exact hhash rfl
      have hknows : c.Knows chain' (firstPending moved) := by
        refine ⟨_, hshared.trans hd, ?_⟩
        rw [h.indexes.hashes, if_pos ⟨Nat.le_refl _, hlow⟩, hd, Option.map_some]
      obtain ⟨j, hj, hju, hnone⟩ := hhidden _ (by omega) hknows
      have hsome := (h.indexes.isSome_hashes j).mpr (by omega)
      rw [hnone] at hsome
      cases hsome

/-- A call that can determine where to start was made on a chain that follows. -/
lemma Synced.followedBy_of_start (h : self.Synced services db₀ chain moved c)
    (hstart : StartsAt chain' c (chain'.blocks.length - 1) b start c')
    (hgapless : StartsGapless chain' c (chain'.blocks.length - 1) start) :
    chain.FollowedBy chain' (firstPending moved) := by
  have hpos := length_pos chain'
  have hlatest := h.latest
  rw [head_eq, Option.map_some] at hlatest
  obtain ⟨hle, hagree, rfl | ⟨hlow, hstartu, hlen, ⟨b', hb', hhash⟩, -⟩⟩ := h.start_cases hstart
  · exact .grows hagree
  have hnext : chain'.blocks.length ≤ chain.blocks.length + 1 := by
    by_contra hgap
    apply hgapless _ b' hlatest hb' hhash chain.blocks.length hlen (by omega)
    rw [h.indexes.hashes, if_neg (by omega)]
  exact .replaces (by omega) hnext (by omega) (hagree _ hlow).symm

/-- On synced trees a call for the head of a served chain returns exactly when that chain
follows the indexed one and its new blocks can be extracted. -/
theorem Synced.sync_ok_iff {s : IndexerState}
    (h : self.Synced env.services db₀ chain moved s.contents) (it : Iteration)
    (hserves : ∀ t, (env.node t).Serves chain' self.awaitTag awaited')
    (hcalm : ¬env.Disturbed) (hfuel : chain'.blocks.length ≤ fuel) {m : Nat} (hm : 1 ≤ m)
    (hbound : chain'.blocks.length + m ≤ u64Max) :
    (exec (self.sync env it fuel chain'.head.updateBlock m) s).1 = .ok () ↔
      chain.FollowedBy chain' (firstPending moved) ∧
        self.ExtractsNew env.services chain chain' := by
  have hspec := sync_spec it fuel hserves head_eq m
    fun start c' hstart => h.indexes_of_startsAt hstart
  constructor
  · intro hok
    have hrun := Prod.ext (x := exec (self.sync env it fuel chain'.head.updateBlock m) s)
      (y := (.ok (), _)) hok rfl
    obtain ⟨start, c', hstart, hgapless⟩ := (sync_gapless it hserves head_eq m).ok rfl hrun
    refine ⟨h.followedBy_of_start hstart hgapless, ?_⟩
    intro n d hd hnew
    obtain ⟨first, hcall⟩ := hspec.ok rfl hrun
    obtain ⟨rolledBack, hfirst, -⟩ := hcall.startsAt
    obtain ⟨-, hagree, -⟩ := h.start_cases hfirst
    have hn : first ≤ n := by
      by_contra hlt
      exact hnew ((hagree n (Nat.lt_of_not_le hlt)).trans hd)
    have hlast : n ≤ chain'.blocks.length - 1 :=
      Nat.le_sub_one_of_lt (List.getElem?_eq_some_iff.mp hd).1
    exact (hcall.indexed (Nat.le_trans hn hlast)).extractable n d hd hn hlast
  · rintro ⟨hfollows, hextracts⟩
    have hpos := length_pos chain'
    have hnone : ¬self.SyncFailure env fuel m chain' s.contents (chain'.blocks.length - 1)
        chain'.head := by
      intro hfail
      cases hfail with
      | start hfail => exact h.not_startFailure hcalm hfuel hfollows hfail
      | chunkSize hfail => omega
      | chunk start rolledBack hstart hfail =>
        cases hfail with
        | disturbed hfail => exact hcalm hfail
        | outOfFuel hfail => omega
        | unextractable n d hd hfirst hlast hfail =>
          exact hfail (hextracts n d hd (h.new_from_start hstart hd hfirst hlast))
    obtain ⟨_, s', hok, -⟩ := hspec.exists_ok rfl fun _ _ => hnone
    rw [hok]

end Indexer

/-! ### Sessions -/

namespace IndexerService

variable {self : Indexer} {services : Services} {env : Env} {it : Nat → Iteration} {fuel : Nat}
  {blockOf : B256 → Option Block} {db₀ : OrderedTree Address (List AssertionState)}
  {chain chain' : Chain blockOf} {awaited awaited' moved : Nat} {s : IndexerService}

/-- During a call nothing fails and the node serves one chain, short enough for the block
numbers and for the fuel. -/
structure Shows (indexer : Indexer) (env : Env) (fuel : Nat) (chain : Chain blockOf)
    (awaited : Nat) : Prop where
  serves : ∀ t, (env.node t).Serves chain indexer.awaitTag awaited
  calm : ¬env.Disturbed
  fueled : chain.blocks.length ≤ fuel
  bounded : chain.blocks.length + maxBlocksPerCall ≤ u64Max

/-- A service that has synced to the head of one chain, over a store with some content, and has
handled the heads of further chains since. The second number is the awaited block of the last
call that indexed a range, or 0. -/
inductive Session (indexer : Indexer) (services : Services)
    (db₀ : OrderedTree Address (List AssertionState)) :
    Chain blockOf → Nat → Nat → IndexerService → Prop
  | started {chain : Chain blockOf} {awaited : Nat} {trees : IndexerState} (env : Env)
      (it : Nat → Iteration) (fuel : Nat)
      (htrees : trees.contents = ⟨.empty, none, .empty, db₀, []⟩)
      (hservices : env.services = services) (h : Shows indexer env fuel chain awaited)
      (hlatest : ∀ t, (env.node t).getBlockByTag .latest = some chain.head.header)
      (hok : (newSynced indexer env it fuel trees).1 = .ok ()) :
      Session indexer services db₀ chain awaited
        (Indexer.lastAwaited 0 awaited trees (newSynced indexer env it fuel trees).2.trees)
        (newSynced indexer env it fuel trees).2
  | delivered {chain chain' : Chain blockOf} {awaited awaited' moved : Nat} {s : IndexerService}
      (hsession : Session indexer services db₀ chain awaited moved s)
      (hawaited : awaited ≤ awaited') (env : Env) (it : Nat → Iteration) (fuel : Nat)
      (hservices : env.services = services) (h : Shows indexer env fuel chain' awaited')
      (hok : (exec (handleLatestBlock indexer env it fuel chain'.head.header) s).1 = .ok ()) :
      Session indexer services db₀ chain' awaited'
        (Indexer.lastAwaited moved awaited' s.trees
          (exec (handleLatestBlock indexer env it fuel chain'.head.header) s).2.trees)
        (exec (handleLatestBlock indexer env it fuel chain'.head.header) s).2

/-- The failures of a program on the trees. -/
def wrap : Failure IndexerError → Failure ServiceError
  | .error e => .error (.indexer e)
  | .panicked => .panicked
  | .diverged => .diverged

lemma exec_onTrees {α : Type} (x : IndexerM α) (s : IndexerService) :
    exec (onTrees x) s =
      ((exec x s.trees).1.mapError wrap, { s with trees := (exec x s.trees).2 }) := by
  unfold onTrees
  rw [exec_bind, exec_get]
  dsimp only
  rcases exec x s.trees with ⟨e | a, trees⟩
  · cases e <;> rfl
  · rfl

lemma mapError_eq_ok {α : Type} {r : Except (Failure IndexerError) α} {a : α} :
    r.mapError wrap = .ok a ↔ r = .ok a := by
  cases r with
  | error e => exact ⟨fun h => (nomatch h), fun h => (nomatch h)⟩
  | ok b =>
    unfold Except.mapError
    exact ⟨fun h => by cases h; rfl, fun h => by cases h; rfl⟩

abbrev syncHead (indexer : Indexer) (env : Env) (it : Nat → Iteration) (fuel : Nat)
    (chain : Chain blockOf) (trees : IndexerState) :
    Except (Failure IndexerError) Unit × IndexerState :=
  exec (indexer.sync env (it trees.steps) fuel chain.head.updateBlock maxBlocksPerCall) trees

lemma exec_syncTo (s : IndexerService) :
    exec (syncTo self env it fuel chain.head.header) s =
      ((syncHead self env it fuel chain s.trees).1.mapError wrap,
        { s with trees := (syncHead self env it fuel chain s.trees).2 }) := by
  unfold syncTo
  rw [exec_bind, exec_get]
  exact exec_onTrees _ s

/-- Syncing to the head is a call of `sync` once the head is known. -/
lemma newSynced_eq (it : Nat → Iteration) (fuel : Nat) (hcalm : ¬env.Disturbed)
    {trees : IndexerState}
    (hlatest : ∀ t, (env.node t).getBlockByTag .latest = some chain.head.header) :
    ∃ trees', trees'.contents = trees.contents ∧
      ((newSynced self env it fuel trees).1 = .ok () ↔
        (syncHead self env it fuel chain trees').1 = .ok ()) ∧
      (newSynced self env it fuel trees).2.trees = (syncHead self env it fuel chain trees').2 := by
  obtain ⟨head, trees', hask, htrees', t, hhead⟩ := (Indexer.request_spec
    (·.getBlockByTag .latest) .transportError).exists_ok (s := trees) rfl fun _ _ => hcalm
  rw [hlatest t] at hhead
  subst hhead
  refine ⟨trees', htrees', ?_⟩
  unfold newSynced syncToHead
  rw [exec_bind, exec_onTrees]
  dsimp only [new]
  rw [hask]
  dsimp only [Except.mapError]
  rw [exec_bind, exec_syncTo]
  dsimp only
  rcases syncHead self env it fuel chain trees' with ⟨e | ⟨⟩, trees''⟩
  · exact ⟨⟨fun h => (nomatch h), fun h => (nomatch h)⟩, rfl⟩
  · exact ⟨⟨fun _ => rfl, fun _ => rfl⟩, rfl⟩

lemma handleLatestBlock_ok_iff :
    (exec (handleLatestBlock self env it fuel chain.head.header) s).1 = .ok () ↔
      (syncHead self env it fuel chain s.trees).1 = .ok () := by
  unfold handleLatestBlock
  rw [exec_syncTo]
  exact mapError_eq_ok

lemma handleLatestBlock_trees :
    (exec (handleLatestBlock self env it fuel chain.head.header) s).2.trees =
      (syncHead self env it fuel chain s.trees).2 := by
  unfold handleLatestBlock
  rw [exec_syncTo]

theorem Session.syncRun (h : Session self services db₀ chain awaited moved s) :
    Indexer.SyncRun self services db₀ chain awaited moved s.trees := by
  induction h with
  | @started _ _ trees env it fuel htrees hservices h hlatest hok =>
    obtain ⟨trees', hcontents, hiff, htrees'⟩ :=
      newSynced_eq it fuel h.calm hlatest
    have htrace : trees'.trace = trees.trace := congrArg Contents.trace hcontents
    unfold Indexer.lastAwaited
    rw [htrees', ← hservices, ← htrace]
    exact .first (hcontents.trans htrees) (.of_ok env _ fuel _ h.serves (hiff.mp hok))
  | delivered hsession hawaited env it fuel hservices h hok ih =>
    rw [handleLatestBlock_trees, ← hservices]
    rw [← hservices] at ih
    exact .next ih hawaited (.of_ok env _ fuel _ h.serves (handleLatestBlock_ok_iff.mp hok))

/-- In every session: the next head is handled without an error exactly when its chain follows
the one before it from the first block not yet moved on, and its new blocks extract. -/
theorem head_handled_iff (it : Nat → Iteration)
    (h : Session self env.services db₀ chain awaited moved s)
    (hshows : Shows self env fuel chain' awaited') :
    (exec (handleLatestBlock self env it fuel chain'.head.header) s).1 = .ok () ↔
      chain.FollowedBy chain' (Indexer.firstPending moved) ∧
        self.ExtractsNew env.services chain chain' := by
  rw [handleLatestBlock_ok_iff]
  exact (Indexer.synced_of_run h.syncRun).1.sync_ok_iff _ hshows.serves hshows.calm
    hshows.fueled (by decide) hshows.bounded

section

open Sample

/-- A node that serves one chain, with its head as the latest block. -/
def liveNode (chain : Chain Sample.blockOf) (awaited : Nat) : Node :=
  { chain.node awaited with
    getBlockByTag := fun tag =>
      if tag = .latest then some chain.head.header else (chain.blocks[awaited]?).map Block.header }

def liveEnv (chain : Chain Sample.blockOf) (awaited : Nat) : Env :=
  ⟨fun _ => liveNode chain awaited, fun _ => false, fun _ => false, Sample.services⟩

lemma liveEnv_shows (chain : Chain Sample.blockOf) {awaited : Nat}
    (h : awaited < chain.blocks.length) (hfueled : chain.blocks.length ≤ 5) :
    Shows indexer (liveEnv chain awaited) 5 chain awaited where
  serves _ := by
    have hserves := chain.node_serves .finalized h
    exact ⟨hserves.getLogs, hserves.getBlockByNumber, hserves.getBlockByHash, hserves.unknown,
      hserves.getBlockByTag⟩
  calm := Env.not_disturbed (fun _ => rfl) fun _ => rfl
  fueled := hfueled
  bounded := by
    unfold maxBlocksPerCall u64Max
    omega

def syncedService (chain : Chain Sample.blockOf) : IndexerService :=
  (newSynced indexer (liveEnv chain 1) (fun _ => .buckets) 5 initial).2

lemma thirdChain_session :
    Session indexer Sample.services .empty thirdChain 1
      (Indexer.lastAwaited 0 1 initial (syncedService thirdChain).trees)
      (syncedService thirdChain) := by
  unfold syncedService
  exact .started (liveEnv thirdChain 1) _ 5 rfl rfl
    (liveEnv_shows thirdChain (by decide) (by decide)) (fun _ => rfl) (by decide +kernel)

lemma otherThirdChain_extractsNew :
    indexer.ExtractsNew Sample.services thirdChain otherThirdChain := by
  intro n d hd hnew
  match n with
  | 0 => exact absurd hd hnew
  | 1 => exact absurd hd hnew
  | 2 => exact absurd hd hnew
  | 3 =>
    cases hd
    exact fun l hl => absurd hl List.not_mem_nil
  | n + 4 => cases hd

/-- The third block is replaced while the first is awaited. -/
theorem head_handled_iff_replaced :
    (exec (handleLatestBlock indexer (liveEnv otherThirdChain 1) (fun _ => .buckets) 5
      otherThirdChain.head.header) (syncedService thirdChain)).1 = .ok () := by
  have hmoved : Indexer.lastAwaited 0 1 initial (syncedService thirdChain).trees = 1 := by
    decide +kernel
  have hshows := @liveEnv_shows otherThirdChain 1 (by decide) (by decide)
  apply (head_handled_iff (fun _ => .buckets) thirdChain_session hshows).mpr
  rw [hmoved]
  exact ⟨.replaces (by decide) (by decide) (by decide) rfl, otherThirdChain_extractsNew⟩

end

/-! ### Runs that never stop -/

section

open Sample

end

end IndexerService

end AssertionExecution
