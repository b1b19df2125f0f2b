import AssertionExecution.Proofs.LogExtraction

/-!
# Indexing one range

`index_range` records the modifications and the hashes of a range and then moves what lies
up to the awaited block. Everything is stated over the contents of the trees.
-/

namespace AssertionExecution

open EffectLogic

namespace Contents

/-- Moves the modifications up to a block to the store. Block zero moves nothing. -/
def move (upperBound : Nat) (c : Contents) : Contents :=
  if upperBound = 0 then c
  else { c.prune (· < upperBound + 1) with
    db := AssertionStore.applyAll c.db (c.pendingIn (· < upperBound + 1)) }

def moved (upperBound : Nat) (c : Contents) : Contents :=
  { c.move upperBound with trace := .pendingModificationsMoved upperBound :: c.trace }

lemma get_hashes_moved (c : Contents) (upperBound n : Nat) : (c.moved upperBound).hashes.get n =
    if upperBound ≠ 0 ∧ n ≤ upperBound then none else c.hashes.get n := by
  unfold moved move
  by_cases hzero : upperBound = 0
  · rw [if_pos hzero, if_neg fun hn => hn.1 hzero]
  · simp only [if_neg hzero, prune, OrderedTree.get_restrict]
    by_cases hn : n < upperBound + 1
    · rw [if_neg (by simpa using hn), if_pos ⟨hzero, Nat.le_of_lt_succ hn⟩]
    · rw [if_pos (by simpa using hn), if_neg fun hle => hn (Nat.lt_succ_of_le hle.2)]

lemma get_pending_moved (c : Contents) (upperBound n : Nat) : (c.moved upperBound).pending.get n =
    if upperBound ≠ 0 ∧ n ≤ upperBound ∧ (c.hashes.get n).isSome then none
    else c.pending.get n := by
  unfold moved move
  by_cases hzero : upperBound = 0
  · rw [if_pos hzero, if_neg fun hn => hn.1 hzero]
  · simp only [if_neg hzero, prune, OrderedTree.get_restrict]
    by_cases hn : n ≤ upperBound ∧ (c.hashes.get n).isSome
    · rw [if_neg (by simp [hn, Nat.lt_succ_of_le hn.1]), if_pos ⟨hzero, hn⟩]
    · have hkept : (!(decide (n < upperBound + 1) && (c.hashes.get n).isSome)) = true := by
        rw [Bool.not_eq_true', Bool.and_eq_false_iff]
        rcases not_and_or.mp hn with hlt | hnone
        · exact Or.inl (decide_eq_false (by omega))
        · exact Or.inr (Bool.eq_false_iff.mpr hnone)
      rw [if_pos hkept, if_neg fun hle => hn hle.2]

lemma latest_moved (c : Contents) (upperBound : Nat) : (c.moved upperBound).latest = c.latest := by
  unfold moved move
  split <;> rfl

lemma db_moved (c : Contents) (upperBound : Nat) : (c.moved upperBound).db =
    if upperBound = 0 then c.db
    else AssertionStore.applyAll c.db ((List.range (upperBound + 1)).flatMap c.due) := by
  unfold moved move
  rw [← pendingIn_below]
  split <;> rfl

/-- The contents after a range has been recorded from answers that describe a chain. -/
structure Recorded {blockOf : B256 → Option Block} (chain : Chain blockOf) (indexer : Indexer)
    (services : Services) (first last : Nat) (c c' : Contents) : Prop where
  present : ∀ n, first ≤ n → n ≤ last → n < chain.blocks.length
  extractable : ∀ n b, chain.blocks[n]? = some b → first ≤ n → n ≤ last →
    indexer.Extractable services b
  hashes : ∀ n, c'.hashes.get n =
    if first ≤ n ∧ n ≤ last then (chain.blocks[n]?).map (·.header.hash) else c.hashes.get n
  pending : ∀ n, c'.pending.get n =
    (if first ≤ n ∧ n ≤ last then chain.pendingEntry indexer services n else none).or
      (c.pending.get n)
  latest : c'.latest =
    if first ≤ last then (chain.blocks[last]?).map (fun b => ⟨last, b.header.hash⟩) else c.latest
  db : c'.db = c.db
  trace : c'.trace = .indexingRange first last :: c.trace

end Contents

namespace Indexer

open IndexerState

variable {self : Indexer} {env : Env} {it : Iteration} {fuel : Nat} {c : Contents}

inductive RangeFailure (self : Indexer) (env : Env) (fuel first last : Nat) : Prop where
  | disturbed (h : env.Disturbed)
  | outOfFuel (h : fuel = 0)
  | logs (t : Nat) (e : IndexerError) (h : self.collect env.services
      ((env.node t).getLogs ⟨self.stateOracle, first, last⟩) .empty = .error e)
  | block (t n : Nat) (hfirst : first ≤ n) (hlast : n ≤ last)
      (h : (env.node t).getBlockByNumber n = none)
  | awaited (t : Nat) (h : (env.node t).getBlockByTag self.awaitTag = none)
  | overflow (t : Nat) (header : Header)
      (h : (env.node t).getBlockByTag self.awaitTag = some header)
      (hbound : u64Max < header.number + 1)

/-! ### The steps of `index_range` -/

def HashesAnswered (env : Env) (blockHashes : List BlockNumHash) : Prop :=
  ∀ b ∈ blockHashes, ∃ t header, (env.node t).getBlockByNumber b.number = some header ∧
    b.hash = header.hash

lemma fetchBlockHashes_spec (numbers : List Nat) :
    Triple (fun s => s.contents = c) (fetchBlockHashes env numbers)
      (fun r s => (r.map (·.number) = numbers ∧ HashesAnswered env r) ∧ s.contents = c)
      (fun _ _ => env.Disturbed ∨ ∃ t, ∃ n ∈ numbers, (env.node t).getBlockByNumber n = none) := by
  induction numbers with
  | nil => exact Triple.pure fun s hs => ⟨⟨rfl, fun b hb => (List.not_mem_nil hb).elim⟩, hs⟩
  | cons i rest ih =>
    refine Triple.bind ((request_spec _ _).mono_error fun _ _ h => Or.inl h) fun block => ?_
    rintro s ⟨hs, t, rfl⟩
    cases hblock : (env.node t).getBlockByNumber i with
    | none => exact Or.inr ⟨t, i, List.mem_cons_self .., hblock⟩
    | some header =>
      rw [okOr, pure_bind]
      refine Triple.bind (ih.mono_error ?_) (fun blockHashes => ?_) s hs
      · rintro - - (h | ⟨t', n, hn, h⟩)
        · exact Or.inl h
        · exact Or.inr ⟨t', n, List.mem_cons_of_mem _ hn, h⟩
      · refine Triple.pure ?_
        rintro s' ⟨⟨hnumbers, hanswered⟩, hs'⟩
        refine ⟨⟨by rw [List.map_cons, hnumbers], ?_⟩, hs'⟩
        intro b hb
        rcases List.mem_cons.mp hb with rfl | hb
        · exact ⟨t, header, hblock, rfl⟩
        · exact hanswered b hb

lemma checkedAdd_spec (a b : Nat) {P : IndexerState → Prop} :
    Triple P (checkedAdd a b) (fun r s => r = a + b ∧ P s) (fun _ _ => u64Max < a + b) := by
  unfold checkedAdd
  exact Triple.ite (fun _ => Triple.pure fun _ hs => ⟨rfl, hs⟩)
    fun h => Triple.throw fun _ _ => Nat.lt_of_not_le h

/-- Arithmetic that panics leaves the state as it is. -/
lemma checkedAdd_returns (a b : Nat) {P : IndexerState → Prop} :
    Triple P (checkedAdd a b) (fun r s => r = a + b ∧ P s) (fun _ => P) :=
  Triple.ite (fun _ => Triple.pure fun _ hs => ⟨rfl, hs⟩) fun _ => Triple.throw fun _ hs => hs

lemma checkedSub_returns (a b : Nat) {P : IndexerState → Prop} :
    Triple P (checkedSub a b) (fun r s => r = a - b ∧ P s) (fun _ => P) :=
  Triple.ite (fun _ => Triple.pure fun _ hs => ⟨rfl, hs⟩) fun _ => Triple.throw fun _ hs => hs

lemma checkedSub_spec {a b : Nat} (h : b ≤ a) {P : IndexerState → Prop}
    {E : Failure IndexerError → IndexerState → Prop} :
    Triple P (checkedSub a b) (fun r s => r = a - b ∧ P s) E := by
  unfold checkedSub
  rw [if_pos h]
  exact Triple.pure fun _ hs => ⟨rfl, hs⟩

lemma exec_onStore_ok {α : Type} {x : StoreM α} {s : IndexerState} {a : α} {store : AssertionStore}
    (h : exec x s.store = (.ok a, store)) :
    exec (onStore x) s = (.ok a, { s with store := store }) := by
  unfold onStore
  rw [exec_bind, exec_get]
  dsimp only
  rw [h]
  rfl

lemma exec_onStore_error {α : Type} {x : StoreM α} {s : IndexerState}
    {e : Failure AssertionStoreError} {store : AssertionStore}
    (h : exec x s.store = (.error e, store)) :
    ∃ e', exec (onStore x) s = (.error e', { s with store := store }) ∧
      ∀ error, e = .error error → e' = .error (.assertionStoreError error) := by
  unfold onStore
  rw [exec_bind, exec_get]
  dsimp only
  rw [h]
  cases e with
  | error error => exact ⟨_, rfl, fun _ h => by cases h; rfl⟩
  | panicked => exact ⟨_, rfl, fun _ h => by cases h⟩
  | diverged => exact ⟨_, rfl, fun _ h => by cases h⟩

lemma onStore_keeps {α : Type} {x : StoreM α} {P : IndexerState → Prop}
    (hx : ∀ s, P s → P { s with store := (exec x s.store).2 }) : Keeps P (onStore x) := by
  intro s hs
  have hstore := hx s hs
  rcases hrun : exec x s.store with ⟨e | a, store⟩
  · rw [hrun] at hstore
    obtain ⟨e', hfails, -⟩ := exec_onStore_error hrun
    rw [hfails]
    exact hstore
  · rw [hrun] at hstore
    rw [exec_onStore_ok hrun]
    exact hstore

lemma onStore_moves {α : Type} {R : IndexerState → IndexerState → Prop}
    (hstore : ∀ (s : IndexerState) (store : AssertionStore), R s { s with store := store })
    (x : StoreM α) : Moves R (onStore x) := by
  intro s
  rcases hrun : exec x s.store with ⟨e | a, store⟩
  · obtain ⟨e', hfails, -⟩ := exec_onStore_error hrun
    rw [hfails]
    exact hstore s store
  · rw [exec_onStore_ok hrun]
    exact hstore s store

lemma onStore_applyPendingModifications_spec (ms : List PendingModification) :
    Triple (fun s => s.contents = c)
      (onStore (AssertionStore.applyPendingModifications env.storeFault it fuel ms))
      (fun _ s => s.contents = { c with db := AssertionStore.applyAll c.db ms })
      (fun _ _ => env.Disturbed ∨ fuel = 0) := by
  rintro s rfl
  have happly := @AssertionStore.applyPendingModifications_spec env.storeFault s.store.db it fuel
    ms s.store rfl
  rcases hrun : exec (AssertionStore.applyPendingModifications env.storeFault it fuel ms)
    s.store with ⟨e | a, store⟩
  · rw [hrun] at happly
    obtain ⟨e', hfails, -⟩ := exec_onStore_error hrun
    rw [hfails]
    exact happly.imp Or.inr id
  · rw [hrun] at happly
    rw [exec_onStore_ok hrun]
    change (⟨s.blockHashTree, s.latestBlockTree, s.pendingModificationsTree, store.db, s.trace⟩ :
      Contents) = _
    rw [happly]
    rfl

lemma movePendingModificationsToStore_spec (upperBound : Nat) :
    Triple (fun s => s.contents = c) (movePendingModificationsToStore env it fuel upperBound)
      (fun _ s => s.contents = c.move upperBound)
      (fun _ _ => (env.Disturbed ∨ fuel = 0) ∨ u64Max < upperBound + 1) := by
  unfold movePendingModificationsToStore
  refine Triple.ite (fun h => ?_) fun h => ?_
  · exact Triple.pure fun s hs => by rw [hs, Contents.move, if_pos h]
  · refine Triple.bind ((checkedAdd_spec upperBound 1).mono_error fun _ _ h => Or.inr h)
      fun upTo => ?_
    apply Triple.of_fact
    rintro rfl
    refine Triple.bind ((pruneTo_spec _).mono_error fun _ _ h => Or.inl (Or.inl h)) fun ms => ?_
    refine Triple.of_fact ?_
    rintro rfl
    rw [Contents.move, if_neg h]
    refine Triple.ite (fun hempty => ?_) fun _ => ?_
    · refine Triple.pure fun s hs => ?_
      rw [hs, List.isEmpty_iff.mp hempty]
      rfl
    · exact (onStore_applyPendingModifications_spec _).mono_error fun _ _ h => Or.inl h

/-! ### The whole of `index_range` -/

/-- The end of `index_range`, once the last indexed block is marked. -/
lemma indexRange_tail_spec (first last : Nat) (blockHashes : List BlockNumHash) :
    Triple (fun s => s.contents = c) (do
      writeBlockNumHashBatch env blockHashes
      let block ← request env (·.getBlockByTag self.awaitTag)
      let blockToMove ← okOr block .parentBlockNotFound
      movePendingModificationsToStore env it fuel blockToMove.number
      trace (.pendingModificationsMoved blockToMove.number))
      (fun _ s => ∃ t header, (env.node t).getBlockByTag self.awaitTag = some header ∧
        s.contents = ({ c with
          hashes := c.hashes.applyBatch (blockHashes.map fun b => (b.number, b.hash)) } :
            Contents).moved header.number)
      (fun _ _ => self.RangeFailure env fuel first last) := by
  refine Triple.bind ((treeWrite_spec _ (fun c => { c with
    hashes := c.hashes.applyBatch (blockHashes.map fun b => (b.number, b.hash)) })
      fun _ => rfl).mono_error fun _ _ h => .disturbed h) fun _ => ?_
  refine Triple.bind ((request_spec _ _).mono_error fun _ _ h => .disturbed h) fun block => ?_
  rintro s ⟨hs, t, rfl⟩
  refine Triple.bind ((okOr_spec (P := fun s => s.contents = _)).mono_error
    fun _ _ h => .awaited t h) (fun header => ?_) s hs
  refine Triple.of_fact fun hheader => ?_
  refine Triple.bind ((movePendingModificationsToStore_spec _).mono_error ?_) fun _ => ?_
  · rintro - - ((h | h) | h)
    · exact .disturbed h
    · exact .outOfFuel h
    · exact .overflow t header hheader h
  refine Triple.modify ?_
  intro s hs
  refine ⟨t, header, hheader, ?_⟩
  change ({ s.contents with
    trace := .pendingModificationsMoved header.number :: s.contents.trace } : Contents) = _
  rw [hs]
  rw [Contents.moved, Contents.move]
  split <;> rfl

def recorded (c : Contents) (first last : Nat) (pending : OrderedModifications)
    (blockHashes : List BlockNumHash) : Contents :=
  { hashes := c.hashes.applyBatch (blockHashes.map fun b => (b.number, b.hash))
    latest := blockHashes.getLast?.or c.latest
    pending := c.pending.applyBatch (pending.entries.map fun e => (e.1, e.2.values))
    db := c.db
    trace := .indexingRange first last :: c.trace }

theorem indexRange_answers (first last : Nat) :
    Triple (fun s => s.contents = c) (self.indexRange env it fuel first last)
      (fun _ s => ∃ t pending blockHashes t' header,
        self.collect env.services ((env.node t).getLogs ⟨self.stateOracle, first, last⟩) .empty =
          .ok pending ∧
        blockHashes.map (·.number) = List.range' first (last + 1 - first) ∧
        HashesAnswered env blockHashes ∧
        (env.node t').getBlockByTag self.awaitTag = some header ∧
        s.contents = (recorded c first last pending blockHashes).moved header.number)
      (fun _ _ => self.RangeFailure env fuel first last) := by
  unfold indexRange
  refine Triple.bind (R := fun _ s => s.contents = { c with
    trace := .indexingRange first last :: c.trace }) (Triple.modify ?_) fun _ => ?_
  · rintro s rfl
    rfl
  refine Triple.bind ((request_spec _ _).mono_error fun _ _ h => .disturbed h) fun logs => ?_
  rintro s ⟨hs, t, rfl⟩
  refine Triple.bind ((processLogs_spec _ _).mono_error ?_) (fun pending => ?_) s hs
  · rintro - - (h | ⟨e, h⟩)
    · exact .disturbed h
    · exact .logs t e h
  refine Triple.of_fact fun hcollect => ?_
  refine Triple.bind ((treeWrite_spec _ (fun c => { c with
    pending := c.pending.applyBatch (pending.entries.map fun e => (e.1, e.2.values)) })
      fun _ => rfl).mono_error fun _ _ h => .disturbed h) fun _ => ?_
  refine Triple.bind ((fetchBlockHashes_spec _).mono_error ?_) fun blockHashes => ?_
  · rintro - - (h | ⟨t', n, hn, h⟩)
    · exact .disturbed h
    · rw [List.mem_range'_1] at hn
      exact .block t' n hn.1 (by omega) h
  refine Triple.of_fact fun hhashes => ?_
  cases hlast : blockHashes.getLast? with
  | none =>
    refine (indexRange_tail_spec first last blockHashes).consequence (fun _ h => h) ?_
      fun _ _ h => h
    rintro - s ⟨t', header, hheader, hs⟩
    exact ⟨t, pending, blockHashes, t', header, hcollect, hhashes.1, hhashes.2, hheader,
      by rw [hs, recorded, hlast, Option.none_or]⟩
  | some lastIndexed =>
    refine Triple.bind ((treeWrite_spec _ (fun c => { c with latest := some lastIndexed })
      fun _ => rfl).mono_error fun _ _ h => .disturbed h) fun _ => ?_
    refine (indexRange_tail_spec first last blockHashes).consequence (fun _ h => h) ?_
      fun _ _ h => h
    rintro - s ⟨t', header, hheader, hs⟩
    exact ⟨t, pending, blockHashes, t', header, hcollect, hhashes.1, hhashes.2, hheader,
      by rw [hs, recorded, hlast, Option.some_or]⟩

/-! ### The awaited block of a call -/

/-- The node has the block of the number under the await tag at some step of a call. -/
def AwaitedIn (self : Indexer) (env : Env) (since now n : Nat) : Prop :=
  ∃ t header, since ≤ t ∧ t < now ∧ (env.node t).getBlockByTag self.awaitTag = some header ∧
    header.number = n

lemma AwaitedIn.mono {since now now' n : Nat} (h : self.AwaitedIn env since now n)
    (hle : now ≤ now') : self.AwaitedIn env since now' n := by
  obtain ⟨t, header, ht, hnow, hheader, hn⟩ := h
  exact ⟨t, header, ht, Nat.lt_of_lt_of_le hnow hle, hheader, hn⟩

lemma AwaitedIn.exists_eq {blockOf : B256 → Option Block} {chainAt : Nat → Chain blockOf}
    {awaited : Nat → Nat} {since now n : Nat} (h : self.AwaitedIn env since now n)
    (hserves : ∀ t, (env.node t).Serves (chainAt t) self.awaitTag (awaited t)) :
    ∃ t, since ≤ t ∧ t < now ∧ n = awaited t := by
  obtain ⟨t, header, ht, hnow, hheader, rfl⟩ := h
  obtain ⟨b, hb, htag⟩ := (hserves t).getBlockByTag
  cases hheader.symm.trans htag
  exact ⟨t, ht, hnow, (chainAt t).numbered _ b hb⟩

lemma movePendingModificationsToStore_later (upperBound : Nat) :
    Moves Later (movePendingModificationsToStore env it fuel upperBound) := by
  refine Moves.ite (Moves.pure _) (Moves.bind (checkedAdd_moves _ _) fun upTo => ?_)
  refine Moves.bind (pruneTo_moves Later.next (fun _ _ => Nat.le_refl _)
    (fun _ _ => Nat.le_refl _) upTo) fun ms => ?_
  exact Moves.ite (Moves.pure _) (onStore_moves (fun _ _ => Nat.le_refl _) _)

lemma indexRange_tail_awaited (since : Nat) (blockHashes : List BlockNumHash) :
    Triple (fun s => since ≤ s.steps) (do
      writeBlockNumHashBatch env blockHashes
      let block ← request env (·.getBlockByTag self.awaitTag)
      let blockToMove ← okOr block .parentBlockNotFound
      movePendingModificationsToStore env it fuel blockToMove.number
      trace (.pendingModificationsMoved blockToMove.number))
      (fun _ s => ∃ n trace, s.trace = .pendingModificationsMoved n :: trace ∧
        self.AwaitedIn env since s.steps n) (fun _ _ => True) := by
  refine Triple.bind (later_spec (treeOperation_moves Later.next fun _ => Nat.le_refl _))
    fun _ => ?_
  refine Triple.bind (request_later _ _) fun block => ?_
  rintro s ⟨t, ht, hlt, rfl⟩
  refine Triple.bind ((okOr_spec (P := fun s => t + 1 ≤ s.steps)).mono_error
    fun _ _ _ => trivial) (fun header => Triple.of_fact fun hheader => ?_) s hlt
  refine Triple.bind (later_spec (movePendingModificationsToStore_later _)) fun _ => ?_
  refine Triple.modify fun s hs => ?_
  exact ⟨header.number, s.trace, rfl, t, header, ht, hs, hheader, rfl⟩

/-- A range ends with a move up to a block that was awaited during the call. -/
theorem indexRange_awaited (since first last : Nat) :
    Triple (fun s => since ≤ s.steps) (self.indexRange env it fuel first last)
      (fun _ s => ∃ n trace, s.trace = .pendingModificationsMoved n :: trace ∧
        self.AwaitedIn env since s.steps n) (fun _ _ => True) := by
  unfold indexRange
  refine Triple.bind (R := fun _ s => since ≤ s.steps) (Triple.modify fun _ hs => hs) fun _ => ?_
  refine Triple.bind (later_spec (request_moves Later.next _ _)) fun logs => ?_
  refine Triple.bind (later_spec (processLogs_moves Later.next _ _)) fun pending => ?_
  refine Triple.bind (later_spec (treeOperation_moves Later.next fun _ => Nat.le_refl _))
    fun _ => ?_
  refine Triple.bind (later_spec (fetchBlockHashes_moves Later.next _)) fun blockHashes => ?_
  cases blockHashes.getLast? with
  | none => exact indexRange_tail_awaited since blockHashes
  | some lastIndexed =>
    refine Triple.bind (later_spec (treeOperation_moves Later.next fun _ => Nat.le_refl _))
      fun _ => ?_
    exact indexRange_tail_awaited since blockHashes

/-! ### What has been recorded -/

variable {blockOf : B256 → Option Block} {chain : Chain blockOf} {first last : Nat}
  {pending : OrderedModifications} {blockHashes : List BlockNumHash}

/-- The modifications recorded for a block are those of the chain that listed the logs. -/
theorem get_pending_recorded {logs : List RpcLog} (hlogs : self.LogsOf chain first last logs)
    (hcollect : self.collect env.services logs .empty = .ok pending) (n : Nat) :
    (recorded c first last pending blockHashes).pending.get n =
      (if first ≤ n ∧ n ≤ last then chain.pendingEntry self env.services n else none).or
        (c.pending.get n) := by
  rw [← values_collect hlogs hcollect n]
  change (c.pending.applyBatch _).get n = _
  have hkeys : (pending.entries.map fun e => (e.1, e.2.values)).map Prod.fst =
      pending.entries.map Prod.fst := by
    rw [List.map_map]
    rfl
  cases hn : pending.get n with
  | none =>
    refine OrderedTree.get_applyBatch_of_notMem _ _ _ ?_
    rw [hkeys]
    intro hmem
    obtain ⟨e, he, rfl⟩ := List.mem_map.mp hmem
    exact (OrderedTree.get_eq_none_iff _ _).mp hn e.2 he
  | some t =>
    refine OrderedTree.get_applyBatch_of_mem _ _ ?_ ?_
    · rw [hkeys]
      exact pending.keys_nodup
    · exact List.mem_map.mpr ⟨(n, t), (pending.get_eq_some_iff n t).mp hn, rfl⟩

section Hashes

variable (hnumbers : blockHashes.map (·.number) = List.range' first (last + 1 - first))

include hnumbers

lemma mem_range_of_mem {b : BlockNumHash} (hb : b ∈ blockHashes) :
    first ≤ b.number ∧ b.number ≤ last := by
  have hnumber : b.number ∈ List.range' first (last + 1 - first) := by
    rw [← hnumbers]
    exact List.mem_map_of_mem hb
  rw [List.mem_range'_1] at hnumber
  omega

lemma exists_mem_of_range {n : Nat} (hfirst : first ≤ n) (hlast : n ≤ last) :
    ∃ b ∈ blockHashes, b.number = n := by
  have hn : n ∈ blockHashes.map (·.number) := by
    rw [hnumbers, List.mem_range'_1]
    omega
  exact List.mem_map.mp hn

lemma keys_of_numbers : (blockHashes.map fun b => (b.number, b.hash)).map Prod.fst =
    List.range' first (last + 1 - first) := by
  rw [List.map_map, ← hnumbers]
  rfl

lemma get_hashes_recorded_of_mem {b : BlockNumHash} (hb : b ∈ blockHashes) :
    (recorded c first last pending blockHashes).hashes.get b.number = some b.hash := by
  refine OrderedTree.get_applyBatch_of_mem _ _ ?_ (List.mem_map_of_mem hb)
  rw [keys_of_numbers hnumbers]
  exact List.nodup_range'

lemma get_hashes_recorded_of_not {n : Nat} (hn : ¬(first ≤ n ∧ n ≤ last)) :
    (recorded c first last pending blockHashes).hashes.get n = c.hashes.get n := by
  refine OrderedTree.get_applyBatch_of_notMem _ _ _ ?_
  rw [keys_of_numbers hnumbers, List.mem_range'_1]
  omega

lemma getLast?_of_numbers (hle : first ≤ last) :
    ∃ b ∈ blockHashes, blockHashes.getLast? = some b ∧ b.number = last := by
  have hlen : last + 1 - first = (last - first) + 1 := by omega
  have hgetLast : (blockHashes.map (·.number)).getLast? = some last := by
    rw [hnumbers, hlen, List.range'_concat, List.getLast?_append, List.getLast?_singleton,
      Option.some_or]
    congr 1
    omega
  rw [List.getLast?_map] at hgetLast
  obtain ⟨b, hb, hnumber⟩ := Option.map_eq_some_iff.mp hgetLast
  exact ⟨b, List.mem_of_getLast? hb, hb, hnumber⟩

end Hashes

/-! ### Ranges whose answers describe one chain -/

/-- At every step the node answers the queries for the range as the chain has it. -/
structure DescribesRange (indexer : Indexer) (env : Env) (chain : Chain blockOf)
    (first last : Nat) : Prop where
  logs : ∀ t, indexer.LogsOf chain first last
    ((env.node t).getLogs ⟨indexer.stateOracle, first, last⟩)
  blocks : ∀ t n, first ≤ n → n ≤ last →
    (env.node t).getBlockByNumber n = (chain.blocks[n]?).map Block.header

lemma describesRange_of_serves {awaited : Nat → Nat}
    (hserves : ∀ t, (env.node t).Serves chain self.awaitTag (awaited t)) :
    self.DescribesRange env chain first last :=
  ⟨fun t _ => ((hserves t).getLogs _).mem_iff, fun t n _ _ => (hserves t).getBlockByNumber n⟩

theorem recorded_of_describes (hchain : self.DescribesRange env chain first last) {t : Nat}
    (hcollect : self.collect env.services
      ((env.node t).getLogs ⟨self.stateOracle, first, last⟩) .empty = .ok pending)
    (hnumbers : blockHashes.map (·.number) = List.range' first (last + 1 - first))
    (hanswered : HashesAnswered env blockHashes) :
    c.Recorded chain self env.services first last (recorded c first last pending blockHashes) := by
  have hhash : ∀ b ∈ blockHashes,
      (chain.blocks[b.number]?).map (·.header.hash) = some b.hash := by
    intro b hb
    obtain ⟨hfirst, hlast⟩ := mem_range_of_mem hnumbers hb
    obtain ⟨t, header, hheader, hhash⟩ := hanswered b hb
    rw [hchain.blocks t b.number hfirst hlast] at hheader
    obtain ⟨block, hblock, rfl⟩ := Option.map_eq_some_iff.mp hheader
    rw [hblock, Option.map_some, hhash]
  refine ⟨?_, ?_, ?_, get_pending_recorded (hchain.logs t) hcollect, ?_, rfl, rfl⟩
  · intro n hfirst hlast
    obtain ⟨b, hb, rfl⟩ := exists_mem_of_range hnumbers hfirst hlast
    obtain ⟨block, hblock, -⟩ := Option.map_eq_some_iff.mp (hhash b hb)
    exact (List.getElem?_eq_some_iff.mp hblock).1
  · exact (collect_ok_iff_extractable (hchain.logs t)).mp ⟨_, hcollect⟩
  · intro n
    by_cases hn : first ≤ n ∧ n ≤ last
    · obtain ⟨b, hb, rfl⟩ := exists_mem_of_range hnumbers hn.1 hn.2
      rw [if_pos hn, hhash b hb, get_hashes_recorded_of_mem hnumbers hb]
    · rw [if_neg hn, get_hashes_recorded_of_not hnumbers hn]
  · change blockHashes.getLast?.or c.latest = _
    by_cases hle : first ≤ last
    · obtain ⟨b, hb, hgetLast, rfl⟩ := getLast?_of_numbers hnumbers hle
      obtain ⟨block, hblock, hbhash⟩ := Option.map_eq_some_iff.mp (hhash b hb)
      rw [if_pos hle, hgetLast, hblock, Option.some_or, Option.map_some, hbhash]
    · have hlen : last + 1 - first = 0 := by omega
      rw [hlen, List.range'_zero] at hnumbers
      rw [if_neg hle, List.map_eq_nil_iff.mp hnumbers, List.getLast?_nil, Option.none_or]

/-- Indexing a range whose answers describe a chain. -/
theorem indexRange_describes (hchain : self.DescribesRange env chain first last) :
    Triple (fun s => s.contents = c) (self.indexRange env it fuel first last)
      (fun _ s => ∃ c' t header, c.Recorded chain self env.services first last c' ∧
        (env.node t).getBlockByTag self.awaitTag = some header ∧
        s.contents = c'.moved header.number)
      (fun _ _ => self.RangeFailure env fuel first last) := by
  refine (indexRange_answers first last).consequence (fun _ h => h) ?_ fun _ _ h => h
  rintro - s ⟨t, pending, blockHashes, t', header, hcollect, hnumbers, hanswered, hheader, hs⟩
  exact ⟨_, t', header, recorded_of_describes hchain hcollect hnumbers hanswered, hheader, hs⟩

end Indexer

end AssertionExecution
