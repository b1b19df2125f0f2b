import AssertionExecution.Proofs.AbortedAttempts
import AssertionExecution.Proofs.LastIndexedMarker
import AssertionExecution.Proofs.SyncCall

/-!
# A rollback that is interrupted

A rollback marks the common ancestor with the parent hash of the update block, which is right
only if the common ancestor is the parent. The next mark of `index_range` replaces it.
-/

namespace AssertionExecution

open EffectLogic

/-! ### Blocks and the nodes that know them -/

/-- A hash identifies its block, and a parent is one number below. -/
structure BlockTree (blockOf : B256 → Option Block) : Prop where
  hash : ∀ hash b, blockOf hash = some b → b.header.hash = hash
  parent : ∀ hash b p, blockOf hash = some b → blockOf b.header.parentHash = some p →
    b.header.number = p.header.number + 1

/-- Each answer for a hash or a number is a block with it, on whatever chain. -/
structure Node.Truthful (blockOf : B256 → Option Block) (node : Node) : Prop where
  getBlockByHash : ∀ hash header, node.getBlockByHash hash = some header →
    ∃ b, blockOf hash = some b ∧ b.header = header
  getBlockByNumber : ∀ n header, node.getBlockByNumber n = some header →
    header.number = n ∧ ∃ b, blockOf header.hash = some b ∧ b.header = header

def NamesBlock (blockOf : B256 → Option Block) (n : Nat) (hash : B256) : Prop :=
  ∃ b, blockOf hash = some b ∧ b.header.number = n

/-- The last indexed block is the block itself or one of those below it. -/
inductive DescendsFrom (blockOf : B256 → Option Block) (lastIndexed : BlockNumHash) : Header → Prop
  | here {header : Header} (hnumber : header.number = lastIndexed.number)
      (hhash : header.hash = lastIndexed.hash) : DescendsFrom blockOf lastIndexed header
  | parent {header : Header} {p : Block} (hp : blockOf header.parentHash = some p)
      (h : DescendsFrom blockOf lastIndexed p.header) : DescendsFrom blockOf lastIndexed header

/-- The update block is not below the last indexed block and does not descend from it. -/
def Trees.Reorged (blockOf : B256 → Option Block) (T : Trees) (header : Header) : Prop :=
  ∃ lastIndexed, T.latest = some lastIndexed ∧ lastIndexed.number ≤ header.number ∧
    ¬DescendsFrom blockOf lastIndexed header

/-- The trees have the parent of the update block, so it is the common ancestor. -/
def Trees.RecordsParent (T : Trees) (header : Header) : Prop :=
  ∃ k, header.number = k + 1 ∧ T.hashes.get k = some header.parentHash

section Walks

variable {blockOf : B256 → Option Block} {lastIndexed : BlockNumHash} {b p : Block}

lemma BlockTree.known (htree : BlockTree blockOf) {hash : B256} (h : blockOf hash = some b) :
    blockOf b.header.hash = some b := by
  rw [htree.hash hash b h]
  exact h

lemma Env.names_of_truthful {env : Env} (htruthful : ∀ t, (env.node t).Truthful blockOf)
    (last : Nat) : env.Names (NamesBlock blockOf) last := by
  intro t n header _ hheader
  obtain ⟨hnumber, b, hb, rfl⟩ := (htruthful t).getBlockByNumber n header hheader
  exact ⟨b, hb, hnumber⟩

namespace DescendsFrom

lemma number_le (htree : BlockTree blockOf) (hb : blockOf b.header.hash = some b)
    (h : DescendsFrom blockOf lastIndexed b.header) : lastIndexed.number ≤ b.header.number := by
  generalize hheader : b.header = header at h
  induction h generalizing b with
  | here hnumber _ => exact hnumber.ge
  | parent hp _ ih =>
    subst hheader
    have hle := ih (htree.known hp) rfl
    have hparent := htree.parent _ _ _ hb hp
    omega

lemma iff_of_number_eq (htree : BlockTree blockOf) (hb : blockOf b.header.hash = some b)
    (heq : b.header.number = lastIndexed.number) :
    DescendsFrom blockOf lastIndexed b.header ↔ b.header.hash = lastIndexed.hash := by
  refine ⟨fun h => ?_, fun hhash => .here heq hhash⟩
  cases h with
  | here _ hhash => exact hhash
  | parent hp h =>
    have hle := h.number_le htree (htree.known hp)
    have hparent := htree.parent _ _ _ hb hp
    omega

lemma iff_of_number_ne (hp : blockOf b.header.parentHash = some p)
    (hne : b.header.number ≠ lastIndexed.number) :
    DescendsFrom blockOf lastIndexed b.header ↔ DescendsFrom blockOf lastIndexed p.header := by
  refine ⟨fun h => ?_, fun h => .parent hp h⟩
  cases h with
  | here hnumber _ => exact absurd hnumber hne
  | parent hp' h =>
    rw [hp] at hp'
    cases hp'
    exact h

end DescendsFrom

end Walks

namespace Indexer

open IndexerState

variable {self : Indexer} {env : Env} {it : Iteration} {fuel : Nat} {T : Trees} {c : Contents}
  {blockOf : B256 → Option Block} {b : Block} {s : IndexerState}

/-! ### The walks on a truthful node -/

lemma request_block_spec (htruthful : ∀ t, (env.node t).Truthful blockOf) (hash : B256)
    (e e' : IndexerError) :
    Triple (fun s => s.contents = c) (do
      let cursor ← request env (·.getBlockByHash hash) e
      okOr cursor e')
      (fun header s => (∃ p, blockOf hash = some p ∧ p.header = header) ∧ s.contents = c)
      (fun _ _ => True) := by
  refine Triple.bind ((request_spec _ _).mono_error fun _ _ _ => trivial) fun cursor => ?_
  rintro s ⟨hs, t, rfl⟩
  refine (okOr_spec (P := fun s => s.contents = c)).consequence (fun _ h => h) ?_
    (fun _ _ _ => trivial) s hs
  rintro header s' ⟨hheader, hs'⟩
  exact ⟨(htruthful t).getBlockByHash hash header hheader, hs'⟩

lemma checkIfReorgedLoop_truthful (htree : BlockTree blockOf)
    (htruthful : ∀ t, (env.node t).Truthful blockOf) (lastIndexed : BlockNumHash) (hash : B256) :
    Triple (fun s => s.contents = c) (checkIfReorgedLoop env lastIndexed fuel hash)
      (fun r _ => ∃ p, blockOf hash = some p ∧ lastIndexed.number ≤ p.header.number ∧
        (r = true ↔ ¬DescendsFrom blockOf lastIndexed p.header))
      (fun _ _ => True) := by
  induction fuel generalizing hash with
  | zero => exact Triple.throw fun _ _ => trivial
  | succ fuel ih =>
    rw [checkIfReorgedLoop, ← bind_assoc]
    refine Triple.bind (request_block_spec htruthful hash _ _) fun header => Triple.of_fact ?_
    rintro ⟨p, hp, rfl⟩
    have hknown := htree.known hp
    refine Triple.ite (fun hne => ?_) fun heq => ?_
    · refine (ih p.header.parentHash).consequence (fun _ h => h) ?_ fun _ _ h => h
      rintro r - ⟨q, hq, hle, hr⟩
      have hparent := htree.parent _ _ _ hp hq
      exact ⟨p, hp, by omega, hr.trans (not_congr (DescendsFrom.iff_of_number_ne hq hne)).symm⟩
    · have hnumber : p.header.number = lastIndexed.number := not_not.mp heq
      refine Triple.pure fun _ _ => ⟨p, hp, hnumber.ge, ?_⟩
      rw [decide_eq_true_iff, ne_eq, DescendsFrom.iff_of_number_eq htree hknown hnumber]

/-- A reorganisation is detected exactly when the update block is on another branch. -/
theorem checkIfReorged_truthful (htree : BlockTree blockOf)
    (htruthful : ∀ t, (env.node t).Truthful blockOf) (lastIndexed : BlockNumHash)
    (hb : blockOf b.header.hash = some b) :
    Triple (fun s => s.contents = c) (checkIfReorged env fuel b.updateBlock lastIndexed)
      (fun r _ => lastIndexed.number ≤ b.header.number ∧
        (r = true ↔ ¬DescendsFrom blockOf lastIndexed b.header))
      (fun _ _ => True) := by
  refine Triple.ite (fun heq => ?_) fun hne => ?_
  · refine Triple.pure fun _ _ => ⟨Nat.le_of_eq heq.symm, ?_⟩
    rw [decide_eq_true_iff, ne_eq, DescendsFrom.iff_of_number_eq htree hb heq]
    rfl
  · refine (checkIfReorgedLoop_truthful htree htruthful lastIndexed _).consequence (fun _ h => h) ?_
      fun _ _ h => h
    rintro r - ⟨p, hp, hle, hr⟩
    have hparent := htree.parent _ _ _ hb hp
    exact ⟨by omega, hr.trans (not_congr (DescendsFrom.iff_of_number_ne hp hne)).symm⟩

/-- The common ancestor is the block under the cursor if it is stored, and else lies below. -/
lemma findCommonAncestor_truthful (htree : BlockTree blockOf)
    (htruthful : ∀ t, (env.node t).Truthful blockOf) (hash : B256) :
    Triple (fun s => s.contents = c) (findCommonAncestor env fuel hash)
      (fun r _ => (c.hashes.get r).isSome ∧ ∃ p, blockOf hash = some p ∧
        (r = p.header.number ∧ c.hashes.get r = some hash ∨
          r < p.header.number ∧ c.hashes.get p.header.number ≠ some hash))
      (fun _ _ => True) := by
  induction fuel generalizing hash with
  | zero => exact Triple.throw fun _ _ => trivial
  | succ fuel ih =>
    rw [findCommonAncestor, ← bind_assoc]
    refine Triple.bind (request_block_spec htruthful hash _ _) fun header => Triple.of_fact ?_
    rintro ⟨p, hp, rfl⟩
    have hhash := htree.hash hash p hp
    refine Triple.bind ((treeOperation_spec (P := fun r c' =>
      r = c.hashes.get p.header.number ∧ c' = c) _ (by rintro s rfl; exact ⟨rfl, rfl⟩)).mono_error
        fun _ _ _ => trivial) fun stored => Triple.of_fact ?_
    rintro rfl
    cases hstored : c.hashes.get p.header.number with
    | none => exact Triple.throw fun _ _ => trivial
    | some found =>
      refine Triple.ite (fun heq => ?_) fun hne => ?_
      · refine Triple.pure fun _ _ => ⟨by rw [hstored]; rfl, p, hp, Or.inl ⟨rfl, ?_⟩⟩
        rw [hstored, heq, hhash]
      · refine (ih p.header.parentHash).consequence (fun _ h => h) ?_ fun _ _ h => h
        rintro r - ⟨hsome, q, hq, hr⟩
        have hparent := htree.parent _ _ _ hp hq
        refine ⟨hsome, p, hp, Or.inr ⟨by omega, fun hget => hne ?_⟩⟩
        rw [hhash]
        exact Option.some_inj.mp (hstored.symm.trans hget)

/-! ### Where a call begins -/

inductive Begins (blockOf : B256 → Option Block) (T : Trees) (header : Header) :
    Nat → Trees → Prop
  | fresh {T' : Trees} (h : T.latest = none) (hsame : T.SameMarks T') :
      Begins blockOf T header 0 T'
  | continues {T' : Trees} (hreorged : ¬T.Reorged blockOf header) (hsame : T.SameMarks T') :
      Begins blockOf T header T.next T'
  | rollsBack {T' : Trees} (k : Nat) (hreorged : T.Reorged blockOf header)
      (hstored : (T.hashes.get k).isSome)
      (hparent : T.RecordsParent header ∧ header.number = k + 1 ∧
          NamesBlock blockOf k header.parentHash ∨
        ¬T.RecordsParent header ∧ k + 1 < header.number)
      (hhashes : T'.hashes = T.hashes.restrict fun n => !(k + 1 ≤ n))
      (hlatest : T'.latest = some ⟨k, header.parentHash⟩) : Begins blockOf T header (k + 1) T'

/-- The mark is as before and no hash is new. If the common ancestor is the parent, no hash
below the update block is missing. -/
structure Unmoved (T : Trees) (header : Header) (T' : Trees) : Prop where
  latest : T'.latest = T.latest
  subset : ∀ n hash, T'.hashes.get n = some hash → T.hashes.get n = some hash
  below : T.RecordsParent header → ∀ n, n < header.number → T'.hashes.get n = T.hashes.get n

lemma Unmoved.of_eq {header : Header} {T' : Trees} (h : T' = T) : Unmoved T header T' := by
  rw [h]
  exact ⟨rfl, fun _ _ hget => hget, fun _ _ _ => rfl⟩

lemma pruneFrom_unmoved {header : Header} {k : Nat}
    (hparent : T.RecordsParent header → header.number = k + 1) :
    Triple (fun s => s.trees = T) (pruneFrom env (k + 1))
      (fun _ s => (s.trees.hashes = T.hashes.restrict fun n => !(k + 1 ≤ n)) ∧
        Unmoved T header s.trees)
      (fun _ s => Unmoved T header s.trees) := by
  intro s hs
  have hkeeps : Keeps (fun s => Unmoved T header s.trees) (pruneFrom env (k + 1)) := by
    refine pruneFrom_keeps (P := fun c => Unmoved T header c.trees) (k + 1)
      (fun c n hn hc => ⟨hc.latest, fun m hash hm => ?_, fun hrecords m hm => ?_⟩)
      fun c n hc => ⟨hc.latest, hc.subset, hc.below⟩
    · change (c.hashes.remove n).get m = some hash at hm
      rw [OrderedTree.get_remove] at hm
      split_ifs at hm
      exact hc.subset m hash hm
    · have hnumber := hparent hrecords
      change (c.hashes.remove n).get m = _
      rw [OrderedTree.get_remove, if_neg (by omega)]
      exact hc.below hrecords m hm
  refine ((pruneFrom_spec (c := s.contents) (k + 1)).and hkeeps).consequence (fun _ h => h)
    ?_ (fun _ _ h => h.2) s ⟨rfl, Unmoved.of_eq hs⟩
  rintro - s' ⟨hprune, hunmoved⟩
  refine ⟨?_, hunmoved⟩
  have hhashes : s'.trees.hashes = s.trees.hashes.restrict fun n => !(k + 1 ≤ n) :=
    congrArg Contents.hashes hprune
  rw [hhashes, hs]

lemma rollback_truthful (htree : BlockTree blockOf)
    (htruthful : ∀ t, (env.node t).Truthful blockOf) (hb : blockOf b.header.hash = some b)
    (hreorged : T.Reorged blockOf b.header) :
    Triple (fun s => s.trees = T) (do
      let commonAncestor ← findCommonAncestor env fuel b.updateBlock.parentHash
      let start ← checkedAdd commonAncestor 1
      pruneFrom env start
      insertLastIndexedBlockNumHash env ⟨commonAncestor, b.updateBlock.parentHash⟩
      return start)
      (fun start s => Begins blockOf T b.header start s.trees)
      (fun _ s => Unmoved T b.header s.trees) := by
  refine Triple.bind ((returns_of_idles (P := (· = T)) (F := fun k =>
    (T.hashes.get k).isSome ∧ (T.RecordsParent b.header ∧ b.header.number = k + 1 ∧
        NamesBlock blockOf k b.header.parentHash ∨
      ¬T.RecordsParent b.header ∧ k + 1 < b.header.number)) (findCommonAncestor_moves Idles.next _)
    (fun c => findCommonAncestor_truthful (c := c) htree htruthful _) ?_).mono_error
      fun _ _ h => .of_eq h) fun k => Triple.of_fact ?_
  · rintro c k - rfl ⟨hstored, p, hp, hk⟩
    have hnumber := htree.parent _ _ _ hb hp
    refine ⟨hstored, hk.imp (fun hk => ?_) fun hk => ?_⟩
    · obtain ⟨rfl, hget⟩ := hk
      exact ⟨⟨_, hnumber, hget⟩, hnumber, p, hp, rfl⟩
    · obtain ⟨hlt, hget⟩ := hk
      refine ⟨?_, by omega⟩
      rintro ⟨j, hj, hstoredParent⟩
      obtain rfl : j = p.header.number := by omega
      exact hget hstoredParent
  rintro ⟨hstored, hparent⟩
  have hnumber : T.RecordsParent b.header → b.header.number = k + 1 := by
    intro hrecords
    rcases hparent with h | h
    · exact h.2.1
    · exact absurd hrecords h.1
  refine Triple.bind ((checkedAdd_returns k 1).mono_error fun _ _ h => .of_eq h) fun start =>
    Triple.of_fact ?_
  rintro rfl
  refine Triple.bind (pruneFrom_unmoved hnumber) fun _ => Triple.of_forall ?_
  rintro s ⟨hhashes, hunmoved⟩
  refine Triple.bind ((insertLastIndexedBlockNumHash_trees (T := s.trees) _).consequence
    (fun _ h => by rw [h]) (fun _ _ h => h) fun _ s' hs' => by rw [hs']; exact hunmoved)
      fun _ => Triple.pure fun s' hs' => ?_
  rw [hs']
  exact .rollsBack k hreorged hstored hparent hhashes rfl

theorem syncStart_truthful (fuel : Nat) (htree : BlockTree blockOf)
    (htruthful : ∀ t, (env.node t).Truthful blockOf) (hb : blockOf b.header.hash = some b) :
    Triple (fun s => s.trees = T) (syncStart env fuel b.updateBlock)
      (fun start s => Begins blockOf T b.header start s.trees)
      (fun _ s => Unmoved T b.header s.trees) := by
  refine Triple.bind ((treeOperation_trees (P := fun r T' => r = T.latest ∧ T' = T) _
    fun s hs => ?_).mono_error fun _ _ h => .of_eq h) fun r => Triple.of_fact ?_
  · rw [← hs]
    exact ⟨rfl, rfl⟩
  rintro rfl
  cases hlatest : T.latest with
  | none => exact Triple.pure fun s hs => .fresh hlatest (by rw [hs]; exact ⟨rfl, rfl⟩)
  | some lastIndexed =>
    refine Triple.bind ((returns_of_idles (P := (· = T)) (F := fun r =>
      r = true ↔ T.Reorged blockOf b.header) (checkIfReorged_moves Idles.next _ _)
      (fun c => checkIfReorged_truthful (c := c) htree htruthful lastIndexed hb) ?_).mono_error
        fun _ _ h => .of_eq h) fun reorged => Triple.of_fact fun hreorged => ?_
    · rintro - r - - ⟨hle, hr⟩
      refine hr.trans ⟨fun hnot => ⟨lastIndexed, hlatest, hle, hnot⟩, ?_⟩
      rintro ⟨l, hl, -, hnot⟩
      rw [hlatest] at hl
      cases hl
      exact hnot
    refine Triple.ite (fun htrue => ?_) fun hfalse => ?_
    · exact rollback_truthful htree htruthful hb (hreorged.mp htrue)
    · refine (checkedAdd_returns lastIndexed.number 1).consequence (fun _ h => h) ?_
        fun _ _ h => .of_eq h
      rintro start s ⟨rfl, hs⟩
      have hnext : T.next = lastIndexed.number + 1 := by
        unfold Trees.next
        rw [hlatest]
      rw [← hnext]
      exact .continues (fun h => hfalse (hreorged.mpr h)) (by rw [hs]; exact ⟨rfl, rfl⟩)

/-! ### One call -/

section Calls

variable {m u start : Nat} {s' : IndexerState} {header : Header} {T' : Trees}
  {Named : Nat → B256 → Prop}

lemma Begins.bounded (h : Begins blockOf T header start T')
    (hbounded : ∀ n, (T.hashes.get n).isSome → n < T.next) :
    (∀ n, (T'.hashes.get n).isSome → n < T'.next) ∧ T'.next = start := by
  cases h with
  | fresh h hsame =>
    refine ⟨hsame.bounded hbounded, (Trees.next_congr hsame.2).trans ?_⟩
    unfold Trees.next
    rw [h]
  | continues hreorged hsame => exact ⟨hsame.bounded hbounded, Trees.next_congr hsame.2⟩
  | rollsBack k hreorged hstored hparent hhashes hlatest =>
    have hnext : T'.next = k + 1 := by
      unfold Trees.next
      rw [hlatest]
    refine ⟨fun n hn => ?_, hnext⟩
    rw [hhashes, OrderedTree.get_restrict] at hn
    split_ifs at hn with hlt
    · rw [hnext]
      simpa using hlt
    · cases hn

/-- The rollback to the parent of the update block leaves the mark right. -/
lemma marked_of_recordsParent {k : Nat} (hrecords : T.RecordsParent header)
    (hnumber : header.number = k + 1) (hnamed : Named k header.parentHash)
    (hhashes : T'.hashes = T.hashes.restrict fun n => !(k + 1 ≤ n))
    (hlatest : T'.latest = some ⟨k, header.parentHash⟩) : T'.Marked Named := by
  obtain ⟨j, hj, hparent⟩ := hrecords
  obtain rfl : j = k := by omega
  refine ⟨fun n hn => ?_, fun l hl hash hget => ?_, fun l hl => ?_⟩
  · unfold Trees.next
    rw [hlatest]
    rw [hhashes, OrderedTree.get_restrict] at hn
    split_ifs at hn with hlt
    · simpa using hlt
    · cases hn
  · rw [hlatest] at hl
    cases hl
    rw [hhashes, OrderedTree.get_restrict] at hget
    split_ifs at hget
    exact Option.some_inj.mp (hget.symm.trans hparent)
  · rw [hlatest] at hl
    cases hl
    exact hnamed

/-- The rollback of a call has ended when the call fails before it has marked a block. The
common ancestor is not the parent of the update block. -/
structure Interrupted (indexer : Indexer) (blockOf : B256 → Option Block) (env : Env)
    (fuel : Nat) (b : Block) (m : Nat) (s : IndexerState) : Prop where
  reorged : s.trees.Reorged blockOf b.header
  deep : ¬s.trees.RecordsParent b.header
  unmarked : ∃ start s', exec (syncStart env fuel b.updateBlock) s = (.ok start, s') ∧
    ¬indexer.MarksChunk env b.header.number m start s'

lemma exec_sync_of_syncStart (it : Iteration) (m : Nat)
    (h : exec (syncStart env fuel b.updateBlock) s = (.ok start, s')) :
    exec (self.sync env it fuel b.updateBlock m) s = exec (self.syncLoop env it fuel
      b.header.number m (b.header.number + 1 - start + 1) start) s' := by
  rw [sync, exec_bind, h]
  rfl

lemma exec_sync_of_error (it : Iteration) (m : Nat) {e : Failure IndexerError}
    (h : exec (syncStart env fuel b.updateBlock) s = (.error e, s')) :
    exec (self.sync env it fuel b.updateBlock m) s = (.error e, s') := by
  rw [sync, exec_bind, h]

lemma syncLoop_final_marked (hnames : env.Names Named u) (m : Nat)
    (hbounded : ∀ n, (s.trees.hashes.get n).isSome → n < s.trees.next)
    (hnext : s.trees.next = start)
    (h : s.trees.Marked Named ∨ start ≤ u ∧ self.MarksChunk env u m start s) (chunks : Nat) :
    (exec (self.syncLoop env it fuel u m (chunks + 1) start) s).2.trees.Marked Named := by
  rcases h with hmarked | ⟨hle, hmarks⟩
  · exact (syncLoop_marked hnames m (chunks + 1) start).final ⟨hmarked, hnext⟩
  · exact syncLoop_marksChunk hnames chunks hle hbounded hnext hmarks

/-- Once it is known where to start, a call that is not interrupted leaves the mark right, if the
mark was right before or has been rolled back. -/
lemma marked_of_begins (it : Iteration) (hnames : env.Names Named b.header.number)
    (hrun : exec (syncStart env fuel b.updateBlock) s = (.ok start, s'))
    (hbegins : Begins blockOf s.trees b.header start s'.trees)
    (hbounded : ∀ n, (s.trees.hashes.get n).isSome → n < s.trees.next)
    (hkept : ¬s.trees.Reorged blockOf b.header → s.trees.Marked Named)
    (hparentNamed : ∀ k, b.header.number = k + 1 → NamesBlock blockOf k b.header.parentHash →
      Named k b.header.parentHash)
    (hnot : ¬self.Interrupted blockOf env fuel b m s) :
    (exec (self.sync env it fuel b.updateBlock m) s).2.trees.Marked Named := by
  obtain ⟨hbounded', hnext⟩ := hbegins.bounded hbounded
  rw [exec_sync_of_syncStart it m hrun]
  refine syncLoop_final_marked hnames m hbounded' hnext ?_ _
  cases hbegins with
  | fresh hnone hsame =>
    refine Or.inl ((hkept ?_).of_sameMarks hsame)
    rintro ⟨l, hl, -⟩
    rw [hnone] at hl
    cases hl
  | continues hreorged hsame => exact Or.inl ((hkept hreorged).of_sameMarks hsame)
  | rollsBack k hreorged hstored hparent hhashes hlatest =>
    rcases hparent with ⟨hrecords, hnumber, hnamed⟩ | ⟨hdeep, hlt⟩
    · exact Or.inl (marked_of_recordsParent hrecords hnumber (hparentNamed k hnumber hnamed)
        hhashes hlatest)
    · refine Or.inr ⟨hlt.le, by_contra fun hchunk => hnot ?_⟩
      exact ⟨hreorged, hdeep, _, _, hrun, hchunk⟩

/-- A call leaves the mark right unless a rollback of it is interrupted. -/
theorem marked_of_not_interrupted (htree : BlockTree blockOf)
    (htruthful : ∀ t, (env.node t).Truthful blockOf) (hb : blockOf b.header.hash = some b)
    (hmarked : s.trees.Marked (NamesBlock blockOf))
    (hnot : ¬self.Interrupted blockOf env fuel b m s) :
    (exec (self.sync env it fuel b.updateBlock m) s).2.trees.Marked (NamesBlock blockOf) := by
  have hspec := syncStart_truthful fuel htree htruthful hb (T := s.trees)
  rcases hrun : exec (syncStart env fuel b.updateBlock) s with ⟨e | start, s'⟩
  · have hunmoved := hspec.error rfl hrun
    rw [exec_sync_of_error it m hrun]
    exact hmarked.of_subset hunmoved.latest hunmoved.subset
  · exact marked_of_begins it (Env.names_of_truthful htruthful _) hrun (hspec.ok rfl hrun)
      hmarked.bounded (fun _ => hmarked) (fun _ _ hnamed => hnamed) hnot

/-- An interrupted rollback leaves a mark with the hash of a higher block. -/
theorem not_named_of_interrupted (it : Iteration) (htree : BlockTree blockOf)
    (htruthful : ∀ t, (env.node t).Truthful blockOf) (hb : blockOf b.header.hash = some b)
    (h : self.Interrupted blockOf env fuel b m s) :
    ∃ lastIndexed, (exec (self.sync env it fuel b.updateBlock m) s).2.latestBlockTree =
      some lastIndexed ∧ ¬NamesBlock blockOf lastIndexed.number lastIndexed.hash := by
  obtain ⟨start, s', hrun, hchunk⟩ := h.unmarked
  have hspec := (syncStart_truthful fuel htree htruthful hb (T := s.trees)).ok rfl hrun
  rw [exec_sync_of_syncStart it m hrun]
  cases hspec with
  | fresh hnone =>
    obtain ⟨l, hl, -⟩ := h.reorged
    rw [hnone] at hl
    cases hl
  | continues hreorged => exact absurd h.reorged hreorged
  | rollsBack k hreorged hstored hparent hhashes hlatest =>
    rcases hparent with ⟨hrecords, -⟩ | ⟨-, hlt⟩
    · exact absurd hrecords h.deep
    refine ⟨_, (syncLoop_latest _ (Nat.succ_pos k) hlt.le hchunk).trans hlatest, ?_⟩
    rintro ⟨p, hp, hnumber⟩
    have hparent := htree.parent _ _ _ hb hp
    dsimp only at hnumber
    omega

end Calls

end Indexer

end AssertionExecution
