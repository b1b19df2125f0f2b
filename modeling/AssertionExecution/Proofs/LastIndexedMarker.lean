import AssertionExecution.Proofs.TreeFailures

/-!
# The last indexed block and its hash

`index_range` marks the last block of a range after it has written the modifications and
before it writes the hashes. Up to then the mark of an earlier call stays as it is, and from
then on it names a block of the range.
-/

namespace AssertionExecution

open EffectLogic

namespace Trees

/-- The mark names a block and agrees with the hash that is stored for it, if there is one.
No hash is stored above it. -/
structure Marked (Named : Nat → B256 → Prop) (T : Trees) : Prop where
  bounded : ∀ n, (T.hashes.get n).isSome → n < T.next
  entry : ∀ lastIndexed, T.latest = some lastIndexed → ∀ hash,
    T.hashes.get lastIndexed.number = some hash → hash = lastIndexed.hash
  named : ∀ lastIndexed, T.latest = some lastIndexed → Named lastIndexed.number lastIndexed.hash

def SameMarks (T T' : Trees) : Prop := T'.hashes = T.hashes ∧ T'.latest = T.latest

variable {Named : Nat → B256 → Prop} {T T' : Trees}

lemma next_congr (h : T'.latest = T.latest) : T'.next = T.next := by
  unfold next
  rw [h]

lemma SameMarks.bounded (h : T.SameMarks T') (hbounded : ∀ n, (T.hashes.get n).isSome → n < T.next)
    (n : Nat) (hn : (T'.hashes.get n).isSome) : n < T'.next := by
  rw [next_congr h.2]
  rw [h.1] at hn
  exact hbounded n hn

namespace Marked

lemma empty : (⟨.empty, none, .empty⟩ : Trees).Marked Named where
  bounded := fun _ h => by cases h
  entry := fun _ h => by cases h
  named := fun _ h => by cases h

lemma of_sameMarks (h : T.Marked Named) (hsame : T.SameMarks T') : T'.Marked Named := by
  refine ⟨hsame.bounded h.bounded, fun l hl hash hget => ?_, fun l hl => ?_⟩
  · rw [hsame.2] at hl
    rw [hsame.1] at hget
    exact h.entry l hl hash hget
  · rw [hsame.2] at hl
    exact h.named l hl

lemma of_subset (h : T.Marked Named) (hlatest : T'.latest = T.latest)
    (hget : ∀ n hash, T'.hashes.get n = some hash → T.hashes.get n = some hash) :
    T'.Marked Named := by
  refine ⟨fun n hn => ?_, fun l hl hash hhash => ?_, fun l hl => ?_⟩
  · obtain ⟨hash, hhash⟩ := Option.isSome_iff_exists.mp hn
    rw [next_congr hlatest]
    exact h.bounded n (Option.isSome_iff_exists.mpr ⟨hash, hget n hash hhash⟩)
  · rw [hlatest] at hl
    exact h.entry l hl hash (hget _ hash hhash)
  · rw [hlatest] at hl
    exact h.named l hl

lemma remove_hash (h : T.Marked Named) (n : Nat) :
    ({ T with hashes := T.hashes.remove n } : Trees).Marked Named := by
  refine h.of_subset rfl fun k hash hk => ?_
  rw [OrderedTree.get_remove] at hk
  split_ifs at hk
  exact hk

/-- A mark on the first block after those whose hashes are stored. -/
lemma of_mark {lastIndexed : BlockNumHash}
    (hbounded : ∀ n, (T.hashes.get n).isSome → n < lastIndexed.number)
    (hnamed : Named lastIndexed.number lastIndexed.hash) :
    ({ T with latest := some lastIndexed } : Trees).Marked Named where
  bounded := fun n hn => Nat.lt_succ_of_lt (hbounded n hn)
  entry := by
    intro l hl hash hget
    cases hl
    exact absurd (hbounded _ (Option.isSome_iff_exists.mpr ⟨hash, hget⟩)) (Nat.lt_irrefl _)
  named := by
    intro l hl
    cases hl
    exact hnamed

end Marked

def writeHashes (blockHashes : List BlockNumHash) (T : Trees) : Trees :=
  { T with hashes := T.hashes.applyBatch (blockHashes.map fun b => (b.number, b.hash)) }

/-- The mark is right and stays right once the hashes up to the block before `k` are written. -/
structure Ready (Named : Nat → B256 → Prop) (blockHashes : List BlockNumHash) (k : Nat)
    (T : Trees) : Prop where
  marked : T.Marked Named
  written : (T.writeHashes blockHashes).Marked Named
  next : T.next = k

lemma Ready.nil (h : T.Marked Named) : T.Ready Named [] T.next := ⟨h, h, rfl⟩

lemma Ready.of_sameMarks {blockHashes : List BlockNumHash} {k : Nat}
    (h : T.Ready Named blockHashes k) (hsame : T.SameMarks T') :
    T'.Ready Named blockHashes k where
  marked := h.marked.of_sameMarks hsame
  written := by
    refine h.written.of_sameMarks ⟨?_, hsame.2⟩
    unfold writeHashes
    rw [hsame.1]
  next := (next_congr hsame.2).trans h.next

/-- The end of a range is marked, and its hashes are about to be written. -/
lemma Ready.of_numbers {blockHashes : List BlockNumHash} {first last : Nat}
    (hbounded : ∀ n, (T.hashes.get n).isSome → n < T.next) (hnext : T.next = first)
    (hle : first ≤ last)
    (hnumbers : blockHashes.map (·.number) = List.range' first (last + 1 - first))
    (hnamed : ∀ b ∈ blockHashes, Named b.number b.hash) :
    ({ T with latest := blockHashes.getLast?.or T.latest } : Trees).Ready Named blockHashes
      (last + 1) := by
  obtain ⟨lastIndexed, hmem, hgetLast, hnumber⟩ :=
    Indexer.getLast?_of_numbers hnumbers hle
  rw [hgetLast, Option.some_or]
  have hbelow : ∀ n, (T.hashes.get n).isSome → n < lastIndexed.number := by
    intro n hn
    have hlt := hbounded n hn
    omega
  have hkeys := Indexer.keys_of_numbers hnumbers
  have hnodup : ((blockHashes.map fun b => (b.number, b.hash)).map Prod.fst).Nodup := by
    rw [hkeys]
    exact List.nodup_range'
  refine ⟨Marked.of_mark hbelow (hnamed _ hmem), ⟨fun n hn => ?_, ?_, ?_⟩, by rw [← hnumber]; rfl⟩
  · change n < lastIndexed.number + 1
    by_cases hrange : first ≤ n ∧ n ≤ last
    · omega
    · have hold : ((writeHashes blockHashes T).hashes.get n) = T.hashes.get n := by
        apply OrderedTree.get_applyBatch_of_notMem
        rw [hkeys, List.mem_range'_1]
        omega
      have hlt := hbelow n (hold ▸ hn)
      omega
  · intro l hl hash hget
    cases hl
    have hstored : (T.hashes.applyBatch (blockHashes.map fun b => (b.number, b.hash))).get
        lastIndexed.number = some lastIndexed.hash :=
      OrderedTree.get_applyBatch_of_mem _ _ hnodup (List.mem_map.mpr ⟨lastIndexed, hmem, rfl⟩)
    change (T.hashes.applyBatch _).get lastIndexed.number = some hash at hget
    rw [hstored] at hget
    exact (Option.some_inj.mp hget).symm
  · intro l hl
    cases hl
    exact hnamed _ hmem

end Trees

def Env.Names (env : Env) (Named : Nat → B256 → Prop) (last : Nat) : Prop :=
  ∀ t n header, n ≤ last → (env.node t).getBlockByNumber n = some header → Named n header.hash

namespace Indexer

open IndexerState

variable {self : Indexer} {env : Env} {it : Iteration} {fuel : Nat} {T : Trees}
  {Named : Nat → B256 → Prop} {s : IndexerState} {first last : Nat}

/-! ### Marking a range -/

/-- The part of `index_range` that ends with the mark. -/
def markRange (self : Indexer) (env : Env) (first last : Nat) : IndexerM (List BlockNumHash) := do
  trace (.indexingRange first last)
  let logs ← request env (·.getLogs ⟨self.stateOracle, first, last⟩)
  let pendingModifications ← self.processLogs env logs .empty
  writePendingModifications env pendingModifications
  let blockHashes ← fetchBlockHashes env (List.range' first (last + 1 - first))
  match blockHashes.getLast? with
  | none => pure ()
  | some lastIndexed => insertLastIndexedBlockNumHash env lastIndexed
  return blockHashes

def finishRange (self : Indexer) (env : Env) (it : Iteration) (fuel : Nat)
    (blockHashes : List BlockNumHash) : IndexerM Unit := do
  writeBlockNumHashBatch env blockHashes
  let block ← request env (·.getBlockByTag self.awaitTag)
  let blockToMove ← okOr block .parentBlockNotFound
  movePendingModificationsToStore env it fuel blockToMove.number
  trace (.pendingModificationsMoved blockToMove.number)

lemma indexRange_eq : self.indexRange env it fuel first last = (do
    let blockHashes ← self.markRange env first last
    self.finishRange env it fuel blockHashes) := by
  unfold indexRange markRange finishRange
  simp only [bind_assoc]
  congr 1
  funext _
  congr 1
  funext logs
  congr 1
  funext pending
  congr 1
  funext _
  congr 1
  funext blockHashes
  cases blockHashes.getLast? <;> simp only [bind_assoc, pure_bind]

/-- A range is marked, or the marks are as before. -/
lemma markRange_spec :
    Triple (fun s => T.SameMarks s.trees) (self.markRange env first last)
      (fun blockHashes s =>
        (blockHashes.map (·.number) = List.range' first (last + 1 - first) ∧
          HashesAnswered env blockHashes) ∧
        ({ T with latest := blockHashes.getLast?.or T.latest } : Trees).SameMarks s.trees)
      (fun _ s => T.SameMarks s.trees) := by
  unfold markRange
  refine Triple.bind (keeps_of_idles (trace_idles _) T.SameMarks) fun _ => ?_
  refine Triple.bind (keeps_of_idles (request_moves Idles.next _ _) T.SameMarks) fun logs => ?_
  refine Triple.bind (keeps_of_idles (processLogs_moves Idles.next _ _) T.SameMarks)
    fun pending => ?_
  refine Triple.bind (R := fun _ s => T.SameMarks s.trees) ?_ fun _ => ?_
  · rintro s hs
    refine ((writePendingModifications_trees (T := s.trees) pending).consequence (fun _ h => h)
      (fun _ s' hs' => ?_) fun _ s' hs' => ?_) s rfl
    · rw [hs']
      exact hs
    · rw [hs']
      exact hs
  refine Triple.bind (returns_of_idles (fetchBlockHashes_moves Idles.next _)
    (fun c => fetchBlockHashes_spec (c := c) _) fun _ _ _ _ h => h.1) fun blockHashes =>
      Triple.of_fact fun hhashes => ?_
  cases hlast : blockHashes.getLast? with
  | none =>
    refine Triple.pure fun s hs => ⟨hhashes, ?_⟩
    rw [hlast]
    exact hs
  | some lastIndexed =>
    refine Triple.bind (R := fun _ s =>
      ({ T with latest := some lastIndexed } : Trees).SameMarks s.trees) ?_ fun _ => ?_
    · rintro s hs
      refine ((insertLastIndexedBlockNumHash_trees (T := s.trees) lastIndexed).consequence
        (fun _ h => h) (fun _ s' hs' => ?_) fun _ s' hs' => ?_) s rfl
      · rw [hs']
        exact ⟨hs.1, rfl⟩
      · rw [hs']
        exact hs
    · refine Triple.pure fun s hs => ⟨hhashes, ?_⟩
      rw [hlast]
      exact hs

lemma named_of_answered {blockHashes : List BlockNumHash} (hnames : env.Names Named last)
    (hnumbers : blockHashes.map (·.number) = List.range' first (last + 1 - first))
    (hanswered : HashesAnswered env blockHashes) : ∀ b ∈ blockHashes, Named b.number b.hash := by
  intro b hb
  obtain ⟨t, header, hheader, hhash⟩ := hanswered b hb
  rw [hhash]
  exact hnames t b.number header (mem_range_of_mem hnumbers hb).2 hheader

lemma movePendingModificationsToStore_keeps {P : Trees → Prop} (upperBound : Nat)
    (hhash : ∀ T n, P T → P { T with hashes := T.hashes.remove n })
    (hpending : ∀ T n, P T → P { T with pending := T.pending.remove n }) :
    Keeps (fun s => P s.trees) (movePendingModificationsToStore env it fuel upperBound) := by
  refine Keeps.ite (Keeps.pure _)
    (Keeps.bind (keeps_of_idles (checkedAdd_moves _ _) P) fun upTo => ?_)
  refine Keeps.bind (pruneTo_keeps (P := fun c => P c.trees) upTo
    (fun c n _ hc => hhash c.trees n hc) fun c n hc => hpending c.trees n hc) fun ms => ?_
  exact Keeps.ite (Keeps.pure _) (keeps_of_idles (onStore_idles _) P)

lemma finishRange_end_keeps {P : Trees → Prop}
    (hhash : ∀ T n, P T → P { T with hashes := T.hashes.remove n })
    (hpending : ∀ T n, P T → P { T with pending := T.pending.remove n }) :
    Keeps (fun s => P s.trees) (do
      let block ← request env (·.getBlockByTag self.awaitTag)
      let blockToMove ← okOr block .parentBlockNotFound
      movePendingModificationsToStore env it fuel blockToMove.number
      trace (.pendingModificationsMoved blockToMove.number)) := by
  refine Keeps.bind (keeps_of_idles (request_moves Idles.next _ _) P) fun block => ?_
  refine Keeps.bind (keeps_of_idles (okOr_moves _ _) P) fun header => ?_
  exact Keeps.bind (movePendingModificationsToStore_keeps _ hhash hpending)
    fun _ => keeps_of_idles (trace_idles _) P

/-- From the mark on, a range leaves the mark right however it ends. -/
lemma finishRange_spec (blockHashes : List BlockNumHash) (k : Nat) :
    Triple (fun s => s.trees.Ready Named blockHashes k) (self.finishRange env it fuel blockHashes)
      (fun _ s => s.trees.Marked Named ∧ s.trees.next = k)
      (fun _ s => s.trees.Marked Named ∧ s.trees.next = k) := by
  unfold finishRange
  refine Triple.bind (R := fun _ s => s.trees.Marked Named ∧ s.trees.next = k) ?_ fun _ => ?_
  · rintro s hs
    refine ((writeBlockNumHashBatch_trees (T := s.trees) blockHashes).consequence (fun _ h => h)
      (fun _ s' hs' => ?_) fun _ s' hs' => ?_) s rfl
    · rw [hs']
      exact ⟨hs.written, hs.next⟩
    · rw [hs']
      exact ⟨hs.marked, hs.next⟩
  exact finishRange_end_keeps (P := fun T => T.Marked Named ∧ T.next = k)
    (fun _ n hT => ⟨hT.1.remove_hash n, hT.2⟩) fun _ _ hT => ⟨hT.1.of_sameMarks ⟨rfl, rfl⟩, hT.2⟩

lemma finishRange_latest (blockHashes : List BlockNumHash) (latest : Option BlockNumHash) :
    Keeps (fun s => s.trees.latest = latest) (self.finishRange env it fuel blockHashes) := by
  refine Keeps.bind (treeOperation_keeps (P := fun c => c.trees.latest = latest) fun _ hs => hs)
    fun _ => ?_
  exact finishRange_end_keeps (P := fun T => T.latest = latest) (fun _ _ h => h) fun _ _ h => h

lemma indexRange_marked (hnames : env.Names Named last) (hle : first ≤ last + 1) :
    Triple (fun s => s.trees.Marked Named ∧ s.trees.next = first)
      (self.indexRange env it fuel first last)
      (fun _ s => s.trees.Marked Named ∧ s.trees.next = last + 1)
      (fun _ s => s.trees.Marked Named) := by
  rw [indexRange_eq]
  rintro s ⟨hmarked, hnext⟩
  refine Triple.bind ((markRange_spec (T := s.trees)).mono_error
    fun _ _ hs' => hmarked.of_sameMarks hs') (fun blockHashes => Triple.of_fact ?_) s ⟨rfl, rfl⟩
  rintro ⟨hnumbers, hanswered⟩
  refine (finishRange_spec blockHashes (last + 1)).consequence (fun s' hs' => ?_)
    (fun _ _ h => h) fun _ _ h => h.1
  rcases Nat.lt_or_ge last first with hlt | hge
  · obtain rfl : first = last + 1 := by omega
    rw [Nat.sub_self, List.range'_zero] at hnumbers
    obtain rfl := List.map_eq_nil_iff.mp hnumbers
    rw [← hnext]
    exact (Trees.Ready.nil hmarked).of_sameMarks hs'
  · exact (Trees.Ready.of_numbers hmarked.bounded hnext hge hnumbers
      (named_of_answered hnames hnumbers hanswered)).of_sameMarks hs'

/-! ### Marking the chunks -/

/-- The first chunk of the chunk loop up to its mark, with the last block of the chunk. -/
def markChunk (self : Indexer) (env : Env) (u m first : Nat) :
    IndexerM (Nat × List BlockNumHash) := do
  let chunkEnd ← checkedSub (← checkedAdd first m) 1
  let blockHashes ← self.markRange env first (min chunkEnd u)
  return (min chunkEnd u, blockHashes)

def MarksChunk (self : Indexer) (env : Env) (u m first : Nat) (s : IndexerState) : Prop :=
  ∃ last blockHashes s', exec (self.markChunk env u m first) s = (.ok (last, blockHashes), s') ∧
    blockHashes ≠ []

lemma syncLoop_eq {u m : Nat} (chunks : Nat) (hle : first ≤ u) :
    self.syncLoop env it fuel u m (chunks + 1) first = (do
      let chunk ← self.markChunk env u m first
      self.finishRange env it fuel chunk.2
      if chunk.1 = u then return ()
      syncLoop self env it fuel u m chunks (← checkedAdd chunk.1 1)) := by
  rw [syncLoop, if_pos hle]
  unfold markChunk
  simp only [bind_assoc, pure_bind, indexRange_eq]

lemma markChunk_spec {u m : Nat} :
    Triple (fun s => T.SameMarks s.trees) (self.markChunk env u m first)
      (fun chunk s => (chunk.1 = min (first + m - 1) u ∧ (chunk.2.map (·.number) =
          List.range' first (chunk.1 + 1 - first) ∧ HashesAnswered env chunk.2)) ∧
        ({ T with latest := chunk.2.getLast?.or T.latest } : Trees).SameMarks s.trees)
      (fun _ s => T.SameMarks s.trees) := by
  refine Triple.bind (checkedAdd_returns first m) fun bound => Triple.of_fact ?_
  rintro rfl
  refine Triple.bind (checkedSub_returns _ 1) fun chunkEnd => Triple.of_fact ?_
  rintro rfl
  exact Triple.bind markRange_spec fun blockHashes => Triple.pure fun s hs => ⟨⟨rfl, hs.1⟩, hs.2⟩

lemma syncLoop_marked {u : Nat} (hnames : env.Names Named u) (m chunks first : Nat) :
    Triple (fun s => s.trees.Marked Named ∧ s.trees.next = first)
      (self.syncLoop env it fuel u m chunks first) (fun _ s => s.trees.Marked Named)
      (fun _ s => s.trees.Marked Named) := by
  refine (syncLoop_induct (I := fun k s => s.trees.Marked Named ∧ s.trees.next = k)
    (fun first last hle hlast => indexRange_marked (fun t n header hn => ?_) hle)
    (fun _ _ _ hs => hs.1) chunks first).consequence (fun _ h => h) ?_ fun _ _ h => h
  · exact hnames t n header (Nat.le_trans hn hlast)
  · rintro - s ⟨k, hmarked, -⟩
    exact hmarked

/-- Once the first chunk is marked, the mark is right. -/
lemma syncLoop_marksChunk {u m : Nat} (hnames : env.Names Named u) (chunks : Nat) (hle : first ≤ u)
    (hbounded : ∀ n, (s.trees.hashes.get n).isSome → n < s.trees.next)
    (hnext : s.trees.next = first) (hmarks : self.MarksChunk env u m first s) :
    (exec (self.syncLoop env it fuel u m (chunks + 1) first) s).2.trees.Marked Named := by
  obtain ⟨last, blockHashes, s', hrun, hne⟩ := hmarks
  obtain ⟨⟨hchunk, hnumbers, hanswered⟩, hsame⟩ :=
    (markChunk_spec (T := s.trees)).ok ⟨rfl, rfl⟩ hrun
  dsimp only at hchunk hnumbers hanswered hsame
  have hlast : last ≤ u := hchunk.trans_le (Nat.min_le_right _ _)
  have hfirst : first ≤ last := by
    by_contra hlt
    rw [show last + 1 - first = 0 by omega, List.range'_zero] at hnumbers
    exact hne (List.map_eq_nil_iff.mp hnumbers)
  have hready := (Trees.Ready.of_numbers hbounded hnext hfirst hnumbers (named_of_answered
    (fun t n header hn => hnames t n header (Nat.le_trans hn hlast)) hnumbers
      hanswered)).of_sameMarks hsame
  rw [syncLoop_eq chunks hle, exec_bind, hrun]
  refine Triple.final (I := fun s : IndexerState => s.trees.Marked Named)
    (P := fun s => s.trees.Ready Named blockHashes (last + 1)) ?_ hready
  refine Triple.bind ((finishRange_spec blockHashes (last + 1)).mono_error fun _ _ h => h.1)
    fun _ => ?_
  refine Triple.ite (fun _ => Triple.pure fun _ hs => hs.1) fun _ => ?_
  refine Triple.bind ((checkedAdd_returns last 1).mono_error fun _ _ h => h.1) fun next =>
    Triple.of_fact ?_
  rintro rfl
  exact syncLoop_marked hnames m chunks (last + 1)

lemma syncLoop_zero_latest {u : Nat} (latest : Option BlockNumHash) (chunks first : Nat)
    (hfirst : 0 < first) :
    Keeps (fun s => s.trees.latest = latest) (self.syncLoop env it fuel u 0 chunks first) := by
  induction chunks generalizing first with
  | zero => exact Keeps.throw _
  | succ chunks ih =>
    by_cases hle : first ≤ u
    · rw [syncLoop_eq chunks hle]
      intro s hs
      refine Triple.bind ((markChunk_spec (T := s.trees)).mono_error fun _ _ h => h.2.trans hs)
        (fun chunk => Triple.of_fact ?_) s ⟨rfl, rfl⟩
      rintro ⟨hchunk, hnumbers, -⟩
      rw [Nat.add_zero] at hchunk
      rw [show chunk.1 + 1 - first = 0 by omega, List.range'_zero] at hnumbers
      rw [List.map_eq_nil_iff.mp hnumbers]
      refine Triple.consequence (P := fun s' => s'.trees.latest = latest) ?_
        (fun _ hs' => hs'.2.trans hs) (fun _ _ h => h) fun _ _ h => h
      refine Keeps.bind (finishRange_latest [] latest) fun _ => Keeps.ite (Keeps.pure _) ?_
      refine Triple.bind (checkedAdd_returns chunk.1 1) fun next => Triple.of_fact ?_
      rintro rfl
      exact ih _ (Nat.succ_pos _)
    · rw [syncLoop, if_neg hle]
      exact Keeps.pure ()

/-- Unless the first chunk is marked, the call ends with the mark it began with. -/
lemma syncLoop_latest {u m : Nat} (chunks : Nat) (hfirst : 0 < first) (hle : first ≤ u)
    (hmarks : ¬self.MarksChunk env u m first s) :
    (exec (self.syncLoop env it fuel u m (chunks + 1) first) s).2.trees.latest =
      s.trees.latest := by
  rcases Nat.eq_zero_or_pos m with rfl | hm
  · exact (syncLoop_zero_latest _ _ first hfirst).final rfl
  have hspec := @markChunk_spec self env s.trees first u m
  rw [syncLoop_eq chunks hle, exec_bind]
  rcases hrun : exec (self.markChunk env u m first) s with ⟨e | ⟨last, blockHashes⟩, s'⟩
  · exact (hspec.error ⟨rfl, rfl⟩ hrun).2
  · obtain ⟨⟨hchunk, hnumbers, -⟩, -⟩ := hspec.ok ⟨rfl, rfl⟩ hrun
    refine absurd ⟨last, blockHashes, s', hrun, ?_⟩ hmarks
    rintro rfl
    have hlength : 0 = last + 1 - first := by simpa using congrArg List.length hnumbers
    dsimp only at hchunk
    omega

end Indexer

end AssertionExecution
