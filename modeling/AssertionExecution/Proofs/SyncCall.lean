import AssertionExecution.Proofs.IndexedWindow

/-!
# One call of `sync`

A call decides where to start, rolling back if the chain was reorganised, and then indexes
chunk by chunk. The node serves one chain with one awaited block during the call.
-/

namespace AssertionExecution

open EffectLogic

namespace Indexer

variable {self : Indexer} {env : Env} {it : Iteration} {fuel : Nat} {c : Contents}
  {blockOf : B256 → Option Block} {chain : Chain blockOf} {awaited u : Nat} {awaitedAt : Nat → Nat}
  {b : Block}

/-! ### Where indexing starts -/

/-- The first block to index for an update block, and the contents then. -/
inductive StartsAt (chain : Chain blockOf) (c : Contents) (u : Nat) (b : Block) :
    Nat → Contents → Prop
  | fresh (h : c.latest = none) : StartsAt chain c u b 0 c
  | continues (lastIndexed : BlockNumHash) (b' : Block) (h : c.latest = some lastIndexed)
      (hle : lastIndexed.number ≤ u) (hb' : chain.blocks[lastIndexed.number]? = some b')
      (hhash : b'.header.hash = lastIndexed.hash) :
      StartsAt chain c u b (lastIndexed.number + 1) c
  | rollsBack (lastIndexed : BlockNumHash) (b' : Block) (r : Nat)
      (h : c.latest = some lastIndexed) (hle : lastIndexed.number ≤ u)
      (hb' : chain.blocks[lastIndexed.number]? = some b')
      (hhash : b'.header.hash ≠ lastIndexed.hash) (hr : r < u) (hknows : c.Knows chain r)
      (habove : ∀ j, r < j → j < u → ¬c.Knows chain j) :
      StartsAt chain c u b (r + 1)
        { c.prune (r + 1 ≤ ·) with latest := some ⟨r, b.header.parentHash⟩ }

inductive StartFailure (env : Env) (fuel : Nat) (chain : Chain blockOf) (c : Contents) (u : Nat) :
    Prop
  | disturbed (h : env.Disturbed)
  | outOfFuel (h : fuel ≤ u)
  | behind (lastIndexed : BlockNumHash) (h : c.latest = some lastIndexed)
      (hlt : u < lastIndexed.number)
  | hidden (lastIndexed : BlockNumHash) (b' : Block) (h : c.latest = some lastIndexed)
      (hb' : chain.blocks[lastIndexed.number]? = some b')
      (hhash : b'.header.hash ≠ lastIndexed.hash) (hhidden : Hidden chain c u)

lemma succ_le_u64Max {n : Nat} (h : n < chain.blocks.length) : n + 1 ≤ u64Max :=
  Nat.le_trans h chain.bounded

lemma rollback_spec (hserves : ∀ t, (env.node t).Serves chain self.awaitTag (awaitedAt t))
    (hb : chain.blocks[u]? = some b) {lastIndexed : BlockNumHash} {b' : Block}
    (hlatest : c.latest = some lastIndexed) (hle : lastIndexed.number ≤ u)
    (hb' : chain.blocks[lastIndexed.number]? = some b')
    (hhash : b'.header.hash ≠ lastIndexed.hash) :
    Triple (fun s => s.contents = c) (do
      let commonAncestor ← findCommonAncestor env fuel b.updateBlock.parentHash
      let start ← checkedAdd commonAncestor 1
      pruneFrom env start
      insertLastIndexedBlockNumHash env ⟨commonAncestor, b.updateBlock.parentHash⟩
      return start)
      (fun start s => StartsAt chain c u b start s.contents)
      (fun f _ => StartFailure env fuel chain c u ∧ (env.Disturbed ∨ fuel ≤ u ∨ f.Reported)) := by
  refine Triple.bind ((findCommonAncestor_spec hserves hb).mono_error ?_) fun r => Triple.of_fact ?_
  · rintro f - (h | h | h)
    · exact ⟨.disturbed h, Or.inl h⟩
    · exact ⟨.outOfFuel h, Or.inr (Or.inl h)⟩
    · exact ⟨.hidden lastIndexed b' hlatest hb' hhash h.1, Or.inr (Or.inr h.2)⟩
  rintro ⟨hr, hknows, habove⟩
  have hbound : r + 1 ≤ u64Max :=
    succ_le_u64Max (Nat.lt_trans hr (List.getElem?_eq_some_iff.mp hb).1)
  refine Triple.bind ((checkedAdd_spec r 1).mono_error
    fun _ _ h => absurd h (Nat.not_lt.mpr hbound)) fun start => Triple.of_fact ?_
  rintro rfl
  refine Triple.bind ((pruneFrom_spec _).mono_error
    fun _ _ h => ⟨.disturbed h, Or.inl h⟩) fun _ => ?_
  refine Triple.bind ((treeWrite_spec _ (fun c => { c with
    latest := some ⟨r, b.header.parentHash⟩ }) fun _ => rfl).mono_error
      fun _ _ h => ⟨.disturbed h, Or.inl h⟩) fun _ => ?_
  refine Triple.pure fun s hs => ?_
  rw [hs]
  exact .rollsBack lastIndexed b' r hlatest hle hb' hhash hr hknows habove

/-- Where nothing fails and the fuel suffices, only an error that the call reports keeps it from
finding out where to start. -/
theorem syncStart_spec (hserves : ∀ t, (env.node t).Serves chain self.awaitTag (awaitedAt t))
    (hb : chain.blocks[u]? = some b) :
    Triple (fun s => s.contents = c) (syncStart env fuel b.updateBlock)
      (fun start s => StartsAt chain c u b start s.contents)
      (fun f _ => StartFailure env fuel chain c u ∧ (env.Disturbed ∨ fuel ≤ u ∨ f.Reported)) := by
  refine Triple.bind ((treeOperation_spec (P := fun r c' => r = c.latest ∧ c' = c) _
    (by rintro s rfl; exact ⟨rfl, rfl⟩)).mono_error fun _ _ h => ⟨.disturbed h, Or.inl h⟩)
    fun r => Triple.of_fact ?_
  rintro rfl
  cases hlatest : c.latest with
  | none =>
    refine Triple.pure fun s hs => ?_
    rw [hs]
    exact .fresh hlatest
  | some lastIndexed =>
    refine Triple.bind ((checkIfReorged_spec hserves lastIndexed hb).mono_error ?_)
      fun r => Triple.of_fact ?_
    · rintro f - (h | h | h)
      · exact ⟨.disturbed h, Or.inl h⟩
      · exact ⟨.outOfFuel h, Or.inr (Or.inl h)⟩
      · exact ⟨.behind lastIndexed hlatest h.1, Or.inr (Or.inr h.2)⟩
    rintro ⟨hle, b', hb', rfl⟩
    by_cases hhash : b'.header.hash = lastIndexed.hash
    · simp only [hhash, ne_eq, not_true_eq_false, decide_false, Bool.false_eq_true, if_false]
      have hbound := succ_le_u64Max (List.getElem?_eq_some_iff.mp hb').1
      refine (checkedAdd_spec _ 1).consequence (fun _ h => h) ?_
        fun _ _ h => absurd h (Nat.not_lt.mpr hbound)
      rintro _ s ⟨rfl, hs⟩
      rw [hs]
      exact .continues lastIndexed b' hlatest hle hb' hhash
    · simp only [hhash, ne_eq, not_false_eq_true, decide_true, if_true]
      exact rollback_spec hserves hb hlatest hle hb' hhash

/-! ### The chunks -/

inductive ChunkFailure (self : Indexer) (env : Env) (fuel : Nat) (chain : Chain blockOf)
    (first last : Nat) : Prop
  | disturbed (h : env.Disturbed)
  | outOfFuel (h : fuel = 0)
  | unextractable (n : Nat) (b : Block) (hb : chain.blocks[n]? = some b) (hfirst : first ≤ n)
      (hlast : n ≤ last) (h : ¬self.Extractable env.services b)

lemma ChunkFailure.mono {first last first' last' : Nat}
    (h : self.ChunkFailure env fuel chain first last) (hfirst : first' ≤ first)
    (hlast : last ≤ last') : self.ChunkFailure env fuel chain first' last' := by
  cases h with
  | disturbed h => exact .disturbed h
  | outOfFuel h => exact .outOfFuel h
  | unextractable n b hb hn hn' h =>
    exact .unextractable n b hb (Nat.le_trans hfirst hn) (Nat.le_trans hn' hlast) h

lemma chunkFailure_of_rangeFailure
    (hserves : ∀ t, (env.node t).Serves chain self.awaitTag (awaitedAt t)) {first last : Nat}
    (hlen : last < chain.blocks.length) (h : self.RangeFailure env fuel first last) :
    self.ChunkFailure env fuel chain first last := by
  cases h with
  | disturbed h => exact .disturbed h
  | outOfFuel h => exact .outOfFuel h
  | logs t e h =>
    by_contra hno
    have hall : ∀ n b, chain.blocks[n]? = some b → first ≤ n → n ≤ last →
        self.Extractable env.services b := fun n b hb hfirst hlast =>
      by_contra fun hne => hno (.unextractable n b hb hfirst hlast hne)
    have hcollect : ∃ r, self.collect env.services
        ((env.node t).getLogs ⟨self.stateOracle, first, last⟩) .empty = .ok r :=
      (collect_ok_iff_extractable ((describesRange_of_serves hserves).logs t)).mpr hall
    obtain ⟨_, hok⟩ := hcollect
    rw [h] at hok
    cases hok
  | block t n hfirst hlast h =>
    rw [(hserves t).getBlockByNumber, List.getElem?_eq_getElem (Nat.lt_of_le_of_lt hlast hlen)] at h
    cases h
  | awaited t h =>
    obtain ⟨b, -, hb⟩ := (hserves t).getBlockByTag
    rw [h] at hb
    cases hb
  | overflow t header h hbound =>
    obtain ⟨b, hb, htag⟩ := (hserves t).getBlockByTag
    rw [h] at htag
    cases htag
    rw [chain.numbered _ b hb] at hbound
    exact absurd (succ_le_u64Max (List.getElem?_eq_some_iff.mp hb).1) (Nat.not_le.mpr hbound)

/-- The await block of the latest `index_range`, or 0 before the first. -/
def lastMoved : List TraceEvent → Nat
  | [] => 0
  | .pendingModificationsMoved blockToMove :: _ => blockToMove
  | .indexingRange _ _ :: trace => lastMoved trace

/-- The outcome of indexing the blocks from `first` to `last` in one call. -/
structure IndexedTo (indexer : Indexer) (services : Services) (chain : Chain blockOf)
    (db₀ : OrderedTree Address (List AssertionState)) (p first last awaited : Nat)
    (c : Contents) : Prop where
  indexes : c.Indexes chain indexer services db₀ (Contents.cut p (last + 1) awaited) (last + 1)
  latest : c.latest = (chain.blocks[last]?).map fun b => ⟨last, b.header.hash⟩
  moved : lastMoved c.trace = awaited
  extractable : ∀ n b, chain.blocks[n]? = some b → first ≤ n → n ≤ last →
    indexer.Extractable services b

variable {db₀ : OrderedTree Address (List AssertionState)} {p : Nat}

/-- On a served chain with one awaited block, a range is recorded and moved up to that block. -/
lemma indexRange_serves (hserves : ∀ t, (env.node t).Serves chain self.awaitTag awaited)
    {first last : Nat} (hlen : last < chain.blocks.length) :
    Triple (fun s => s.contents = c) (self.indexRange env it fuel first last)
      (fun _ s => ∃ c', c.Recorded chain self env.services first last c' ∧
        s.contents = c'.moved awaited)
      (fun _ _ => self.ChunkFailure env fuel chain first last) := by
  refine (indexRange_describes (describesRange_of_serves hserves)).consequence (fun _ h => h) ?_
    fun _ _ h => chunkFailure_of_rangeFailure hserves hlen h
  rintro - s ⟨c', t, header, hrecorded, hheader, hs⟩
  obtain ⟨b, hb, htag⟩ := (hserves t).getBlockByTag
  rw [htag] at hheader
  cases hheader
  rw [chain.numbered _ b hb] at hs
  exact ⟨c', hrecorded, hs⟩

lemma indexRange_spec (hserves : ∀ t, (env.node t).Serves chain self.awaitTag awaited)
    {first last : Nat} (hwindow : c.Indexes chain self env.services db₀ p first)
    (hle : first ≤ last) (hlen : last < chain.blocks.length) :
    Triple (fun s => s.contents = c) (self.indexRange env it fuel first last)
      (fun _ s => self.IndexedTo env.services chain db₀ p first last awaited s.contents)
      (fun _ _ => self.ChunkFailure env fuel chain first last) := by
  refine (indexRange_serves hserves hlen).consequence (fun _ h => h) ?_ fun _ _ h => h
  rintro - s ⟨c', hrecorded, hs⟩
  rw [hs]
  have hmove := (hwindow.record (Nat.le_succ_of_le hle) hrecorded).move awaited
  refine ⟨⟨hmove.lower_le, hmove.present, hmove.hashes, hmove.pending, hmove.db⟩, ?_, rfl,
    hrecorded.extractable⟩
  have hlatest := hrecorded.latest
  rw [if_pos hle] at hlatest
  rw [← hlatest, Contents.latest_moved]

lemma IndexedTo.append {first mid last : Nat} {services : Services}
    {c' : Contents} (h : self.IndexedTo services chain db₀ p first mid awaited c) (hle : mid ≤ last)
    (h' : self.IndexedTo services chain db₀ (Contents.cut p (mid + 1) awaited) (mid + 1) last
      awaited c') :
    self.IndexedTo services chain db₀ p first last awaited c' := by
  refine ⟨?_, h'.latest, h'.moved, fun n b hb hfirst hlast => ?_⟩
  · rw [← Contents.cut_cut (Nat.succ_le_succ hle)]
    exact h'.indexes
  · rcases Nat.lt_or_ge mid n with hlt | hge
    · exact h'.extractable n b hb hlt hlast
    · exact h.extractable n b hb hfirst hge

/-- Chunks that are not empty follow each other from the first block to the update block. -/
theorem syncLoop_chunks {P : Nat → IndexerState → Prop} {E : Prop} {m : Nat} (hm : 0 < m)
    (hu : u ≤ u64Max) (hoverflow : u64Max < u + m → E)
    (hchunk : ∀ first last, first ≤ last → last ≤ u → last < first + m →
      Triple (P first) (self.indexRange env it fuel first last) (fun _ => P (last + 1))
        (fun _ _ => E))
    (chunks : Nat) {first : Nat} (hle : first ≤ u) (hchunks : u < first + chunks) :
    Triple (P first) (self.syncLoop env it fuel u m chunks first) (fun _ => P (u + 1))
      (fun _ _ => E) := by
  induction chunks generalizing first with
  | zero => omega
  | succ chunks ih =>
    unfold syncLoop
    rw [if_pos hle]
    refine Triple.bind ((checkedAdd_spec first m).mono_error fun _ _ h => hoverflow (by omega))
      fun bound => Triple.of_fact ?_
    rintro rfl
    refine Triple.bind (checkedSub_spec (by omega)) fun chunkEnd => Triple.of_fact ?_
    rintro rfl
    have hto : first ≤ min (first + m - 1) u := by omega
    have htou : min (first + m - 1) u ≤ u := Nat.min_le_right _ _
    have hsize : min (first + m - 1) u < first + m := by omega
    generalize min (first + m - 1) u = currentTo at hto htou hsize
    refine Triple.bind (hchunk first currentTo hto htou hsize) fun _ => ?_
    refine Triple.ite (fun heq => ?_) fun hne => ?_
    · rw [heq]
      exact Triple.pure fun _ hs => hs
    · have hlt : currentTo < u := Nat.lt_of_le_of_ne htou hne
      refine Triple.bind ((checkedAdd_spec currentTo 1).mono_error fun _ _ h => by omega)
        fun next => Triple.of_fact ?_
      rintro rfl
      exact ih hlt (by omega)

/-- What the first range leaves, and every further range leaves again, the loop leaves. -/
theorem syncLoop_ranges {Q : Nat → Contents → Prop} {E : Prop} {m first : Nat} (hm : 0 < m)
    (hu : u ≤ u64Max) (hoverflow : u64Max < u + m → E)
    (hfirst : ∀ last, first ≤ last → last ≤ u → last < first + m →
      Triple (fun s => s.contents = c) (self.indexRange env it fuel first last)
        (fun _ s => Q last s.contents) (fun _ _ => E))
    (hnext : ∀ c' mid last, Q mid c' → first ≤ mid → mid < last → last ≤ u → last ≤ mid + m →
      Triple (fun s => s.contents = c') (self.indexRange env it fuel (mid + 1) last)
        (fun _ s => Q last s.contents) (fun _ _ => E))
    (chunks : Nat) (hle : first ≤ u) (hchunks : u < first + chunks) :
    Triple (fun s => s.contents = c) (self.syncLoop env it fuel u m chunks first)
      (fun _ s => Q u s.contents) (fun _ _ => E) := by
  refine (syncLoop_chunks (P := fun next s => next = first ∧ s.contents = c ∨
    ∃ mid, next = mid + 1 ∧ first ≤ mid ∧ Q mid s.contents) hm hu hoverflow ?_ chunks hle
      hchunks).consequence (fun _ hs => Or.inl ⟨rfl, hs⟩) ?_ fun _ _ h => h
  · rintro next last hnextle hlast hsize s (⟨rfl, hs⟩ | ⟨mid, rfl, hmid, hs⟩)
    · exact (hfirst last hnextle hlast hsize).consequence (fun _ h => h)
        (fun _ _ h => Or.inr ⟨last, rfl, hnextle, h⟩) (fun _ _ h => h) s hs
    · exact (hnext s.contents mid last hs hmid hnextle hlast (by omega)).consequence
        (fun _ h => h) (fun _ _ h => Or.inr ⟨last, rfl, by omega, h⟩) (fun _ _ h => h) s rfl
  · rintro - s (⟨hnext, -⟩ | ⟨mid, hmid, -, hs⟩)
    · omega
    · rw [Nat.succ.inj hmid]
      exact hs

/-- The chunk loop, when the chunks are not empty and their bounds do not overflow. -/
theorem syncLoop_spec (hserves : ∀ t, (env.node t).Serves chain self.awaitTag awaited)
    (hlen : u < chain.blocks.length) {m : Nat} (hm : 0 < m) (chunks : Nat) {first : Nat}
    (hwindow : c.Indexes chain self env.services db₀ p first) (hle : first ≤ u)
    (hchunks : u < first + chunks) :
    Triple (fun s => s.contents = c) (self.syncLoop env it fuel u m chunks first)
      (fun _ s => self.IndexedTo env.services chain db₀ p first u awaited s.contents)
      (fun _ _ => u64Max < u + m ∨ self.ChunkFailure env fuel chain first u) := by
  refine syncLoop_ranges (Q := fun last c' =>
    self.IndexedTo env.services chain db₀ p first last awaited c') hm
    (Nat.le_of_succ_le (succ_le_u64Max hlen)) Or.inl ?_ ?_ chunks hle hchunks
  · intro last hto hlast _
    exact (indexRange_spec hserves hwindow hto (Nat.lt_of_le_of_lt hlast hlen)).mono_error
      fun _ _ h => Or.inr (h.mono (Nat.le_refl _) hlast)
  · intro c' mid last hc' hmid hto hlast _
    exact (indexRange_spec hserves hc'.indexes hto (Nat.lt_of_le_of_lt hlast hlen)).consequence
      (fun _ h => h) (fun _ _ h => hc'.append (Nat.le_of_lt hto) h)
      fun _ _ h => Or.inr (h.mono (Nat.le_succ_of_le hmid) hlast)

/-- With empty chunks the loop does not return, unless there is nothing to index. -/
lemma syncLoop_zero_spec (chunks first : Nat) :
    Triple (fun _ => True) (self.syncLoop env it fuel u 0 chunks first) (fun _ _ => u < first)
      (fun _ _ => True) := by
  induction chunks generalizing first with
  | zero => exact Triple.throw fun _ _ => trivial
  | succ chunks ih =>
    unfold syncLoop
    refine Triple.ite (fun hle => ?_) fun hgt => Triple.pure fun _ _ => Nat.lt_of_not_le hgt
    refine Triple.bind ((checkedAdd_spec first 0).mono_error fun _ _ _ => trivial)
      fun bound => Triple.of_fact fun hbound => ?_
    rw [hbound, Nat.add_zero]
    cases first with
    | zero => exact Triple.throw fun _ _ => trivial
    | succ first =>
      refine Triple.bind (checkedSub_spec (Nat.succ_pos first))
        fun chunkEnd => Triple.of_fact fun hchunkEnd => ?_
      have hto : min chunkEnd u = first := by omega
      rw [hto]
      refine Triple.bind (Triple.trivial _) fun _ => ?_
      refine Triple.ite (fun heq => absurd heq (by omega)) fun _ => ?_
      refine Triple.bind ((checkedAdd_spec first 1).mono_error fun _ _ _ => trivial)
        fun next => Triple.of_fact ?_
      rintro rfl
      exact ih (first + 1)

/-! ### The call -/

structure SyncOutcome (indexer : Indexer) (services : Services) (chain : Chain blockOf)
    (db₀ : OrderedTree Address (List AssertionState)) (p u awaited : Nat) (b : Block)
    (c c' : Contents) (start : Nat) : Prop where
  startsAt : ∃ rolledBack, StartsAt chain c u b start rolledBack ∧
    (u < start → c' = rolledBack)
  indexed : start ≤ u → indexer.IndexedTo services chain db₀ p start u awaited c'

inductive SyncFailure (self : Indexer) (env : Env) (fuel m : Nat) (chain : Chain blockOf)
    (c : Contents) (u : Nat) (b : Block) : Prop
  | start (h : StartFailure env fuel chain c u)
  | chunkSize (h : m = 0 ∨ u64Max < u + m)
  | chunk (start : Nat) (rolledBack : Contents) (hstart : StartsAt chain c u b start rolledBack)
      (h : self.ChunkFailure env fuel chain start u)

/-- A call from contents that, once rolled back, mirror a window of the served chain. -/
theorem sync_spec (it : Iteration) (fuel : Nat)
    (hserves : ∀ t, (env.node t).Serves chain self.awaitTag awaited)
    (hb : chain.blocks[u]? = some b) (m : Nat)
    (hwindow : ∀ start c', StartsAt chain c u b start c' →
      c'.Indexes chain self env.services db₀ p start) :
    Triple (fun s => s.contents = c) (self.sync env it fuel b.updateBlock m)
      (fun _ s => ∃ start,
        self.SyncOutcome env.services chain db₀ p u awaited b c s.contents start)
      (fun _ _ => self.SyncFailure env fuel m chain c u b) := by
  refine Triple.bind ((syncStart_spec hserves hb).mono_error fun _ _ h => .start h.1)
    fun start s hs => ?_
  have hnumber : b.updateBlock.blockNumber = u := chain.numbered u b hb
  rw [hnumber]
  rcases Nat.lt_or_ge u start with hgt | hle
  · unfold syncLoop
    rw [if_neg (Nat.not_le.mpr hgt)]
    exact ⟨start, ⟨s.contents, hs, fun _ => rfl⟩, fun h => absurd h (Nat.not_le.mpr hgt)⟩
  · rcases Nat.eq_zero_or_pos m with rfl | hm
    · refine ((syncLoop_zero_spec _ start).consequence (fun _ h => h)
        (fun _ _ h => absurd h (Nat.not_lt.mpr hle)) fun _ _ _ => .chunkSize (Or.inl rfl)) s trivial
    · refine ((syncLoop_spec hserves (List.getElem?_eq_some_iff.mp hb).1 hm _ (hwindow start _ hs)
        hle (by omega)).consequence (fun _ h => h) ?_ ?_) s rfl
      · intro _ s' h
        exact ⟨start, ⟨s.contents, hs, fun hgt => absurd hgt (Nat.not_lt.mpr hle)⟩, fun _ => h⟩
      · rintro - - (h | h)
        · exact .chunkSize (Or.inr h)
        · exact .chunk start _ hs h

end Indexer

end AssertionExecution
