import AssertionExecution.Proofs.RetriedSync

/-!
# Syncing in chunks

A call indexes its blocks in ranges and moves modifications to the store after each of them.
What a range leaves is described block by block, in a form that is the same for one range
and for several that follow each other.
-/

namespace AssertionExecution

open EffectLogic

lemma flatMap_range_split {α : Type} {f g h : Nat → List α} (mid N : Nat)
    (hbelow : ∀ n, n ≤ mid → n < N → f n = h n ∧ g n = [])
    (habove : ∀ n, mid < n → n < N → f n = [] ∧ g n = h n) :
    (List.range N).flatMap f ++ (List.range N).flatMap g = (List.range N).flatMap h := by
  induction N with
  | zero => rfl
  | succ N ih =>
    have hprefix := ih (fun n hmid hn => hbelow n hmid (Nat.lt_succ_of_lt hn))
      fun n hmid hn => habove n hmid (Nat.lt_succ_of_lt hn)
    simp only [List.range_succ, List.flatMap_append, List.flatMap_singleton]
    rcases Nat.lt_or_ge mid N with hlt | hge
    · obtain ⟨hf, hg⟩ := habove N hlt N.lt_succ_self
      rw [hf, hg, List.append_nil, ← hprefix, List.append_assoc]
    · have hnil : (List.range N).flatMap g = [] := by
        rw [List.flatMap_eq_nil_iff]
        intro n hn
        have hlt := List.mem_range.mp hn
        exact (hbelow n (by omega) (by omega)).2
      obtain ⟨hf, hg⟩ := hbelow N hge N.lt_succ_self
      rw [hnil, List.append_nil] at hprefix
      rw [hf, hg, hnil, hprefix, List.append_nil, List.append_nil]

/-! ### Ranges -/

def TraceEvent.range : TraceEvent → Option (Nat × Nat)
  | .indexingRange first last => some (first, last)
  | .pendingModificationsMoved _ => none

/-- The ranges passed to `index_range`, in order. -/
def rangesOf (trace : List TraceEvent) : List (Nat × Nat) :=
  trace.reverse.filterMap TraceEvent.range

/-- The ranges list the blocks from `first` to `u` in order, at most `m` in each range. -/
structure Partitions (m first u : Nat) (ranges : List (Nat × Nat)) : Prop where
  blocks : (ranges.flatMap fun r => List.range' r.1 (r.2 + 1 - r.1)) =
    List.range' first (u + 1 - first)
  sizes : ∀ r ∈ ranges, r.1 ≤ r.2 ∧ r.2 + 1 - r.1 ≤ m

namespace Partitions

variable {m first last u : Nat} {ranges : List (Nat × Nat)}

lemma nil (h : u < first) : Partitions m first u [] where
  blocks := by
    rw [Nat.sub_eq_zero_of_le h]
    rfl
  sizes := fun r hr => (List.not_mem_nil hr).elim

lemma singleton (hle : first ≤ last) (hsize : last < first + m) :
    Partitions m first last [(first, last)] where
  blocks := List.append_nil _
  sizes := by
    intro r hr
    rw [List.mem_singleton.mp hr]
    dsimp only
    omega

lemma snoc (h : Partitions m first last ranges) (hle : first ≤ last) (hu : last < u)
    (hsize : u ≤ last + m) : Partitions m first u (ranges ++ [(last + 1, u)]) where
  blocks := by
    have hlen : u + 1 - first = (last + 1 - first) + (u + 1 - (last + 1)) := by omega
    have hnext : first + (last + 1 - first) = last + 1 := by omega
    rw [List.flatMap_append, h.blocks, hlen, ← List.range'_append_1, hnext]
    exact congrArg (_ ++ ·) (List.append_nil _)
  sizes := by
    intro r hr
    rcases List.mem_append.mp hr with hr | hr
    · exact h.sizes r hr
    · rw [List.mem_singleton.mp hr]
      dsimp only
      omega

end Partitions

/-! ### What a range leaves -/

namespace Contents

variable {blockOf : B256 → Option Block}

/-- No modifications wait under hashes above a block that a move would take. -/
def ClearAbove (first awaited : Nat) (c : Contents) : Prop :=
  ∀ n, first < n → n ≤ awaited → c.due n = []

/-- The blocks from `first` to `last` have been recorded and everything up to the awaited block
has been moved to the store. -/
structure Advanced (chain : Chain blockOf) (indexer : Indexer) (services : Services)
    (awaited first last : Nat) (c c' : Contents) : Prop where
  hashes : ∀ n, c'.hashes.get n =
    if awaited ≠ 0 ∧ n ≤ awaited then none
    else if first ≤ n ∧ n ≤ last then (chain.blocks[n]?).map (·.header.hash) else c.hashes.get n
  pending : ∀ n, c'.pending.get n =
    if awaited ≠ 0 ∧ n ≤ awaited ∧ (first ≤ n ∧ n ≤ last ∨ (c.hashes.get n).isSome) then none
    else (if first ≤ n ∧ n ≤ last then chain.pendingEntry indexer services n else none).or
      (c.pending.get n)
  latest : c'.latest = (chain.blocks[last]?).map fun b => ⟨last, b.header.hash⟩
  db : c'.db = if awaited = 0 then c.db else
    AssertionStore.applyAll c.db ((List.range (awaited + 1)).flatMap fun n =>
      if first ≤ n ∧ n ≤ last then
        ((chain.pendingEntry indexer services n).or (c.pending.get n)).getD []
      else c.due n)

variable {chain : Chain blockOf} {self : Indexer} {services : Services}
  {awaited first mid last : Nat} {c c' c'' : Contents}

lemma Recorded.isSome_hashes (h : c.Recorded chain self services first last c') (n : Nat) :
    (c'.hashes.get n).isSome ↔ first ≤ n ∧ n ≤ last ∨ (c.hashes.get n).isSome := by
  rw [h.hashes]
  by_cases hn : first ≤ n ∧ n ≤ last
  · rw [if_pos hn, List.getElem?_eq_getElem (h.present n hn.1 hn.2)]
    simp [hn]
  · rw [if_neg hn]
    simp [hn]

lemma Recorded.due (h : c.Recorded chain self services first last c') (n : Nat) :
    c'.due n = if first ≤ n ∧ n ≤ last then
      ((chain.pendingEntry self services n).or (c.pending.get n)).getD [] else c.due n := by
  unfold Contents.due
  rw [if_congr (h.isSome_hashes n) rfl rfl, h.pending]
  by_cases hn : first ≤ n ∧ n ≤ last
  · rw [if_pos (Or.inl hn), if_pos hn, if_pos hn]
  · simp only [hn, false_or, if_false, Option.none_or]

lemma Recorded.advanced (h : c.Recorded chain self services first last c') (hle : first ≤ last) :
    c.Advanced chain self services awaited first last (c'.moved awaited) := by
  have hlatest := h.latest
  rw [if_pos hle] at hlatest
  refine ⟨fun n => ?_, fun n => ?_, ?_, ?_⟩
  · rw [get_hashes_moved, h.hashes]
  · rw [get_pending_moved, h.pending, if_congr (and_congr_right fun _ =>
      and_congr_right fun _ => h.isSome_hashes n) rfl rfl]
  · rw [latest_moved, hlatest]
  · rw [db_moved, h.db]
    congr 3
    funext n
    exact h.due n

namespace Advanced

lemma due_of_le (h : c.Advanced chain self services awaited first last c') (hzero : awaited ≠ 0)
    {n : Nat} (hn : n ≤ awaited) : c'.due n = [] := by
  have hgone : c'.hashes.get n = none := by rw [h.hashes, if_pos ⟨hzero, hn⟩]
  unfold Contents.due
  rw [hgone]
  rfl

section Append

variable (h : c.Advanced chain self services awaited first mid c') (hfirst : first ≤ mid)

include h hfirst

lemma append_due (hclear : c.ClearAbove first awaited) (hzero : awaited ≠ 0) {n : Nat}
    (hmid : mid < n) (hn : n < awaited + 1) :
    (if mid + 1 ≤ n ∧ n ≤ last then
        ((chain.pendingEntry self services n).or (c'.pending.get n)).getD []
      else c'.due n) =
      if first ≤ n ∧ n ≤ last then
        ((chain.pendingEntry self services n).or (c.pending.get n)).getD []
      else c.due n := by
  have hdue := hclear n (Nat.lt_of_le_of_lt hfirst hmid) (Nat.le_of_lt_succ hn)
  by_cases hlt : n ≤ last
  · rw [if_pos ⟨hmid, hlt⟩, if_pos (by omega), h.pending]
    have hbefore : ¬(first ≤ n ∧ n ≤ mid) := by omega
    rw [if_neg hbefore, Option.none_or]
    by_cases hstale : (c.hashes.get n).isSome
    · rw [due, if_pos hstale] at hdue
      rw [if_pos ⟨hzero, Nat.le_of_lt_succ hn, Or.inr hstale⟩, Option.or_none]
      cases chain.pendingEntry self services n with
      | none => exact hdue.symm
      | some ms => rfl
    · rw [if_neg]
      rintro ⟨-, -, hn' | hn'⟩
      · exact hbefore hn'
      · exact hstale hn'
  · rw [if_neg (by omega), if_neg (by omega), hdue]
    exact h.due_of_le hzero (Nat.le_of_lt_succ hn)

variable (h' : c'.Advanced chain self services awaited (mid + 1) last c'') (hlast : mid ≤ last)

include h' hlast

lemma append_hashes (n : Nat) : c''.hashes.get n =
    if awaited ≠ 0 ∧ n ≤ awaited then none
    else if first ≤ n ∧ n ≤ last then (chain.blocks[n]?).map (·.header.hash)
    else c.hashes.get n := by
  rw [h'.hashes, h.hashes]
  by_cases hmoved : awaited ≠ 0 ∧ n ≤ awaited
  · rw [if_pos hmoved, if_pos hmoved]
  rw [if_neg hmoved, if_neg hmoved, if_neg hmoved]
  by_cases hnext : mid + 1 ≤ n ∧ n ≤ last
  · rw [if_pos hnext, if_pos (by omega)]
  · rw [if_neg hnext]
    exact if_congr (by omega) rfl rfl

lemma append_pending (n : Nat) : c''.pending.get n =
    if awaited ≠ 0 ∧ n ≤ awaited ∧ (first ≤ n ∧ n ≤ last ∨ (c.hashes.get n).isSome) then none
    else (if first ≤ n ∧ n ≤ last then chain.pendingEntry self services n else none).or
      (c.pending.get n) := by
  by_cases hnext : mid + 1 ≤ n ∧ n ≤ last
  · have hin : first ≤ n ∧ n ≤ last := by omega
    have hbefore : ¬(first ≤ n ∧ n ≤ mid) := by omega
    rw [h'.pending, h.pending]
    by_cases hmoved : awaited ≠ 0 ∧ n ≤ awaited
    · rw [if_pos ⟨hmoved.1, hmoved.2, Or.inl hnext⟩, if_pos ⟨hmoved.1, hmoved.2, Or.inl hin⟩]
    · have hnot : ∀ p : Prop, ¬(awaited ≠ 0 ∧ n ≤ awaited ∧ p) :=
        fun p hn => hmoved ⟨hn.1, hn.2.1⟩
      simp only [if_neg (hnot _)]
      rw [if_pos hnext, if_neg hbefore, if_pos hin, Option.none_or]
  · -- The second range leaves the entry alone: a hash that is due is gone already.
    have hsame : (first ≤ n ∧ n ≤ mid) ↔ (first ≤ n ∧ n ≤ last) := by omega
    have hkept : c''.pending.get n = c'.pending.get n := by
      rw [h'.pending, if_neg hnext, Option.none_or, if_neg]
      rintro ⟨hzero, hn, hn' | hn'⟩
      · exact hnext hn'
      · rw [h.hashes, if_pos ⟨hzero, hn⟩] at hn'
        cases hn'
    rw [hkept, h.pending]
    simp only [hsame]

/-- Two ranges that follow each other amount to one. -/
theorem append (hclear : c.ClearAbove first awaited) :
    c.Advanced chain self services awaited first last c'' := by
  refine ⟨append_hashes h hfirst h' hlast, append_pending h hfirst h' hlast, h'.latest, ?_⟩
  rw [h'.db, h.db]
  by_cases hzero : awaited = 0
  · simp only [if_pos hzero]
  simp only [if_neg hzero]
  rw [← AssertionStore.applyAll_append]
  congr 1
  refine flatMap_range_split mid _ (fun n hn hle => ⟨?_, ?_⟩) fun n hmid hn => ⟨?_, ?_⟩
  · exact if_congr (by omega) rfl rfl
  · rw [if_neg (by omega)]
    exact h.due_of_le hzero (Nat.le_of_lt_succ hle)
  · rw [if_neg (by omega)]
    exact hclear n (Nat.lt_of_le_of_lt hfirst hmid) (Nat.le_of_lt_succ hn)
  · exact append_due h hfirst hclear hzero hmid hn

end Append

lemma unique (h : c.Advanced chain self services awaited first last c')
    (h' : c.Advanced chain self services awaited first last c'') :
    c'.hashes = c''.hashes ∧ c'.pending = c''.pending ∧ c'.latest = c''.latest ∧ c'.db = c''.db :=
  ⟨OrderedTree.ext_get fun n => (h.hashes n).trans (h'.hashes n).symm,
    OrderedTree.ext_get fun n => (h.pending n).trans (h'.pending n).symm,
    h.latest.trans h'.latest.symm, h.db.trans h'.db.symm⟩

end Advanced

end Contents

/-! ### The chunk loop -/

namespace Indexer

section Chunks

variable {self : Indexer} {env : Env} {it : Iteration} {fuel m u : Nat} {s s₀ : IndexerState}
  {blockOf : B256 → Option Block} {chain : Chain blockOf} {awaited first last start : Nat}
  {c : Contents} {b : Block}

/-- The node serves one chain with one awaited block, and nothing fails from a block on. -/
structure Unfailing (indexer : Indexer) (env : Env) (chain : Chain blockOf)
    (awaited fuel first u : Nat) : Prop where
  serves : ∀ t, (env.node t).Serves chain indexer.awaitTag awaited
  calm : ¬env.Disturbed
  fuel : fuel ≠ 0
  extractable : ∀ n b, chain.blocks[n]? = some b → first ≤ n → n ≤ u →
    indexer.Extractable env.services b

def AdvancedInRanges (indexer : Indexer) (services : Services) (chain : Chain blockOf)
    (awaited m first u : Nat) (c c' : Contents) : Prop :=
  c.Advanced chain indexer services awaited first u c' ∧
    ∃ ranges, rangesOf c'.trace = rangesOf c.trace ++ ranges ∧ Partitions m first u ranges

lemma indexRange_advances (hunfailing : self.Unfailing env chain awaited fuel first u)
    (hlen : u < chain.blocks.length) (hle : first ≤ last) (hlast : last ≤ u) :
    Triple (fun s => s.contents = c) (self.indexRange env it fuel first last)
      (fun _ s => c.Advanced chain self env.services awaited first last s.contents ∧
        rangesOf s.contents.trace = rangesOf c.trace ++ [(first, last)])
      (fun _ _ => False) := by
  refine (indexRange_serves hunfailing.serves (Nat.lt_of_le_of_lt hlast hlen)).consequence
    (fun _ h => h) ?_ ?_
  · rintro - s ⟨c', hrecorded, hs⟩
    rw [hs]
    refine ⟨hrecorded.advanced hle, ?_⟩
    simp [rangesOf, Contents.moved, hrecorded.trace, TraceEvent.range]
  · rintro - - h
    cases h with
    | disturbed h => exact hunfailing.calm h
    | outOfFuel h => exact hunfailing.fuel h
    | unextractable n b hb hn hn' h =>
      exact h (hunfailing.extractable n b hb hn (Nat.le_trans hn' hlast))

/-- The chunk loop terminates and leaves what one range would. -/
theorem syncLoop_advances (it : Iteration)
    (hunfailing : self.Unfailing env chain awaited fuel first u)
    (hlen : u < chain.blocks.length) (hm : 0 < m) (hbound : u + m ≤ u64Max) (chunks : Nat)
    (hclear : c.ClearAbove first awaited) (hle : first ≤ u) (hchunks : u < first + chunks) :
    Triple (fun s => s.contents = c) (self.syncLoop env it fuel u m chunks first)
      (fun _ s => self.AdvancedInRanges env.services chain awaited m first u c s.contents)
      (fun _ _ => False) := by
  refine syncLoop_ranges (Q := fun last c' =>
    self.AdvancedInRanges env.services chain awaited m first last c c') hm
    (by omega) (fun h => by omega) ?_ ?_ chunks hle hchunks
  · intro last hto hlast hsize
    refine (indexRange_advances hunfailing hlen hto hlast).consequence (fun _ h => h) ?_
      fun _ _ h => h
    rintro - s ⟨hadvanced, hranges⟩
    exact ⟨hadvanced, _, hranges, Partitions.singleton hto hsize⟩
  · rintro c' mid last ⟨hadvanced, ranges, hranges, hpartitions⟩ hmid hto hlast hsize
    have hrest : self.Unfailing env chain awaited fuel (mid + 1) u :=
      ⟨hunfailing.serves, hunfailing.calm, hunfailing.fuel,
        fun n b hb hn => hunfailing.extractable n b hb (by omega)⟩
    refine (indexRange_advances hrest hlen hto hlast).consequence (fun _ h => h) ?_ fun _ _ h => h
    rintro - s ⟨hadvanced', hranges'⟩
    refine ⟨hadvanced.append hmid hadvanced' (Nat.le_of_lt hto) hclear, _, ?_,
      hpartitions.snoc hmid hto hsize⟩
    rw [hranges', hranges, List.append_assoc]

/-! ### The call -/

lemma trace_of_startsAt {c' : Contents} (h : StartsAt chain c u b start c') :
    c'.trace = c.trace := by
  cases h <;> rfl

/-- Trees without hashes above the last indexed block are clear once a call has found out where to
start. -/
lemma clearAbove_of_startsAt {c' : Contents} (h : StartsAt chain c u b start c')
    (hbounded : ∀ n, (c.trees.hashes.get n).isSome → n < c.trees.next) (awaited : Nat) :
    c'.ClearAbove start awaited := by
  intro n hn _
  have hgone : c'.hashes.get n = none := by
    by_contra hsome
    rw [← ne_eq, ← Option.isSome_iff_ne_none] at hsome
    cases h with
    | fresh hlatest =>
      have hlt := hbounded n hsome
      simp only [Contents.trees, Trees.next, hlatest] at hlt
      omega
    | continues lastIndexed b' hlatest hle hb' hhash =>
      have hlt := hbounded n hsome
      simp only [Contents.trees, Trees.next, hlatest] at hlt
      omega
    | rollsBack lastIndexed b' r hlatest hle hb' hhash hr hknows habove =>
      simp only [Contents.prune, OrderedTree.get_restrict] at hsome
      rw [if_neg (by simp; omega)] at hsome
      cases hsome
  unfold Contents.due
  rw [hgone]
  rfl

lemma sync_advances (it : Iteration) (hb : chain.blocks[u]? = some b)
    (hstart : exec (syncStart env fuel b.updateBlock) s = (.ok start, s₀))
    (hunfailing : self.Unfailing env chain awaited fuel start u)
    (hclear : s₀.contents.ClearAbove start awaited) (hm : 0 < m) (hbound : u + m ≤ u64Max) :
    ∃ s', exec (self.sync env it fuel b.updateBlock m) s = (.ok (), s') ∧
      (u < start → s'.contents = s₀.contents) ∧
      (start ≤ u → s₀.contents.Advanced chain self env.services awaited start u s'.contents) ∧
      ∃ ranges, rangesOf s'.trace = rangesOf s₀.trace ++ ranges ∧ Partitions m start u ranges := by
  rw [exec_sync_of_syncStart it m hstart, chain.numbered u b hb]
  rcases Nat.lt_or_ge u start with hgt | hle
  · refine ⟨s₀, ?_, fun _ => rfl, fun hle => absurd hle (Nat.not_le.mpr hgt), [],
      (List.append_nil _).symm, Partitions.nil hgt⟩
    unfold syncLoop
    rw [if_neg (Nat.not_le.mpr hgt)]
    rfl
  · have hlen := (List.getElem?_eq_some_iff.mp hb).1
    obtain ⟨_, s', hrun, hadvanced, hranges⟩ := (syncLoop_advances it hunfailing hlen hm hbound
      (u + 1 - start + 1) hclear hle (by omega)).exists_ok rfl fun _ _ h => h
    exact ⟨s', hrun, fun hgt => absurd hgt (Nat.not_lt.mpr hle), fun _ => hadvanced, hranges⟩

/-- Nothing fails in a call: the node serves one chain with one awaited block, the call reports no
error about where to start, and the logs of the blocks that it indexes extract. -/
structure FailureFree (indexer : Indexer) (env : Env) (chain : Chain blockOf)
    (awaited fuel u : Nat) (b : Block) (s : IndexerState) : Prop where
  serves : ∀ t, (env.node t).Serves chain indexer.awaitTag awaited
  calm : ¬env.Disturbed
  fueled : u < fuel
  starts : ∀ e, (exec (syncStart env fuel b.updateBlock) s).1 ≠ .error (.error e)
  extractable : ∀ start s₀, exec (syncStart env fuel b.updateBlock) s = (.ok start, s₀) →
    ∀ n b, chain.blocks[n]? = some b → start ≤ n → n ≤ u → indexer.Extractable env.services b

/-- A call that reports no error finds out where to start. -/
lemma FailureFree.exists_start (h : self.FailureFree env chain awaited fuel u b s)
    (hb : chain.blocks[u]? = some b) :
    ∃ start s₀, exec (syncStart env fuel b.updateBlock) s = (.ok start, s₀) := by
  rcases hexec : exec (syncStart env fuel b.updateBlock) s with ⟨f | start, s₀⟩
  · obtain ⟨-, hfails⟩ := (syncStart_spec h.serves hb).error rfl hexec
    rcases hfails with hdisturbed | hfuel | ⟨e, rfl⟩
    · exact absurd hdisturbed h.calm
    · exact absurd h.fueled (Nat.not_lt.mpr hfuel)
    · exact absurd (congrArg Prod.fst hexec) (h.starts e)
  · exact ⟨start, s₀, rfl⟩

lemma FailureFree.unfailing (h : self.FailureFree env chain awaited fuel u b s)
    (hstart : exec (syncStart env fuel b.updateBlock) s = (.ok start, s₀)) :
    self.Unfailing env chain awaited fuel start u :=
  ⟨h.serves, h.calm, Nat.ne_of_gt (Nat.lt_of_le_of_lt (Nat.zero_le u) h.fueled),
    h.extractable start s₀ hstart⟩

/-- Two calls that differ in the chunk size terminate and leave the same trees and store. Each
passes to `index_range` a partition of the blocks it indexes. -/
theorem chunked_sync_agrees (it₁ it₂ : Iteration) (m₁ m₂ : Nat) (hb : chain.blocks[u]? = some b)
    (hfree : self.FailureFree env chain awaited fuel u b s)
    (hclear : ∀ start s₀, exec (syncStart env fuel b.updateBlock) s = (.ok start, s₀) →
      s₀.contents.ClearAbove start awaited)
    (hm₁ : 0 < m₁) (hbound₁ : u + m₁ ≤ u64Max) (hm₂ : 0 < m₂) (hbound₂ : u + m₂ ≤ u64Max) :
    ∃ start s₀ s₁ s₂, exec (syncStart env fuel b.updateBlock) s = (.ok start, s₀) ∧
      exec (self.sync env it₁ fuel b.updateBlock m₁) s = (.ok (), s₁) ∧
      exec (self.sync env it₂ fuel b.updateBlock m₂) s = (.ok (), s₂) ∧
      s₁.blockHashTree = s₂.blockHashTree ∧
      s₁.pendingModificationsTree = s₂.pendingModificationsTree ∧
      s₁.latestBlockTree = s₂.latestBlockTree ∧ s₁.store.db = s₂.store.db ∧
      (∃ ranges, rangesOf s₁.trace = rangesOf s.trace ++ ranges ∧ Partitions m₁ start u ranges) ∧
      ∃ ranges, rangesOf s₂.trace = rangesOf s.trace ++ ranges ∧
        Partitions m₂ start u ranges := by
  obtain ⟨start, s₀, hstart⟩ := hfree.exists_start hb
  have hunfailing := hfree.unfailing hstart
  obtain ⟨s₁, hrun₁, hsame₁, hadvanced₁, hranges₁⟩ :=
    sync_advances it₁ hb hstart hunfailing (hclear start s₀ hstart) hm₁ hbound₁
  obtain ⟨s₂, hrun₂, hsame₂, hadvanced₂, hranges₂⟩ :=
    sync_advances it₂ hb hstart hunfailing (hclear start s₀ hstart) hm₂ hbound₂
  have hstartsAt : StartsAt chain s.contents u b start s₀.contents :=
    (syncStart_spec hunfailing.serves hb).ok rfl hstart
  have htrace : s₀.trace = s.trace := trace_of_startsAt hstartsAt
  rw [htrace] at hranges₁ hranges₂
  have hagree : s₁.contents.hashes = s₂.contents.hashes ∧
      s₁.contents.pending = s₂.contents.pending ∧ s₁.contents.latest = s₂.contents.latest ∧
      s₁.contents.db = s₂.contents.db := by
    rcases Nat.lt_or_ge u start with hgt | hle
    · rw [hsame₁ hgt, hsame₂ hgt]
      exact ⟨rfl, rfl, rfl, rfl⟩
    · exact (hadvanced₁ hle).unique (hadvanced₂ hle)
  obtain ⟨hhashes, hpending, hlatest, hdb⟩ := hagree
  exact ⟨start, s₀, s₁, s₂, hstart, hrun₁, hrun₂, hhashes, hpending, hlatest, hdb, hranges₁,
    hranges₂⟩

end Chunks

open Sample

lemma extractable_of_sample {b : Block} (hb : b ∈ thirdChain.blocks) :
    indexer.Extractable services b := by
  simp only [thirdChain, secondChain, removalChain, genesisChain, Chain.extend, Chain.ofGenesis,
    List.cons_append, List.nil_append, List.mem_cons, List.not_mem_nil, or_false] at hb
  rcases hb with rfl | rfl | rfl | rfl <;> intro l hl _
  · cases hl
  · cases List.mem_singleton.mp hl
    exact ⟨_, rfl⟩
  · cases List.mem_singleton.mp hl
    exact ⟨_, rfl⟩
  · cases List.mem_singleton.mp hl
    exact ⟨_, rfl⟩

lemma failureFree_of_sample {awaited u start : Nat} {b : Block} {s s₀ : IndexerState}
    (hawaited : awaited < 4) (hu : u < 5)
    (hstart : exec (syncStart (env thirdChain awaited fun _ => false) 5 b.updateBlock) s =
      (.ok start, s₀)) :
    indexer.FailureFree (env thirdChain awaited fun _ => false) thirdChain awaited 5 u b s where
  serves _ := Chain.node_serves _ _ hawaited
  calm := Env.not_disturbed (fun _ => rfl) fun _ => rfl
  fueled := hu
  starts e h := by
    rw [hstart] at h
    cases h
  extractable _ _ _ n b hb _ _ := extractable_of_sample (List.mem_of_getElem? hb)

/-- Four blocks in ranges of two and of three blocks, while block 1 is awaited. -/
theorem chunked_sync_agrees_four :
    ∃ s₁ s₂, exec (indexer.sync (env thirdChain 1 fun _ => false) .buckets 5 thirdBlock.updateBlock
        2) initial = (.ok (), s₁) ∧
      exec (indexer.sync (env thirdChain 1 fun _ => false) .buckets 5 thirdBlock.updateBlock 3)
        initial = (.ok (), s₂) ∧
      s₁.pendingModificationsTree = s₂.pendingModificationsTree ∧ s₁.store.db = s₂.store.db := by
  have hstart : exec (syncStart (env thirdChain 1 fun _ => false) 5 thirdBlock.updateBlock)
    initial = (.ok 0, { initial with steps := 1 }) := rfl
  have hclear : ∀ start s₀, exec (syncStart (env thirdChain 1 fun _ => false) 5
      thirdBlock.updateBlock) initial = (.ok start, s₀) → s₀.contents.ClearAbove start 1 := by
    intro start s₀ h
    cases hstart.symm.trans h
    have hstartsAt : StartsAt thirdChain initial.contents 3 thirdBlock 0 initial.contents :=
      .fresh rfl
    exact clearAbove_of_startsAt hstartsAt (fun n hn => by cases hn) 1
  obtain ⟨-, -, s₁, s₂, -, hrun₁, hrun₂, -, hpending, -, hdb, -⟩ := chunked_sync_agrees .buckets
    .buckets 2 3 (u := 3) rfl (failureFree_of_sample (by decide) (by decide) hstart) hclear
    (by decide) (by decide) (by decide) (by decide)
  exact ⟨s₁, s₂, hrun₁, hrun₂, hpending, hdb⟩

/-- A new indexer, but with the hash of a block 1 and an addition that is pending for it. -/
def staleAhead : IndexerState :=
  { initial with
    blockHashTree := OrderedTree.empty.insert 1 99
    pendingModificationsTree :=
      OrderedTree.empty.insert 1 [.add 6 ⟨9, [], 0, ∅, {}⟩ .default 5 0] }

/-- A chunk of one block moves the stale addition to the store, a chunk of two overwrites it. -/
theorem stale_addition_moved :
    ¬∀ (self : Indexer) (blockOf : B256 → Option Block) (chain : Chain blockOf) (env : Env)
      (it : Iteration) (awaited fuel u m₁ m₂ : Nat) (b : Block) (s : IndexerState),
      chain.blocks[u]? = some b → self.FailureFree env chain awaited fuel u b s →
      0 < m₁ → u + m₁ ≤ u64Max → 0 < m₂ → u + m₂ ≤ u64Max →
      (exec (self.sync env it fuel b.updateBlock m₁) s).2.store.db =
        (exec (self.sync env it fuel b.updateBlock m₂) s).2.store.db := by
  intro h
  have hstart : exec (syncStart (env thirdChain 1 fun _ => false) 5 removalBlock.updateBlock)
    staleAhead = (.ok 0, { staleAhead with steps := 1 }) := rfl
  have heq := h indexer blockOf thirdChain (env thirdChain 1 fun _ => false) .buckets 1 5 1 1 2
    removalBlock staleAhead rfl (failureFree_of_sample (by decide) (by decide) hstart) (by decide)
    (by decide) (by decide) (by decide)
  have hget := congrArg (fun db => (db.get 6).map List.length) heq
  exact absurd hget (by decide +kernel)

end Indexer

end AssertionExecution
