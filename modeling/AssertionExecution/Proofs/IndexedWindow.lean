import AssertionExecution.Proofs.IndexRange
import AssertionExecution.Proofs.ReorgDetection

/-!
# Windows of indexed blocks

Between calls the trees mirror a window of blocks: below it everything has been applied to
the store, above it nothing is known. Recording a range extends the window at its upper
end, a rollback cuts it there, and moving modifications advances its lower end.
-/

namespace AssertionExecution

open EffectLogic

namespace Contents

/-- The trees hold exactly the blocks `p ≤ n < k` of the chain, and the blocks below `p` have
been applied to the store content `db₀`. -/
structure Indexes {blockOf : B256 → Option Block} (chain : Chain blockOf) (indexer : Indexer)
    (services : Services) (db₀ : OrderedTree Address (List AssertionState)) (p k : Nat)
    (c : Contents) : Prop where
  lower_le : p ≤ k
  present : k ≤ chain.blocks.length
  hashes : ∀ n, c.hashes.get n =
    if p ≤ n ∧ n < k then (chain.blocks[n]?).map (·.header.hash) else none
  pending : ∀ n, c.pending.get n =
    if p ≤ n ∧ n < k then chain.pendingEntry indexer services n else none
  db : c.db = AssertionStore.applyAll db₀
    ((List.range p).flatMap (chain.modifications indexer services))

/-- The lower end of a window after a move. -/
def cut (p k upperBound : Nat) : Nat :=
  if upperBound = 0 then p else max p (min (upperBound + 1) k)

lemma cut_cut {p k k' upperBound : Nat} (hk : k ≤ k') :
    cut (cut p k upperBound) k' upperBound = cut p k' upperBound := by
  unfold cut
  split <;> omega

namespace Indexes

variable {blockOf : B256 → Option Block} {chain chain' : Chain blockOf} {self : Indexer}
  {services : Services} {db₀ : OrderedTree Address (List AssertionState)} {p k : Nat}
  {c c' : Contents}

theorem of_agree (h : c.Indexes chain self services db₀ p k) (hagree : chain.Agree chain' k)
    (hlen : k ≤ chain'.blocks.length) : c.Indexes chain' self services db₀ p k := by
  have hmods : ∀ n, n < k →
      chain.modifications self services n = chain'.modifications self services n := by
    intro n hn
    rw [Chain.modifications, Chain.modifications, hagree n hn]
  refine ⟨h.lower_le, hlen, fun n => ?_, fun n => ?_, ?_⟩
  · rw [h.hashes]
    split
    · next hn => rw [hagree n hn.2]
    · rfl
  · rw [h.pending]
    split
    · next hn => rw [Chain.pendingEntry, Chain.pendingEntry, hmods n hn.2]
    · rfl
  · rw [h.db]
    congr 1
    refine List.flatMap_congr fun n hn => hmods n ?_
    exact Nat.lt_of_lt_of_le (List.mem_range.mp hn) h.lower_le

lemma isSome_hashes (h : c.Indexes chain self services db₀ p k) (n : Nat) :
    (c.hashes.get n).isSome ↔ p ≤ n ∧ n < k := by
  rw [h.hashes]
  by_cases hn : p ≤ n ∧ n < k
  · rw [if_pos hn, List.getElem?_eq_getElem (Nat.lt_of_lt_of_le hn.2 h.present)]
    simp [hn]
  · rw [if_neg hn]
    simp [hn]

/-- What the trees know of another chain is common to both chains. -/
lemma agree_of_knows (h : c.Indexes chain self services db₀ p k) {r : Nat}
    (hknows : c.Knows chain' r) : p ≤ r ∧ r < k ∧ chain.Agree chain' (r + 1) := by
  obtain ⟨b', hb', hstored⟩ := hknows
  have hr := (h.isSome_hashes r).mp (by rw [hstored, Option.isSome_some])
  rw [h.hashes, if_pos hr] at hstored
  obtain ⟨b, hb, hhash⟩ := Option.map_eq_some_iff.mp hstored
  exact ⟨hr.1, hr.2, Chain.agree_of_hash_eq hb hb' hhash⟩

theorem prune_from (h : c.Indexes chain self services db₀ p k) {start : Nat} (hstart : p ≤ start)
    (hle : start ≤ k) : (c.prune (start ≤ ·)).Indexes chain self services db₀ p start := by
  refine ⟨hstart, Nat.le_trans hle h.present, fun n => ?_, fun n => ?_, h.db⟩
  · simp only [prune, OrderedTree.get_restrict]
    rw [h.hashes]
    by_cases hn : n < start
    · rw [if_pos (by simpa using hn)]
      exact if_congr (by omega) rfl rfl
    · rw [if_neg (by simpa using hn), if_neg (by omega)]
  · simp only [prune, OrderedTree.get_restrict]
    by_cases hn : n < start
    · rw [if_pos (by simp; omega), h.pending]
      exact if_congr (by omega) rfl rfl
    · rw [if_neg (fun hlt : p ≤ n ∧ n < start => hn hlt.2)]
      by_cases hkept : p ≤ n ∧ n < k
      · have hsome := (h.isSome_hashes n).mpr hkept
        rw [if_neg (by simp [hsome]; omega)]
      · rw [h.pending, if_neg hkept, ite_self]

/-- Recording the next blocks extends the window. -/
theorem record (h : c.Indexes chain self services db₀ p k) {last : Nat} (hlast : k ≤ last + 1)
    (hrecorded : c.Recorded chain self services k last c') :
    c'.Indexes chain self services db₀ p (last + 1) := by
  refine ⟨Nat.le_trans h.lower_le hlast, ?_, fun n => ?_, fun n => ?_, ?_⟩
  · rcases Nat.lt_or_ge last k with hlt | hge
    · have hk : last + 1 = k := by omega
      rw [hk]
      exact h.present
    · exact hrecorded.present last hge (Nat.le_refl last)
  · rw [hrecorded.hashes, h.hashes]
    by_cases hn : k ≤ n ∧ n ≤ last
    · rw [if_pos hn, if_pos (by have := h.lower_le; omega)]
    · rw [if_neg hn]
      exact if_congr (by omega) rfl rfl
  · rw [hrecorded.pending, h.pending]
    by_cases hn : k ≤ n ∧ n ≤ last
    · rw [if_pos hn, if_neg (by omega), if_pos (by have := h.lower_le; omega), Option.or_none]
    · rw [if_neg hn, Option.none_or]
      exact if_congr (by omega) rfl rfl
  · rw [hrecorded.db, h.db]

lemma pendingIn_lt (h : c.Indexes chain self services db₀ p k) (upTo : Nat) :
    c.pendingIn (· < upTo) =
      (List.range' p (min upTo k - p)).flatMap (chain.modifications self services) := by
  have hpending : ∀ n, p ≤ n → n < k →
      (c.pending.get n).getD [] = chain.modifications self services n := by
    intro n hp hk
    rw [h.pending, if_pos ⟨hp, hk⟩, Chain.pendingEntry]
    split
    · next hnil => rw [hnil, Option.getD_none]
    · rfl
  have hfilter : ((c.hashes.entries.map Prod.fst).filter fun n => decide (n < upTo)) =
      List.range' p (min upTo k - p) := by
    apply OrderedTree.eq_of_sorted (c.hashes.keys_sorted.filter _) List.pairwise_lt_range'
    intro n
    rw [List.mem_filter, OrderedTree.mem_keys_iff, h.isSome_hashes, List.mem_range'_1,
      decide_eq_true_eq]
    omega
  calc c.pendingIn (· < upTo)
      = ((c.hashes.entries.map Prod.fst).filter fun n => decide (n < upTo)).flatMap
          fun n => (c.pending.get n).getD [] := pendingIn_eq _ c
    _ = (List.range' p (min upTo k - p)).flatMap (chain.modifications self services) := by
        rw [hfilter]
        refine List.flatMap_congr fun n hn => ?_
        rw [List.mem_range'_1] at hn
        exact hpending n hn.1 (by omega)

/-- Moving modifications to the store advances the window. -/
theorem move (h : c.Indexes chain self services db₀ p k) (upperBound : Nat) :
    (c.move upperBound).Indexes chain self services db₀ (cut p k upperBound) k := by
  have hle := h.lower_le
  unfold Contents.move cut
  by_cases hzero : upperBound = 0
  · rw [if_pos hzero, if_pos hzero]
    exact h
  rw [if_neg hzero, if_neg hzero]
  refine ⟨by omega, h.present, fun n => ?_, fun n => ?_, ?_⟩
  · simp only [prune, OrderedTree.get_restrict]
    rw [h.hashes]
    by_cases hn : n < upperBound + 1
    · rw [if_neg (by simpa using hn), if_neg (by omega)]
    · rw [if_pos (by simpa using hn)]
      exact if_congr (by omega) rfl rfl
  · simp only [prune, OrderedTree.get_restrict]
    by_cases hn : n < upperBound + 1
    · rw [if_neg (fun hmem : max p (min (upperBound + 1) k) ≤ n ∧ n < k => by omega)]
      by_cases hkept : p ≤ n ∧ n < k
      · have hsome := (h.isSome_hashes n).mpr hkept
        rw [if_neg (by simp [hsome]; omega)]
      · rw [h.pending, if_neg hkept, ite_self]
    · rw [if_pos (by simp; omega), h.pending]
      exact if_congr (by omega) rfl rfl
  · have hsplit : List.range (max p (min (upperBound + 1) k)) =
        List.range p ++ List.range' p (min (upperBound + 1) k - p) := by
      have hlen : max p (min (upperBound + 1) k) = p + (min (upperBound + 1) k - p) := by omega
      rw [List.range_eq_range', List.range_eq_range', hlen, ← List.range'_append_1, Nat.zero_add]
    change AssertionStore.applyAll c.db (c.pendingIn _) = _
    rw [h.db, h.pendingIn_lt, hsplit, List.flatMap_append, AssertionStore.applyAll_append]

end Indexes

end Contents

end AssertionExecution
