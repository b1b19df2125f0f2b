import AssertionExecution.Model.SledTrees
import AssertionExecution.Proofs.IndexerTrees

/-!
# Pruning at a block number

sled compares keys byte by byte, the indexer thinks in block numbers. The serialized numbers
have one length and one prefix, so their byte order is the numeric order, and cutting the trees
at a key cuts them at the block.
-/

namespace AssertionExecution

open EffectLogic

/-! ### Keys in byte order -/

namespace Bincode

variable (codec : Bincode)

lemma ser_lt_iff (v w : U256) : codec.ser v < codec.ser w ↔ v.toNat < w.toNat := by
  have hv : v.toNat % 256 ^ 32 = v.toNat := Nat.mod_eq_of_lt v.isLt
  have hw : w.toNat % 256 ^ 32 = w.toNat := Nat.mod_eq_of_lt w.isLt
  have hlength : (toBytes 32 v.toNat).length = (toBytes 32 w.toNat).length := by
    rw [length_toBytes, length_toBytes]
  have hbytes := @Positional.lt_iff_value_lt (BitVec 8) 256 BitVec.toNat _ BitVec.isLt
    (fun _ _ => BitVec.lt_def) _ _ hlength
  rw [← ofBytes_eq_value, ← ofBytes_eq_value, ofBytes_toBytes, ofBytes_toBytes, hv, hw] at hbytes
  unfold ser
  rw [Positional.append_lt_append_iff, hbytes]

lemma toNat_ofNat_of_le {number : Nat} (h : number ≤ u64Max) :
    (BitVec.ofNat 256 number).toNat = number := by
  rw [BitVec.toNat_ofNat]
  apply Nat.mod_eq_of_lt
  unfold u64Max at h
  omega

/-- The keys of block numbers are in the order of the numbers. -/
theorem blockKey_lt_iff {m n : Nat} (hm : m ≤ u64Max) (hn : n ≤ u64Max) :
    codec.blockKey m < codec.blockKey n ↔ m < n := by
  unfold blockKey
  rw [ser_lt_iff, toNat_ofNat_of_le hm, toNat_ofNat_of_le hn]

lemma le_blockKey_iff {m n : Nat} (hm : m ≤ u64Max) (hn : n ≤ u64Max) :
    codec.blockKey m ≤ codec.blockKey n ↔ m ≤ n := by
  rw [← not_lt, blockKey_lt_iff codec hn hm, not_lt]

lemma numberKeys_blockKey : OrderedTree.NumberKeys codec.blockKey (· ≤ u64Max) :=
  ⟨fun hm hn => blockKey_lt_iff codec hm hn, fun hmn hn => (Nat.le_of_lt hmn).trans hn⟩

end Bincode

namespace SledTrees

variable {fault : Nat → Bool} {index : OrderedTree Bytes B256}
  {pending : OrderedTree Bytes (List PendingModification)}

def contents (s : SledTrees) :
    OrderedTree Bytes B256 × OrderedTree Bytes (List PendingModification) :=
  (s.blockHashTree, s.pendingModificationsTree)

def Failed (fault : Nat → Bool) (e : Failure IndexerError) : Prop :=
  (e = .error .sledError ∨ e = .error .bincodeError) ∧ ∃ t, fault t = true

/-! ### The steps -/

lemma step_spec (e : IndexerError) (he : e = .sledError ∨ e = .bincodeError) :
    Triple (fun s => s.contents = (index, pending)) (step fault e)
      (fun _ s => s.contents = (index, pending)) (fun e _ => Failed fault e) := by
  intro s hs
  unfold step
  rw [exec_bind, exec_get]
  dsimp only
  rw [exec_bind, exec_set]
  dsimp only
  cases h : fault s.steps
  · exact hs
  · exact ⟨he.imp (congrArg Failure.error) (congrArg Failure.error), _, h⟩

lemma popFirstInRange_spec (range : Bytes → Bool) :
    Triple (fun s => s.contents = (index, pending)) (popFirstInRange fault range)
      (fun r s => match r with
        | none => index.firstInRange range = none ∧ s.contents = (index, pending)
        | some key => ∃ hash, index.firstInRange range = some (key, hash) ∧
          s.contents = (index.remove key, pending))
      (fun e _ => Failed fault e) := by
  refine Triple.bind (step_spec .sledError (Or.inl rfl)) fun _ => ?_
  intro s hs
  obtain ⟨rfl, rfl⟩ := Prod.mk.inj hs
  rw [exec_bind, exec_get]
  dsimp only
  cases h : s.blockHashTree.firstInRange range with
  | none => exact ⟨rfl, rfl⟩
  | some e => exact ⟨e.2, rfl, rfl⟩

lemma removePending_spec (key : Bytes) :
    Triple (fun s => s.contents = (index, pending)) (removePending fault key)
      (fun r s => r = pending.get key ∧ s.contents = (index, pending.remove key))
      (fun e _ => Failed fault e) := by
  refine Triple.bind (step_spec .sledError (Or.inl rfl)) fun _ => ?_
  intro s hs
  obtain ⟨rfl, rfl⟩ := Prod.mk.inj hs
  exact ⟨rfl, rfl⟩

lemma writeBlockNumHashBatch_spec {codec : Bincode} (blockNumHashes : List BlockNumHash) :
    Triple (fun s => s.contents = (index, pending))
      (writeBlockNumHashBatch fault codec blockNumHashes)
      (fun _ s => s.contents = (index.applyBatch
        (blockNumHashes.map fun b => (codec.blockKey b.number, b.hash)), pending))
      (fun e _ => Failed fault e) := by
  refine Triple.bind (step_spec .sledError (Or.inl rfl)) fun _ => Triple.modify fun s hs => ?_
  obtain ⟨rfl, rfl⟩ := Prod.mk.inj hs
  rfl

lemma writePendingModifications_spec {codec : Bincode} (mods : Indexer.OrderedModifications) :
    Triple (fun s => s.contents = (index, pending)) (writePendingModifications fault codec mods)
      (fun _ s => s.contents = (index, pending.applyBatch
        (mods.entries.map fun e => (codec.blockKey e.1, e.2.values))))
      (fun e _ => Failed fault e) := by
  refine Triple.bind (step_spec .sledError (Or.inl rfl)) fun _ => Triple.modify fun s hs => ?_
  obtain ⟨rfl, rfl⟩ := Prod.mk.inj hs
  rfl

/-! ### The loops -/

lemma remove_length_lt {range : Bytes → Bool} {e : Bytes × B256}
    (h : index.firstInRange range = some e) {fuel : Nat}
    (hfuel : index.entries.length < fuel + 1) : (index.remove e.1).entries.length < fuel := by
  have hlt := OrderedTree.remove_length_lt _ (OrderedTree.firstInRange_mem _ _ _ h).2
  exact Nat.lt_of_lt_of_le hlt (Nat.le_of_lt_succ hfuel)

def pruned (range : Bytes → Bool) (index : OrderedTree Bytes B256)
    (pending : OrderedTree Bytes (List PendingModification)) :
    OrderedTree Bytes B256 × OrderedTree Bytes (List PendingModification) :=
  (OrderedTree.outside range index, OrderedTree.unindexed range index pending)

lemma pruned_remove {range : Bytes → Bool} {e : Bytes × B256}
    (h : index.firstInRange range = some e) :
    pruned range (index.remove e.1) (pending.remove e.1) = pruned range index pending := by
  obtain ⟨hrange, hget⟩ := OrderedTree.firstInRange_mem _ _ _ h
  unfold pruned
  rw [OrderedTree.outside_remove hrange, OrderedTree.unindexed_remove hrange hget]

lemma pruned_eq_self {range : Bytes → Bool} (h : index.firstInRange range = none) :
    pruned range index pending = (index, pending) := by
  unfold pruned
  rw [OrderedTree.outside_eq_self h, OrderedTree.unindexed_eq_self h]

lemma pruneToLoop_spec (serTo : Bytes) (fuel : Nat) (acc : List PendingModification)
    (hfuel : index.entries.length < fuel) :
    Triple (fun s => s.contents = (index, pending)) (pruneToLoop fault serTo fuel acc)
      (fun r s => r = acc ++ OrderedTree.collect (· < serTo) index pending ∧
        s.contents = pruned (· < serTo) index pending)
      (fun e _ => Failed fault e) := by
  induction fuel generalizing index pending acc with
  | zero => exact (Nat.not_lt_zero _ hfuel).elim
  | succ fuel ih =>
    apply Triple.bind (popFirstInRange_spec _)
    intro r
    cases r with
    | none =>
      apply Triple.pure
      rintro s ⟨hfirst, hs⟩
      rw [OrderedTree.collect_eq_nil hfirst, List.append_nil, pruned_eq_self hfirst]
      exact ⟨rfl, hs⟩
    | some key =>
      rintro s ⟨hash, hfirst, hs⟩
      have hcollect := OrderedTree.collect_remove hfirst pending
      have hrest := fun acc =>
        @ih _ (pending.remove key) acc (remove_length_lt hfirst hfuel)
      rw [pruned_remove hfirst] at hrest
      refine Triple.bind (removePending_spec key) (fun r => ?_) s hs
      cases r with
      | none =>
        rintro s' ⟨hr, hs'⟩
        refine (hrest acc).consequence (fun _ h => h) ?_ (fun _ _ h => h) s' hs'
        rintro r s'' ⟨rfl, hs''⟩
        rw [hcollect, ← hr]
        exact ⟨rfl, hs''⟩
      | some mods =>
        rintro s' ⟨hr, hs'⟩
        refine Triple.bind (step_spec _ (Or.inr rfl)) (fun _ => ?_) s' hs'
        refine (hrest (acc ++ mods)).consequence (fun _ h => h) ?_ (fun _ _ h => h)
        rintro r s'' ⟨rfl, hs''⟩
        rw [hcollect, ← hr, List.append_assoc]
        exact ⟨rfl, hs''⟩

lemma pruneFromLoop_spec (serFrom : Bytes) (fuel : Nat) (hfuel : index.entries.length < fuel) :
    Triple (fun s => s.contents = (index, pending)) (pruneFromLoop fault serFrom fuel)
      (fun _ s => s.contents = pruned (serFrom ≤ ·) index pending)
      (fun e _ => Failed fault e) := by
  induction fuel generalizing index pending with
  | zero => exact (Nat.not_lt_zero _ hfuel).elim
  | succ fuel ih =>
    apply Triple.bind (popFirstInRange_spec _)
    intro r
    cases r with
    | none =>
      apply Triple.pure
      rintro s ⟨hfirst, hs⟩
      rw [pruned_eq_self hfirst]
      exact hs
    | some key =>
      rintro s ⟨hash, hfirst, hs⟩
      refine Triple.bind (removePending_spec key) (fun r => ?_) s hs
      rintro s' ⟨-, hs'⟩
      rw [← pruned_remove hfirst]
      exact ih (remove_length_lt hfirst hfuel) s' hs'

/-! ### Trees of block numbers -/

/-- The blocks of the hash tree are under the keys of their numbers. -/
def Keyed (codec : Bincode) (index : OrderedTree Bytes B256) : Prop :=
  ∀ key, (index.get key).isSome → ∃ number, number ≤ u64Max ∧ key = codec.blockKey number

variable {codec : Bincode}

lemma Keyed.empty : Keyed codec .empty := fun _ hkey => (Bool.false_ne_true hkey).elim

lemma Keyed.remove (h : Keyed codec index) (key : Bytes) : Keyed codec (index.remove key) := by
  intro key' hkey'
  rw [OrderedTree.get_remove] at hkey'
  by_cases hk : key' = key
  · rw [if_pos hk] at hkey'
    exact (Bool.false_ne_true hkey').elim
  · rw [if_neg hk] at hkey'
    exact h key' hkey'

lemma Keyed.applyBatch (h : Keyed codec index) (blockNumHashes : List BlockNumHash)
    (hnumbers : ∀ b ∈ blockNumHashes, b.number ≤ u64Max) :
    Keyed codec
      (index.applyBatch (blockNumHashes.map fun b => (codec.blockKey b.number, b.hash))) := by
  intro key hkey
  by_cases hmem : key ∈ blockNumHashes.map fun b => codec.blockKey b.number
  · obtain ⟨b, hb, rfl⟩ := List.mem_map.mp hmem
    exact ⟨b.number, hnumbers b hb, rfl⟩
  · rw [OrderedTree.get_applyBatch_of_notMem _ _ _ (by rw [List.map_map]; exact hmem)] at hkey
    exact h key hkey

/-! ### What the operations keep -/

lemma step_preserves (e : IndexerError) : Preserves contents (step fault e) := by
  intro s
  unfold step
  rw [exec_bind, exec_get]
  dsimp only
  rw [exec_bind, exec_set]
  cases fault s.steps <;> rfl

lemma step_keyed (e : IndexerError) :
    Keeps (fun s => Keyed codec s.blockHashTree) (step fault e) :=
  (step_preserves e).keeps fun c => Keyed codec c.1

lemma popFirstInRange_keyed (range : Bytes → Bool) :
    Keeps (fun s => Keyed codec s.blockHashTree) (popFirstInRange fault range) := by
  apply Keeps.bind (step_keyed .sledError)
  intro _ s hs
  rw [exec_bind, exec_get]
  dsimp only
  cases s.blockHashTree.firstInRange range with
  | none => exact hs
  | some e => exact hs.remove e.1

lemma removePending_keyed (key : Bytes) :
    Keeps (fun s => Keyed codec s.blockHashTree) (removePending fault key) :=
  Keeps.bind (step_keyed .sledError) fun _ _ hs => hs

lemma pruneTo_keyed (upTo : Nat) :
    Keeps (fun s => Keyed codec s.blockHashTree) (pruneTo fault codec upTo) := by
  apply Keeps.bind Keeps.get
  intro s
  have hloop : ∀ fuel acc, Keeps (fun s => Keyed codec s.blockHashTree)
      (pruneToLoop fault (codec.blockKey upTo) fuel acc) := by
    intro fuel
    induction fuel with
    | zero => exact fun _ => Keeps.throw _
    | succ fuel ih =>
      intro acc
      apply Keeps.bind (popFirstInRange_keyed _)
      intro r
      cases r with
      | none => exact Keeps.pure acc
      | some key =>
        apply Keeps.bind (removePending_keyed key)
        intro r
        cases r with
        | none => exact ih acc
        | some mods => exact Keeps.bind (step_keyed _) fun _ => ih _
  exact hloop _ []

lemma pruneFrom_keyed (start : Nat) :
    Keeps (fun s => Keyed codec s.blockHashTree) (pruneFrom fault codec start) := by
  apply Keeps.bind Keeps.get
  intro s
  have hloop : ∀ fuel, Keeps (fun s => Keyed codec s.blockHashTree)
      (pruneFromLoop fault (codec.blockKey start) fuel) := by
    intro fuel
    induction fuel with
    | zero => exact Keeps.throw _
    | succ fuel ih =>
      apply Keeps.bind (popFirstInRange_keyed _)
      intro r
      cases r with
      | none => exact Keeps.pure ()
      | some key => exact Keeps.bind (removePending_keyed key) fun _ => ih
  exact hloop _

lemma writeBlockNumHashBatch_keyed (blockNumHashes : List BlockNumHash)
    (hnumbers : ∀ b ∈ blockNumHashes, b.number ≤ u64Max) :
    Keeps (fun s => Keyed codec s.blockHashTree)
      (writeBlockNumHashBatch fault codec blockNumHashes) :=
  Keeps.bind (step_keyed .sledError) fun _ _ hs => hs.applyBatch blockNumHashes hnumbers

lemma writePendingModifications_keyed (pending : Indexer.OrderedModifications) :
    Keeps (fun s => Keyed codec s.blockHashTree) (writePendingModifications fault codec pending) :=
  Keeps.bind (step_keyed .sledError) fun _ _ hs => hs

end SledTrees

/-- The two trees with block numbers for keys. -/
structure BlockTrees (codec : Bincode) extends SledTrees where
  keyed : SledTrees.Keyed codec blockHashTree

/-- The trees that writes and prunes, failed ones included, lead to. -/
inductive SledTrees.Reachable (codec : Bincode) : SledTrees → Prop where
  | new : Reachable codec ⟨.empty, .empty, 0⟩
  | writeBlockNumHashBatch {s : SledTrees} (fault : Nat → Bool)
      (blockNumHashes : List BlockNumHash) (hnumbers : ∀ b ∈ blockNumHashes, b.number ≤ u64Max)
      (h : Reachable codec s) :
      Reachable codec (exec (SledTrees.writeBlockNumHashBatch fault codec blockNumHashes) s).2
  | writePendingModifications {s : SledTrees} (fault : Nat → Bool)
      (pending : Indexer.OrderedModifications) (h : Reachable codec s) :
      Reachable codec (exec (SledTrees.writePendingModifications fault codec pending) s).2
  | pruneTo {s : SledTrees} (fault : Nat → Bool) (upTo : Nat) (h : Reachable codec s) :
      Reachable codec (exec (SledTrees.pruneTo fault codec upTo) s).2
  | pruneFrom {s : SledTrees} (fault : Nat → Bool) (start : Nat) (h : Reachable codec s) :
      Reachable codec (exec (SledTrees.pruneFrom fault codec start) s).2

theorem SledTrees.Reachable.keyed {codec : Bincode} {s : SledTrees} (h : Reachable codec s) :
    Keyed codec s.blockHashTree := by
  induction h with
  | new => exact Keyed.empty
  | writeBlockNumHashBatch fault blockNumHashes hnumbers _ ih =>
    exact (writeBlockNumHashBatch_keyed blockNumHashes hnumbers).final ih
  | writePendingModifications fault pending _ ih =>
    exact (writePendingModifications_keyed pending).final ih
  | pruneTo fault upTo _ ih => exact (pruneTo_keyed upTo).final ih
  | pruneFrom fault start _ ih => exact (pruneFrom_keyed start).final ih

namespace SledTrees

variable {codec : Bincode}

def blockHash (codec : Bincode) (s : SledTrees) (number : Nat) : Option B256 :=
  s.blockHashTree.get (codec.blockKey number)

def pendingOf (codec : Bincode) (s : SledTrees) (number : Nat) :
    Option (List PendingModification) :=
  s.pendingModificationsTree.get (codec.blockKey number)

def due (codec : Bincode) (s : SledTrees) (number : Nat) : List PendingModification :=
  if (s.blockHash codec number).isSome then (s.pendingOf codec number).getD [] else []

/-- The blocks of a range are removed with their pending modifications, and nothing else is. -/
structure Cut (codec : Bincode) (range : Nat → Bool) (s s' : SledTrees) : Prop where
  removed : ∀ number ≤ u64Max, range number = true → s'.blockHash codec number = none
  kept : ∀ key, (∀ number ≤ u64Max, range number = true → key ≠ codec.blockKey number) →
    s'.blockHashTree.get key = s.blockHashTree.get key
  removedPending : ∀ number ≤ u64Max, range number = true →
    (s.blockHash codec number).isSome → s'.pendingOf codec number = none
  keptPending : ∀ key,
    (∀ number ≤ u64Max, range number = true → (s.blockHash codec number).isSome →
      key ≠ codec.blockKey number) →
    s'.pendingModificationsTree.get key = s.pendingModificationsTree.get key

lemma cut_of_pruned {s s' : SledTrees} (hs : Keyed codec s.blockHashTree) {range : Nat → Bool}
    {keys : Bytes → Bool}
    (hkeys : ∀ number ≤ u64Max, keys (codec.blockKey number) = range number)
    (h : s'.contents = pruned keys s.blockHashTree s.pendingModificationsTree) :
    Cut codec range s s' := by
  obtain ⟨hindex, hpending⟩ := Prod.mk.inj h
  -- A key that the hash tree has is a block's, so its range is the block's.
  have hindexed : ∀ key, (s.blockHashTree.get key).isSome → keys key = true →
      ∃ number, number ≤ u64Max ∧ range number = true ∧ key = codec.blockKey number := by
    intro key hkey hrange
    obtain ⟨number, hnumber, rfl⟩ := hs key hkey
    exact ⟨number, hnumber, (hkeys number hnumber).symm.trans hrange, rfl⟩
  constructor
  · intro number hnumber hrange
    unfold blockHash
    rw [hindex, OrderedTree.outside, OrderedTree.get_restrict, hkeys number hnumber, hrange]
    rfl
  · intro key hkey
    rw [hindex, OrderedTree.outside, OrderedTree.get_restrict]
    cases hget : s.blockHashTree.get key with
    | none => exact ite_self none
    | some hash =>
      cases hrange : keys key with
      | false => rfl
      | true =>
        obtain ⟨number, hnumber, hin, heq⟩ := hindexed key (by rw [hget]; rfl) hrange
        exact absurd heq (hkey number hnumber hin)
  · intro number hnumber hrange hhash
    unfold blockHash at hhash
    unfold pendingOf
    rw [hpending, OrderedTree.unindexed, OrderedTree.get_restrict, hkeys number hnumber, hrange,
      hhash]
    rfl
  · intro key hkey
    rw [hpending, OrderedTree.unindexed, OrderedTree.get_restrict]
    apply if_pos
    rw [Bool.not_eq_true', Bool.and_eq_false_iff, Bool.eq_false_iff, Bool.eq_false_iff]
    by_contra hboth
    rw [not_or, not_not, not_not] at hboth
    obtain ⟨number, hnumber, hin, rfl⟩ := hindexed key hboth.2 hboth.1
    exact hkey number hnumber hin hboth.2 rfl

lemma below_blockKey {number upTo : Nat} (hnumber : number ≤ u64Max) (hupTo : upTo ≤ u64Max) :
    decide (codec.blockKey number < codec.blockKey upTo) = decide (number < upTo) :=
  decide_eq_decide.mpr (codec.blockKey_lt_iff hnumber hupTo)

lemma from_blockKey {number start : Nat} (hnumber : number ≤ u64Max) (hstart : start ≤ u64Max) :
    decide (codec.blockKey start ≤ codec.blockKey number) = decide (start ≤ number) :=
  decide_eq_decide.mpr (codec.le_blockKey_iff hstart hnumber)

theorem pruneTo_spec (s₀ : SledTrees) (hs₀ : Keyed codec s₀.blockHashTree) (upTo : Nat)
    (hupTo : upTo ≤ u64Max) :
    Triple (fun s => s = s₀) (pruneTo fault codec upTo)
      (fun modifications s => modifications = (List.range upTo).flatMap (s₀.due codec) ∧
        Cut codec (· < upTo) s₀ s)
      (fun e _ => Failed fault e) := by
  rintro s rfl
  have hloop := @pruneToLoop_spec fault s.blockHashTree s.pendingModificationsTree
    (codec.blockKey upTo) _ [] (Nat.lt_succ_self _)
  apply hloop.consequence (fun _ h => h) _ (fun _ _ h => h) s rfl
  rintro modifications s' ⟨rfl, hs'⟩
  have hrange := fun number (hnumber : number ≤ u64Max) =>
    @below_blockKey codec number upTo hnumber hupTo
  rw [List.nil_append, OrderedTree.collect_below codec.numberKeys_blockKey hs₀ hupTo hrange]
  exact ⟨rfl, cut_of_pruned hs₀ hrange hs'⟩

theorem pruneFrom_spec (s₀ : SledTrees) (hs₀ : Keyed codec s₀.blockHashTree) (start : Nat)
    (hstart : start ≤ u64Max) :
    Triple (fun s => s = s₀) (pruneFrom fault codec start)
      (fun _ s => Cut codec (start ≤ ·) s₀ s) (fun e _ => Failed fault e) := by
  rintro s rfl
  have hloop := @pruneFromLoop_spec fault s.blockHashTree s.pendingModificationsTree
    (codec.blockKey start) _ (Nat.lt_succ_self _)
  apply hloop.consequence (fun _ h => h) _ (fun _ _ h => h) s rfl
  intro _ s' hs'
  exact cut_of_pruned hs₀ (fun number hnumber => from_blockKey hnumber hstart) hs'

/-! ### Trees keyed by numbers -/

/-- The trees hold under the keys of block numbers what the contents hold for the numbers. -/
structure Encodes (codec : Bincode) (c : Contents) (s : SledTrees) : Prop where
  keyed : Keyed codec s.blockHashTree
  hashes : ∀ number ≤ u64Max, s.blockHash codec number = c.hashes.get number
  pending : ∀ number ≤ u64Max, s.pendingOf codec number = c.pending.get number

variable {c : Contents} {s₀ : SledTrees}

lemma Encodes.due_eq (h : Encodes codec c s₀) {number : Nat} (hnumber : number ≤ u64Max) :
    s₀.due codec number = c.due number := by
  unfold due Contents.due
  rw [h.hashes number hnumber, h.pending number hnumber]

lemma Cut.keyed {range : Nat → Bool} {s : SledTrees} (hcut : Cut codec range s₀ s)
    (h : Keyed codec s₀.blockHashTree) : Keyed codec s.blockHashTree := by
  intro key hkey
  by_cases hin : ∃ number, number ≤ u64Max ∧ key = codec.blockKey number
  · exact hin
  · have hkept := hcut.kept key fun number hnumber _ heq => hin ⟨number, hnumber, heq⟩
    rw [hkept] at hkey
    exact h key hkey

/-- A cut at block numbers is a cut of what the trees encode. -/
lemma Encodes.cut (h : Encodes codec c s₀) {range : Nat → Bool} {s : SledTrees}
    (hcut : Cut codec range s₀ s) : Encodes codec (c.prune range) s := by
  constructor
  · exact hcut.keyed h.keyed
  · intro number hnumber
    rw [Contents.prune, OrderedTree.get_restrict]
    cases hrange : range number with
    | true => exact hcut.removed number hnumber hrange
    | false =>
      refine (hcut.kept (codec.blockKey number) ?_).trans (h.hashes number hnumber)
      rintro number' hnumber' hrange' heq
      rw [codec.numberKeys_blockKey.inj hnumber hnumber' heq, hrange'] at hrange
      exact Bool.false_ne_true hrange.symm
  · intro number hnumber
    have hhash := h.hashes number hnumber
    rw [Contents.prune, OrderedTree.get_restrict]
    cases hin : (range number && (c.hashes.get number).isSome) with
    | true =>
      obtain ⟨hrange, hsome⟩ := Bool.and_eq_true_iff.mp hin
      exact hcut.removedPending number hnumber hrange (by rw [hhash]; exact hsome)
    | false =>
      refine (hcut.keptPending (codec.blockKey number) ?_).trans (h.pending number hnumber)
      rintro number' hnumber' hrange' hsome' heq
      rw [codec.numberKeys_blockKey.inj hnumber hnumber' heq, hrange',
        ← h.hashes number' hnumber', hsome'] at hin
      exact Bool.false_ne_true hin.symm

lemma encodes_new {t : IndexerState} (hhashes : t.blockHashTree = .empty)
    (hpending : t.pendingModificationsTree = .empty) :
    Encodes codec t.contents ⟨.empty, .empty, 0⟩ := by
  constructor
  · exact Keyed.empty
  · exact fun number _ => (congrArg (fun tree => tree.get number) hhashes).symm
  · exact fun number _ => (congrArg (fun tree => tree.get number) hpending).symm

theorem writeBlockNumHashBatch_agree {env : Env} {t t' : IndexerState} {s : SledTrees}
    (h : Encodes codec t.contents s₀) (blockNumHashes : List BlockNumHash)
    (hnumbers : ∀ b ∈ blockNumHashes, b.number ≤ u64Max)
    (hs : exec (writeBlockNumHashBatch fault codec blockNumHashes) s₀ = (.ok (), s))
    (ht : exec (Indexer.writeBlockNumHashBatch env blockNumHashes) t = (.ok (), t')) :
    Encodes codec t'.contents s := by
  obtain ⟨hindex, hpending⟩ := Prod.mk.inj ((writeBlockNumHashBatch_spec blockNumHashes).ok rfl hs)
  have hcontents := (Indexer.treeWrite_spec _ (fun c => { c with
    hashes := c.hashes.applyBatch (blockNumHashes.map fun b => (b.number, b.hash)) })
    (fun _ => rfl)).ok rfl ht
  rw [hcontents]
  constructor
  · rw [hindex]
    exact h.keyed.applyBatch blockNumHashes hnumbers
  · intro number hnumber
    rw [blockHash, hindex]
    exact OrderedTree.get_applyBatch_key codec.numberKeys_blockKey _ _ blockNumHashes hnumbers
      hnumber (h.hashes number hnumber)
  · intro number hnumber
    rw [pendingOf, hpending]
    exact h.pending number hnumber

theorem writePendingModifications_agree {env : Env} {t t' : IndexerState} {s : SledTrees}
    (h : Encodes codec t.contents s₀) (pending : Indexer.OrderedModifications)
    (hnumbers : ∀ e ∈ pending.entries, e.1 ≤ u64Max)
    (hs : exec (writePendingModifications fault codec pending) s₀ = (.ok (), s))
    (ht : exec (Indexer.writePendingModifications env pending) t = (.ok (), t')) :
    Encodes codec t'.contents s := by
  obtain ⟨hindex, hpending⟩ := Prod.mk.inj ((writePendingModifications_spec pending).ok rfl hs)
  have hcontents := (Indexer.treeWrite_spec _ (fun c => { c with
    pending := c.pending.applyBatch (pending.entries.map fun e => (e.1, e.2.values)) })
    (fun _ => rfl)).ok rfl ht
  rw [hcontents]
  constructor
  · rw [hindex]
    exact h.keyed
  · intro number hnumber
    rw [blockHash, hindex]
    exact h.hashes number hnumber
  · intro number hnumber
    rw [pendingOf, hpending]
    exact OrderedTree.get_applyBatch_key codec.numberKeys_blockKey _ _ pending.entries hnumbers
      hnumber (h.pending number hnumber)

/-- Both models of `prune_to` return the same modifications and leave the same trees. -/
theorem pruneTo_agree {env : Env} {t t' : IndexerState} {s : SledTrees}
    (h : Encodes codec t.contents s₀) {upTo : Nat} (hupTo : upTo ≤ u64Max)
    {modifications modifications' : List PendingModification}
    (hs : exec (pruneTo fault codec upTo) s₀ = (.ok modifications, s))
    (ht : exec (Indexer.pruneTo env upTo) t = (.ok modifications', t')) :
    modifications = modifications' ∧ Encodes codec t'.contents s := by
  obtain ⟨hmods, hcut⟩ := (pruneTo_spec s₀ h.keyed upTo hupTo).ok rfl hs
  obtain ⟨hmods', hprune⟩ := (Indexer.pruneTo_spec upTo).ok rfl ht
  rw [hmods, hmods', hprune, Contents.pendingIn_below]
  constructor
  · apply List.flatMap_congr
    intro number hnumber
    exact h.due_eq (Nat.le_of_lt ((List.mem_range.mp hnumber).trans_le hupTo))
  · exact h.cut hcut

/-- Both models of `prune_from` leave the same trees. -/
theorem pruneFrom_agree {env : Env} {t t' : IndexerState} {s : SledTrees}
    (h : Encodes codec t.contents s₀) {start : Nat} (hstart : start ≤ u64Max)
    (hs : exec (pruneFrom fault codec start) s₀ = (.ok (), s))
    (ht : exec (Indexer.pruneFrom env start) t = (.ok (), t')) :
    Encodes codec t'.contents s := by
  have hcut := (pruneFrom_spec s₀ h.keyed start hstart).ok rfl hs
  have hprune := (Indexer.pruneFrom_spec start).ok rfl ht
  rw [hprune]
  exact h.cut hcut

/-- Both models take the same steps on the two trees, and none of them fails. -/
inductive SameSteps (codec : Bincode) : IndexerState → SledTrees → Prop where
  | new {t : IndexerState} (hhashes : t.blockHashTree = .empty)
      (hpending : t.pendingModificationsTree = .empty) : SameSteps codec t ⟨.empty, .empty, 0⟩
  /-- A step of the indexer on other parts of its state. -/
  | elsewhere {t t' : IndexerState} {s : SledTrees} (h : SameSteps codec t s)
      (hhashes : t'.blockHashTree = t.blockHashTree)
      (hpending : t'.pendingModificationsTree = t.pendingModificationsTree) :
      SameSteps codec t' s
  | writeBlockNumHashBatch {env : Env} {fault : Nat → Bool} {t t' : IndexerState} {s s' : SledTrees}
      (h : SameSteps codec t s) (blockNumHashes : List BlockNumHash)
      (hnumbers : ∀ b ∈ blockNumHashes, b.number ≤ u64Max)
      (hs : exec (SledTrees.writeBlockNumHashBatch fault codec blockNumHashes) s = (.ok (), s'))
      (ht : exec (Indexer.writeBlockNumHashBatch env blockNumHashes) t = (.ok (), t')) :
      SameSteps codec t' s'
  | writePendingModifications {env : Env} {fault : Nat → Bool} {t t' : IndexerState}
      {s s' : SledTrees} (h : SameSteps codec t s) (pending : Indexer.OrderedModifications)
      (hnumbers : ∀ e ∈ pending.entries, e.1 ≤ u64Max)
      (hs : exec (SledTrees.writePendingModifications fault codec pending) s = (.ok (), s'))
      (ht : exec (Indexer.writePendingModifications env pending) t = (.ok (), t')) :
      SameSteps codec t' s'
  | pruneTo {env : Env} {fault : Nat → Bool} {t t' : IndexerState} {s s' : SledTrees}
      (h : SameSteps codec t s) {upTo : Nat} (hupTo : upTo ≤ u64Max)
      {modifications modifications' : List PendingModification}
      (hs : exec (SledTrees.pruneTo fault codec upTo) s = (.ok modifications, s'))
      (ht : exec (Indexer.pruneTo env upTo) t = (.ok modifications', t')) : SameSteps codec t' s'
  | pruneFrom {env : Env} {fault : Nat → Bool} {t t' : IndexerState} {s s' : SledTrees}
      (h : SameSteps codec t s) {start : Nat} (hstart : start ≤ u64Max)
      (hs : exec (SledTrees.pruneFrom fault codec start) s = (.ok (), s'))
      (ht : exec (Indexer.pruneFrom env start) t = (.ok (), t')) : SameSteps codec t' s'

/-- After the same steps the trees with byte keys encode those with numbers for keys. -/
theorem SameSteps.encodes {t : IndexerState} {s : SledTrees} (h : SameSteps codec t s) :
    Encodes codec t.contents s := by
  induction h with
  | new hhashes hpending => exact encodes_new hhashes hpending
  | elsewhere _ hhashes hpending ih =>
    constructor
    · exact ih.keyed
    · intro number hnumber
      exact (ih.hashes number hnumber).trans (congrArg (fun tree => tree.get number) hhashes).symm
    · intro number hnumber
      exact (ih.pending number hnumber).trans (congrArg (fun tree => tree.get number) hpending).symm
  | writeBlockNumHashBatch _ blockNumHashes hnumbers hs ht ih =>
    exact writeBlockNumHashBatch_agree ih blockNumHashes hnumbers hs ht
  | writePendingModifications _ pending hnumbers hs ht ih =>
    exact writePendingModifications_agree ih pending hnumbers hs ht
  | pruneTo _ hupTo hs ht ih => exact (pruneTo_agree ih hupTo hs ht).2
  | pruneFrom _ hstart hs ht ih => exact pruneFrom_agree ih hstart hs ht

/-! ### The cut -/

/-- The keys of block numbers are in numeric order, and both prunes end and cut the trees exactly
at the block number, whatever blocks and pending modifications they hold. -/
theorem prune_cuts_exactly (codec : Bincode) :
    (∀ m n, m ≤ u64Max → n ≤ u64Max → (codec.blockKey m < codec.blockKey n ↔ m < n)) ∧
    ∀ (fault : Nat → Bool) (trees : BlockTrees codec) (n : Nat), n ≤ u64Max →
      Triple (fun s => s = trees.toSledTrees) (pruneTo fault codec n)
        (fun modifications s => modifications = (List.range n).flatMap (trees.due codec) ∧
          Cut codec (· < n) trees.toSledTrees s)
        (fun e _ => Failed fault e) ∧
      Triple (fun s => s = trees.toSledTrees) (pruneFrom fault codec n)
        (fun _ s => Cut codec (n ≤ ·) trees.toSledTrees s) (fun e _ => Failed fault e) := by
  constructor
  · exact fun m n hm hn => codec.blockKey_lt_iff hm hn
  · intro fault trees n hn
    constructor
    · exact pruneTo_spec trees.toSledTrees trees.keyed n hn
    · exact pruneFrom_spec trees.toSledTrees trees.keyed n hn

/-- Blocks 255 and 256, whose keys differ by a carry, with modifications pending for block 255. -/
def carryTrees : BlockTrees .fixint where
  blockHashTree := OrderedTree.empty.applyBatch
    [(Bincode.fixint.blockKey 256, 2), (Bincode.fixint.blockKey 255, 1)]
  pendingModificationsTree := OrderedTree.empty.insert (Bincode.fixint.blockKey 255)
    [.remove 7 9 255 0]
  steps := 0
  keyed := Keyed.empty.applyBatch [⟨256, 2⟩, ⟨255, 1⟩] (by decide)

theorem prune_cuts_exactly_carry :
    ∃ modifications s, exec (pruneTo (fun _ => false) .fixint 256) carryTrees.toSledTrees =
        (.ok modifications, s) ∧
      modifications = (List.range 256).flatMap (carryTrees.due .fixint) ∧
      Cut .fixint (· < 256) carryTrees.toSledTrees s :=
  ((prune_cuts_exactly .fixint).2 (fun _ => false) carryTrees 256 (by decide)).1.exists_ok rfl
    fun _ _ hfailed => Bool.false_ne_true hfailed.2.choose_spec

set_option maxRecDepth 8000 in
example : (exec (pruneTo (fun _ => false) .fixint 256) carryTrees.toSledTrees).1.toOption =
    some [.remove 7 9 255 0] := by
  decide

end SledTrees

end AssertionExecution
