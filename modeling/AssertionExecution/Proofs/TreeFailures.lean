import AssertionExecution.Proofs.IndexRange

/-!
# What a failure leaves in the trees

Most of a call only reads the trees. Each write is a single tree operation, which happens
or fails without a trace.
-/

namespace AssertionExecution

open EffectLogic

structure Trees where
  hashes : OrderedTree Nat B256
  latest : Option BlockNumHash
  pending : OrderedTree Nat (List PendingModification)

def IndexerState.trees (s : IndexerState) : Trees :=
  ⟨s.blockHashTree, s.latestBlockTree, s.pendingModificationsTree⟩

def Contents.trees (c : Contents) : Trees := ⟨c.hashes, c.latest, c.pending⟩

/-- The number after that of the last indexed block. -/
def Trees.next (T : Trees) : Nat :=
  match T.latest with
  | none => 0
  | some lastIndexed => lastIndexed.number + 1

/-- Steps were taken and the trees stayed as they were. -/
structure IndexerState.Idles (s s' : IndexerState) : Prop where
  trees : s'.trees = s.trees
  steps : s.steps ≤ s'.steps

namespace IndexerState.Idles

instance : IsPreorder IndexerState Idles where
  refl _ := ⟨rfl, Nat.le_refl _⟩
  trans _ _ _ h h' := ⟨h'.trees.trans h.trees, Nat.le_trans h.steps h'.steps⟩

lemma next (s : IndexerState) : s.Idles { s with steps := s.steps + 1 } := ⟨rfl, Nat.le_succ _⟩

end IndexerState.Idles

namespace Indexer

open IndexerState

variable {self : Indexer} {env : Env} {it : Iteration} {fuel : Nat} {T : Trees}

/-! ### Programs that only read the trees -/

lemma trace_idles (event : TraceEvent) : Moves Idles (trace event) :=
  Moves.modify fun _ => ⟨rfl, Nat.le_refl _⟩

lemma treeRead_idles {α : Type} (f : IndexerState → α) :
    Moves Idles (treeOperation env fun s => (f s, s)) :=
  treeOperation_moves Idles.next fun s => refl_of Idles s

lemma onStore_idles {α : Type} (x : StoreM α) : Moves Idles (onStore x) :=
  onStore_moves (fun _ _ => ⟨rfl, Nat.le_refl _⟩) x

lemma keeps_of_idles {α : Type} {x : IndexerM α} (h : Moves Idles x) (P : Trees → Prop) :
    Keeps (fun s => P s.trees) x :=
  h.keeps fun _ _ hidles hs => hidles.trees ▸ hs

/-- What a program returns that only reads the trees. -/
lemma returns_of_idles {α : Type} {x : IndexerM α} {P : Trees → Prop} {F : α → Prop}
    {Q : Contents → α → IndexerState → Prop} {E : Failure IndexerError → IndexerState → Prop}
    (h : Moves Idles x) (hx : ∀ c, Triple (fun s => s.contents = c) x (Q c) E)
    (hF : ∀ c a s, P c.trees → Q c a s → F a) :
    Triple (fun s => P s.trees) x (fun a s => F a ∧ P s.trees) (fun _ s => P s.trees) := by
  intro s hs
  have hkept := keeps_of_idles h P s hs
  have hreturns := hx s.contents s rfl
  rcases hexec : exec x s with ⟨e | a, s'⟩
  · rw [hexec] at hkept
    exact hkept
  · rw [hexec] at hkept hreturns
    exact ⟨hF s.contents a s' hs hreturns, hkept⟩

/-! ### Single writes -/

/-- A tree operation has its effect or fails without one. -/
lemma treeOperation_trees {α : Type} (f : IndexerState → α × IndexerState) {P : α → Trees → Prop}
    (hf : ∀ s, s.trees = T → P (f s).1 (f s).2.trees) :
    Triple (fun s => s.trees = T) (treeOperation env f) (fun a s => P a s.trees)
      (fun _ s => s.trees = T) :=
  Triple.bind (keeps_of_idles (step_moves Idles.next .sledError) (· = T)) fun _ s hs => hf s hs

lemma treeWrite_trees (f : IndexerState → IndexerState) (g : Trees → Trees)
    (hfg : ∀ s, (f s).trees = g s.trees) :
    Triple (fun s => s.trees = T) (treeOperation env fun s => ((), f s))
      (fun _ s => s.trees = g T) (fun _ s => s.trees = T) :=
  treeOperation_trees (P := fun _ T' => T' = g T) _ fun s hs => by rw [hfg, hs]

lemma writePendingModifications_trees (pending : OrderedModifications) :
    Triple (fun s => s.trees = T) (writePendingModifications env pending)
      (fun _ s => s.trees = { T with
        pending := T.pending.applyBatch (pending.entries.map fun e => (e.1, e.2.values)) })
      (fun _ s => s.trees = T) :=
  treeWrite_trees _ (fun T => { T with
    pending := T.pending.applyBatch (pending.entries.map fun e => (e.1, e.2.values)) })
    fun _ => rfl

lemma insertLastIndexedBlockNumHash_trees (lastIndexed : BlockNumHash) :
    Triple (fun s => s.trees = T) (insertLastIndexedBlockNumHash env lastIndexed)
      (fun _ s => s.trees = { T with latest := some lastIndexed }) (fun _ s => s.trees = T) :=
  treeWrite_trees _ (fun T => { T with latest := some lastIndexed }) fun _ => rfl

lemma writeBlockNumHashBatch_trees (blockHashes : List BlockNumHash) :
    Triple (fun s => s.trees = T) (writeBlockNumHashBatch env blockHashes)
      (fun _ s => s.trees = { T with
        hashes := T.hashes.applyBatch (blockHashes.map fun b => (b.number, b.hash)) })
      (fun _ s => s.trees = T) :=
  treeWrite_trees _ (fun T => { T with
    hashes := T.hashes.applyBatch (blockHashes.map fun b => (b.number, b.hash)) }) fun _ => rfl

/-! ### The chunk loop -/

/-- The chunk loop passes on what every chunk passes on, up to the block before the next one. -/
theorem syncLoop_induct {I : Nat → IndexerState → Prop}
    {E : Failure IndexerError → IndexerState → Prop} {u m : Nat}
    (hchunk : ∀ first last, first ≤ last + 1 → last ≤ u →
      Triple (I first) (self.indexRange env it fuel first last) (fun _ => I (last + 1)) E)
    (hstop : ∀ k e s, I k s → E e s) (chunks first : Nat) :
    Triple (I first) (self.syncLoop env it fuel u m chunks first) (fun _ s => ∃ k, I k s) E := by
  induction chunks generalizing first with
  | zero => exact Triple.throw fun s hs => hstop first _ s hs
  | succ chunks ih =>
    unfold syncLoop
    refine Triple.ite (fun hle => ?_) fun _ => Triple.pure fun _ hs => ⟨first, hs⟩
    refine Triple.bind ((checkedAdd_returns first m).mono_error (hstop first)) fun bound =>
      Triple.of_fact ?_
    rintro rfl
    refine Triple.bind ((checkedSub_returns _ 1).mono_error (hstop first)) fun chunkEnd =>
      Triple.of_fact ?_
    rintro rfl
    have hto : first ≤ min (first + m - 1) u + 1 := by omega
    have htou : min (first + m - 1) u ≤ u := Nat.min_le_right _ _
    generalize min (first + m - 1) u = currentTo at hto htou
    refine Triple.bind (hchunk first currentTo hto htou) fun _ => ?_
    refine Triple.ite (fun _ => Triple.pure fun _ hs => ⟨_, hs⟩) fun _ => ?_
    refine Triple.bind ((checkedAdd_returns currentTo 1).mono_error (hstop _)) fun next =>
      Triple.of_fact ?_
    rintro rfl
    exact ih (currentTo + 1)

end Indexer

end AssertionExecution
