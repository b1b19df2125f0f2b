import AssertionExecution.Model.Chain
import AssertionExecution.Proofs.IndexerTrees

/-!
# Detecting a reorganisation

Both walks over parent hashes, on a node that serves one chain. A hash identifies its block
and with it every block below, so equal hashes mean equal chains up to that block.
-/

namespace AssertionExecution

open EffectLogic

namespace Chain

variable {blockOf : B256 → Option Block} {chain chain' : Chain blockOf}

lemma exists_parent {n : Nat} {b : Block} (h : chain.blocks[n + 1]? = some b) :
    ∃ p, chain.blocks[n]? = some p ∧ b.header.parentHash = p.header.hash := by
  have hlt := (List.getElem?_eq_some_iff.mp h).1
  have hp := List.getElem?_eq_getElem (Nat.lt_of_succ_lt hlt)
  exact ⟨_, hp, chain.linked n _ b hp h⟩

lemma eq_of_hash_eq {n m : Nat} {b b' : Block} (h : chain.blocks[n]? = some b)
    (h' : chain'.blocks[m]? = some b') (heq : b.header.hash = b'.header.hash) : n = m ∧ b = b' := by
  have hknown := chain.known b (List.mem_of_getElem? h)
  rw [heq, chain'.known b' (List.mem_of_getElem? h')] at hknown
  cases hknown
  exact ⟨(chain.numbered n _ h).symm.trans (chain'.numbered m _ h'), rfl⟩

/-- Equal hashes mean equal chains up to the block. -/
theorem agree_of_hash_eq {n : Nat} {b b' : Block} (h : chain.blocks[n]? = some b)
    (h' : chain'.blocks[n]? = some b') (heq : b.header.hash = b'.header.hash) :
    chain.Agree chain' (n + 1) := by
  obtain ⟨-, rfl⟩ := eq_of_hash_eq h h' heq
  induction n generalizing b with
  | zero =>
    intro k hk
    obtain rfl : k = 0 := by omega
    rw [h, h']
  | succ n ih =>
    obtain ⟨p, hp, hparent⟩ := exists_parent h
    obtain ⟨p', hp', hparent'⟩ := exists_parent h'
    have hpp : p.header.hash = p'.header.hash := hparent.symm.trans hparent'
    obtain ⟨-, rfl⟩ := eq_of_hash_eq hp hp' hpp
    intro k hk
    rcases Nat.lt_succ_iff_lt_or_eq.mp hk with hk | rfl
    · exact ih hp hp' rfl k hk
    · rw [h, h']

end Chain

/-- The block hashes tree holds the chain's hash for a number. -/
def Contents.Knows {blockOf : B256 → Option Block} (c : Contents) (chain : Chain blockOf)
    (n : Nat) : Prop :=
  ∃ b, chain.blocks[n]? = some b ∧ c.hashes.get n = some b.header.hash

def Failure.Reported {E : Type} (f : Failure E) : Prop := ∃ e, f = .error e

namespace Indexer

variable {env : Env} {c : Contents} {blockOf : B256 → Option Block} {chain : Chain blockOf}
  {tag : BlockTag} {awaited : Nat → Nat} {u fuel : Nat} {b : Block}

lemma request_parent_spec (hserves : ∀ t, (env.node t).Serves chain tag (awaited t))
    (hb : chain.blocks[u]? = some b) (e : IndexerError) :
    Triple (fun s => s.contents = c) (request env (·.getBlockByHash b.header.parentHash) e)
      (fun r s => (match u with
        | 0 => r = none
        | u + 1 => ∃ p, chain.blocks[u]? = some p ∧ r = some p.header ∧
          b.header.parentHash = p.header.hash) ∧ s.contents = c)
      (fun _ _ => env.Disturbed) := by
  refine (request_spec _ _).consequence (fun _ h => h) ?_ fun _ _ h => h
  rintro r s ⟨hs, t, rfl⟩
  refine ⟨?_, hs⟩
  cases u with
  | zero => exact (hserves t).unknown _ (chain.genesis b hb)
  | succ u =>
    obtain ⟨p, hp, hparent⟩ := Chain.exists_parent hb
    exact ⟨p, hp, by rw [hparent, (hserves t).getBlockByHash p (List.mem_of_getElem? hp)], hparent⟩

/-! ### Comparing the last indexed block -/

lemma checkIfReorgedLoop_spec (hserves : ∀ t, (env.node t).Serves chain tag (awaited t))
    (lastIndexed : BlockNumHash) (hb : chain.blocks[u]? = some b) :
    Triple (fun s => s.contents = c) (checkIfReorgedLoop env lastIndexed fuel b.header.parentHash)
      (fun r s => (lastIndexed.number < u ∧ ∃ b', chain.blocks[lastIndexed.number]? = some b' ∧
        r = decide (b'.header.hash ≠ lastIndexed.hash)) ∧ s.contents = c)
      (fun f _ => env.Disturbed ∨ fuel ≤ u ∨ u ≤ lastIndexed.number ∧ f.Reported) := by
  induction u generalizing b fuel with
  | zero =>
    cases fuel with
    | zero => exact Triple.throw fun _ _ => Or.inr (Or.inl (Nat.le_refl 0))
    | succ fuel =>
      refine Triple.bind ((request_parent_spec hserves hb _).mono_error fun _ _ h => Or.inl h)
        fun r => Triple.of_fact ?_
      rintro rfl
      exact Triple.throw fun _ _ => Or.inr (Or.inr ⟨Nat.zero_le _, _, rfl⟩)
  | succ u ih =>
    cases fuel with
    | zero => exact Triple.throw fun _ _ => Or.inr (Or.inl (Nat.zero_le _))
    | succ fuel =>
      refine Triple.bind ((request_parent_spec hserves hb _).mono_error fun _ _ h => Or.inl h)
        fun r => Triple.of_fact ?_
      rintro ⟨p, hp, rfl, -⟩
      rw [okOr, pure_bind, chain.numbered u p hp]
      refine Triple.ite (fun hne => ?_) fun heq => ?_
      · refine (ih hp).consequence (fun _ h => h) ?_ ?_
        · rintro r s ⟨⟨hlt, hr⟩, hs⟩
          exact ⟨⟨Nat.lt_succ_of_lt hlt, hr⟩, hs⟩
        · rintro f - (h | h | h)
          · exact Or.inl h
          · exact Or.inr (Or.inl (Nat.succ_le_succ h))
          · exact Or.inr (Or.inr ⟨Nat.lt_of_le_of_ne h.1 hne, h.2⟩)
      · have hnumber : u = lastIndexed.number := not_not.mp heq
        refine Triple.pure fun s hs => ⟨⟨?_, p, ?_, rfl⟩, hs⟩
        · rw [← hnumber]
          exact Nat.lt_succ_self u
        · rw [← hnumber]
          exact hp

/-- Whether the chain has another block at the last indexed number. -/
theorem checkIfReorged_spec (hserves : ∀ t, (env.node t).Serves chain tag (awaited t))
    (lastIndexed : BlockNumHash) (hb : chain.blocks[u]? = some b) :
    Triple (fun s => s.contents = c) (checkIfReorged env fuel b.updateBlock lastIndexed)
      (fun r s => (lastIndexed.number ≤ u ∧ ∃ b', chain.blocks[lastIndexed.number]? = some b' ∧
        r = decide (b'.header.hash ≠ lastIndexed.hash)) ∧ s.contents = c)
      (fun f _ => env.Disturbed ∨ fuel ≤ u ∨ u < lastIndexed.number ∧ f.Reported) := by
  have hnumber := chain.numbered u b hb
  unfold checkIfReorged Block.updateBlock
  refine Triple.ite (fun heq => ?_) fun hne => ?_
  · have hu : lastIndexed.number = u := heq.symm.trans hnumber
    refine Triple.pure fun s hs => ⟨⟨hu.le, b, ?_, rfl⟩, hs⟩
    rw [hu]
    exact hb
  · refine (checkIfReorgedLoop_spec hserves lastIndexed hb).consequence (fun _ h => h) ?_ ?_
    · rintro r s ⟨⟨hlt, hr⟩, hs⟩
      exact ⟨⟨Nat.le_of_lt hlt, hr⟩, hs⟩
    · rintro f - (h | h | h)
      · exact Or.inl h
      · exact Or.inr (Or.inl h)
      · exact Or.inr (Or.inr
          ⟨Nat.lt_of_le_of_ne h.1 fun hu => hne (hnumber.trans hu), h.2⟩)

/-! ### Finding the common ancestor -/

/-- Above every block that the trees know lies one they have no hash for. -/
def Hidden (chain : Chain blockOf) (c : Contents) (u : Nat) : Prop :=
  ∀ r, r < u → c.Knows chain r → ∃ j, r < j ∧ j < u ∧ c.hashes.get j = none

lemma Hidden.succ (h : Hidden chain c u) (hu : ¬c.Knows chain u) : Hidden chain c (u + 1) := by
  intro r hr hknows
  have hne : r ≠ u := by
    rintro rfl
    exact hu hknows
  obtain ⟨j, hrj, hju, hj⟩ := h r (by omega) hknows
  exact ⟨j, hrj, Nat.lt_succ_of_lt hju, hj⟩

/-- The walk ends at the highest block below the update block that the trees know. -/
theorem findCommonAncestor_spec (hserves : ∀ t, (env.node t).Serves chain tag (awaited t))
    (hb : chain.blocks[u]? = some b) :
    Triple (fun s => s.contents = c) (findCommonAncestor env fuel b.header.parentHash)
      (fun r s => (r < u ∧ c.Knows chain r ∧ ∀ j, r < j → j < u → ¬c.Knows chain j) ∧
        s.contents = c)
      (fun f _ => env.Disturbed ∨ fuel ≤ u ∨ Hidden chain c u ∧ f.Reported) := by
  induction u generalizing b fuel with
  | zero =>
    cases fuel with
    | zero => exact Triple.throw fun _ _ => Or.inr (Or.inl (Nat.le_refl 0))
    | succ fuel =>
      refine Triple.bind ((request_parent_spec hserves hb _).mono_error fun _ _ h => Or.inl h)
        fun r => Triple.of_fact ?_
      rintro rfl
      exact Triple.throw fun _ _ =>
        Or.inr (Or.inr ⟨fun r hr => absurd hr (Nat.not_lt_zero r), _, rfl⟩)
  | succ u ih =>
    cases fuel with
    | zero => exact Triple.throw fun _ _ => Or.inr (Or.inl (Nat.zero_le _))
    | succ fuel =>
      refine Triple.bind ((request_parent_spec hserves hb _).mono_error fun _ _ h => Or.inl h)
        fun r => Triple.of_fact ?_
      rintro ⟨p, hp, rfl, -⟩
      rw [okOr, pure_bind, chain.numbered u p hp]
      refine Triple.bind ((treeOperation_spec (P := fun r c' => r = c.hashes.get u ∧ c' = c) _
        (by rintro s rfl; exact ⟨rfl, rfl⟩)).mono_error fun _ _ h => Or.inl h)
        fun stored => Triple.of_fact ?_
      rintro rfl
      have hunknown : c.hashes.get u ≠ some p.header.hash → ¬c.Knows chain u := by
        rintro hne ⟨p', hp', hstored⟩
        rw [hp] at hp'
        cases hp'
        exact hne hstored
      cases hstored : c.hashes.get u with
      | none =>
        refine Triple.throw fun _ _ =>
          Or.inr (Or.inr ⟨fun r hr hknows => ⟨u, ?_, Nat.lt_succ_self u, hstored⟩, _, rfl⟩)
        have hne : r ≠ u := by
          rintro rfl
          exact hunknown (by simp [hstored]) hknows
        omega
      | some hash =>
        refine Triple.ite (fun heq => ?_) fun hne => ?_
        · refine Triple.pure fun s hs =>
            ⟨⟨Nat.lt_succ_self u, ⟨p, hp, by rw [hstored, heq]⟩, ?_⟩, hs⟩
          intro j hj hju
          omega
        · have hu := hunknown (by simpa [hstored] using hne)
          refine (ih hp).consequence (fun _ h => h) ?_ ?_
          · rintro r s ⟨⟨hlt, hknows, habove⟩, hs⟩
            refine ⟨⟨Nat.lt_succ_of_lt hlt, hknows, fun j hj hju => ?_⟩, hs⟩
            rcases Nat.lt_succ_iff_lt_or_eq.mp hju with hju | rfl
            · exact habove j hj hju
            · exact hu
          · rintro f - (h | h | h)
            · exact Or.inl h
            · exact Or.inr (Or.inl (Nat.succ_le_succ h))
            · exact Or.inr (Or.inr ⟨h.1.succ hu, h.2⟩)

end Indexer

end AssertionExecution
