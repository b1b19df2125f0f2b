import AssertionExecution.Proofs.IndexRange

/-!
# Moves that fail

`move_pending_modifications_to_store` takes everything up to its bound out of the trees
before it writes to the store. Whatever it fails on later, the modifications are gone.
-/

namespace AssertionExecution

open EffectLogic

namespace AssertionStore

variable {d : OrderedTree Address (List AssertionState)} {fault : Nat → Bool}
  {ms : List PendingModification}

lemma insert_group_eq (h : applyAll d ms = d) {it : Iteration} {adopter : Address}
    {group : List PendingModification}
    (hgroup : (adopter, group) ∈ HashMap.iter it (groupByAdopter ms)) :
    d.insert adopter (group.foldl applyModification (assertions d adopter)) = d := by
  have hlookup := (HashMap.mem_iter_iff it _ _ _).mp hgroup
  rw [lookup_groupByAdopter] at hlookup
  split_ifs at hlookup with hnil
  cases hlookup
  apply OrderedTree.ext_get
  intro a
  rw [OrderedTree.get_insert]
  split_ifs with ha
  · subst ha
    have hget := get_applyAll (d := d) ms a
    rw [h, if_neg hnil] at hget
    exact hget.symm
  · rfl

lemma applyGroups_keeps (fuel : Nat) (groups : List (Address × List PendingModification))
    (h : ∀ g ∈ groups, d.insert g.1 (g.2.foldl applyModification (assertions d g.1)) = d) :
    Keeps (fun s => s.db = d) (applyGroups fault fuel groups) := by
  induction groups with
  | nil => exact Keeps.pure ()
  | cons g groups ih =>
    refine Keeps.bind ((applyPendingModification_spec g.1 g.2 fuel).consequence (fun _ h => h)
      (fun _ s hs => ?_) fun _ _ h => h.1) fun _ =>
        ih fun g' hg' => h g' (List.mem_cons_of_mem g hg')
    rw [hs]
    exact h g (List.mem_cons_self ..)

/-- Modifications that change nothing do not change anything on the way either. -/
theorem applyPendingModifications_keeps (it : Iteration) (fuel : Nat) (h : applyAll d ms = d) :
    Keeps (fun s => s.db = d) (applyPendingModifications fault it fuel ms) :=
  applyGroups_keeps fuel _ fun _ hg => insert_group_eq h hg

lemma applyPendingModifications_down (it : Iteration) (hms : ms ≠ []) (s : AssertionStore) :
    ∃ s', exec (applyPendingModifications (fun _ => true) it 1 ms) s =
      (.error (.error .sledError), s') ∧ s'.db = s.db := by
  obtain ⟨m, ms', rfl⟩ := List.exists_cons_of_ne_nil hms
  have hlookup := lookup_groupByAdopter (m :: ms') m.assertionAdopter
  have hcons : forAdopter m.assertionAdopter (m :: ms') =
      m :: forAdopter m.assertionAdopter ms' := by
    simp [forAdopter]
  rw [hcons, if_neg (List.cons_ne_nil _ _)] at hlookup
  have hmem := (HashMap.mem_iter_iff it _ _ _).mpr hlookup
  obtain ⟨g, groups, hgroups⟩ := List.exists_cons_of_ne_nil (List.ne_nil_of_mem hmem)
  unfold applyPendingModifications
  rw [hgroups]
  exact ⟨{ s with operations := s.operations + 1 }, rfl, rfl⟩

end AssertionStore

namespace Contents

/-- The modifications that a move up to a block takes out of the trees. -/
def toMove (c : Contents) (upperBound : Nat) : List PendingModification :=
  c.pendingIn (· < upperBound + 1)

/-- The modification was to be moved, and its adopter has everything that was. -/
def FullyApplied (c : Contents) (upperBound : Nat) (c' : Contents) (m : PendingModification) :
    Prop :=
  m ∈ c.toMove upperBound ∧ c'.db.get m.assertionAdopter =
    (AssertionStore.applyAll c.db (c.toMove upperBound)).get m.assertionAdopter

/-- Every modification that was pending up to the bound still is, under a key that has a block
hash, or it has been applied. -/
def KeepsModifications (c : Contents) (upperBound : Nat) (c' : Contents) : Prop :=
  ∀ n, n ≤ upperBound → ∀ ms, c.pending.get n = some ms → ∀ m ∈ ms,
    (∃ ms', c'.pending.get n = some ms' ∧ m ∈ ms' ∧ (c'.hashes.get n).isSome) ∨
      c.FullyApplied upperBound c' m

/-- Every modification pending up to the bound is to be moved, and moving them all would not
change the store. -/
def NothingToLose (c : Contents) (upperBound : Nat) : Prop :=
  (∀ n, n ≤ upperBound → ∀ ms, c.pending.get n = some ms → ∀ m ∈ ms, m ∈ c.toMove upperBound) ∧
    AssertionStore.applyAll c.db (c.toMove upperBound) = c.db

lemma mem_toMove {c : Contents} {upperBound : Nat} {m : PendingModification} :
    m ∈ c.toMove upperBound ↔ ∃ n ms, n ≤ upperBound ∧ (c.hashes.get n).isSome ∧
      c.pending.get n = some ms ∧ m ∈ ms := by
  unfold toMove pendingIn
  rw [List.mem_flatMap]
  constructor
  · rintro ⟨⟨n, hash⟩, he, hm⟩
    obtain ⟨he, hn⟩ := List.mem_filter.mp he
    have hhash := (OrderedTree.get_eq_some_iff _ n hash).mpr he
    cases hms : c.pending.get n with
    | none =>
      rw [hms] at hm
      exact (List.not_mem_nil hm).elim
    | some ms =>
      rw [hms] at hm
      exact ⟨n, ms, Nat.le_of_lt_succ (of_decide_eq_true hn), by rw [hhash]; rfl, hms, hm⟩
  · rintro ⟨n, ms, hn, hhash, hms, hm⟩
    obtain ⟨hash, hhash⟩ := Option.isSome_iff_exists.mp hhash
    refine ⟨(n, hash), List.mem_filter.mpr ⟨(OrderedTree.get_eq_some_iff _ n hash).mp hhash,
      decide_eq_true (Nat.lt_succ_of_le hn)⟩, ?_⟩
    rw [hms]
    exact hm

end Contents

namespace Indexer

variable {c : Contents}

def stateOf (c : Contents) : IndexerState :=
  ⟨c.hashes, c.latest, c.pending, ⟨c.db, 0⟩, 0, c.trace⟩

lemma move_keeps_db (env : Env) (it : Iteration) (fuel : Nat) {upperBound : Nat}
    (h : AssertionStore.applyAll c.db (c.toMove upperBound) = c.db) :
    Triple (fun s => s.contents = c) (movePendingModificationsToStore env it fuel upperBound)
      (fun _ s => s.contents.db = c.db) (fun _ s => s.contents.db = c.db) := by
  unfold movePendingModificationsToStore
  refine Triple.ite (fun _ => Triple.pure fun s hs => by rw [hs]) fun _ => ?_
  refine Triple.bind ((checkedAdd_returns upperBound 1).mono_error fun _ _ hs => by rw [hs])
    fun upTo => Triple.of_fact ?_
  rintro rfl
  have hkeeps : Keeps (fun s => s.contents.db = c.db) (pruneTo env (upperBound + 1)) :=
    pruneTo_keeps (P := fun c' => c'.db = c.db) _ (fun _ _ _ hc => hc) fun _ _ hc => hc
  refine Triple.bind (((pruneTo_spec (c := c) (upperBound + 1)).and hkeeps).consequence
    (fun s (hs : s.contents = c) => ⟨hs, by rw [hs]⟩) (fun _ _ h => h) fun _ _ h => h.2)
      fun ms => ?_
  rintro s ⟨⟨rfl, hs⟩, hdb⟩
  have happly : Keeps (fun s => s.contents.db = c.db) (onStore
      (AssertionStore.applyPendingModifications env.storeFault it fuel (c.toMove upperBound))) :=
    onStore_keeps fun _ hs => (AssertionStore.applyPendingModifications_keeps it fuel h).final hs
  exact (Keeps.ite (Keeps.pure ()) happly) s hdb

/-- An environment in which every step or every store operation may fail. -/
def failing (fault storeFault : Bool) : Env :=
  ⟨fun _ => Sample.genesisChain.node 0, fun _ => fault, fun _ => storeFault, Sample.services⟩

lemma failing_calm : ¬(failing false false).Disturbed :=
  Env.not_disturbed (fun _ => rfl) fun _ => rfl

lemma pruneTo_failing (fault storeFault storeFault' : Bool) (upTo : Nat) :
    pruneTo (failing fault storeFault) upTo = pruneTo (failing fault storeFault') upTo := by
  have hloop : ∀ fuel acc, pruneToLoop (failing fault storeFault) upTo fuel acc =
      pruneToLoop (failing fault storeFault') upTo fuel acc := by
    intro fuel
    induction fuel with
    | zero => exact fun _ => rfl
    | succ fuel ih =>
      intro acc
      unfold pruneToLoop
      simp only [ih]
      rfl
  unfold pruneTo
  simp only [hloop]

lemma move_fails_at_once (it : Iteration) (fuel : Nat) {upperBound : Nat} (hzero : upperBound ≠ 0)
    (hbound : upperBound + 1 ≤ u64Max) (s : IndexerState) :
    exec (movePendingModificationsToStore (failing true false) it fuel upperBound) s =
      (.error (.error .sledError), { s with steps := s.steps + 1 }) := by
  unfold movePendingModificationsToStore checkedAdd
  rw [if_neg hzero, if_pos hbound]
  rfl

/-- A move whose store is down empties the trees up to its bound and applies nothing. -/
lemma move_fails_in_store (it : Iteration) {upperBound : Nat} (hzero : upperBound ≠ 0)
    (hbound : upperBound + 1 ≤ u64Max) (s : IndexerState)
    (hmoves : s.contents.toMove upperBound ≠ []) :
    ∃ e s', exec (movePendingModificationsToStore (failing false true) it 1 upperBound) s =
      (.error (.error e), s') ∧ s'.contents = s.contents.prune (· < upperBound + 1) := by
  have hspec : Triple (fun s' => s'.contents = s.contents)
      (pruneTo (failing false false) (upperBound + 1))
      (fun ms s' => ms = s.contents.toMove upperBound ∧
        s'.contents = s.contents.prune (· < upperBound + 1))
      (fun _ _ => (failing false false).Disturbed) := pruneTo_spec _
  obtain ⟨ms, s₁, hprune, rfl, hs₁⟩ := hspec.exists_ok rfl fun _ _ => failing_calm
  rw [pruneTo_failing false false true] at hprune
  obtain ⟨store, happly, hdb⟩ := AssertionStore.applyPendingModifications_down it hmoves s₁.store
  obtain ⟨e, hfails, herror⟩ := exec_onStore_error happly
  rw [herror _ rfl] at hfails
  refine ⟨.assertionStoreError .sledError, { s₁ with store := store }, ?_, ?_⟩
  · unfold movePendingModificationsToStore checkedAdd
    rw [if_neg hzero, if_pos hbound, pure_bind, exec_bind, hprune]
    dsimp only
    rw [if_neg (by simpa [Contents.toMove] using hmoves)]
    exact hfails
  · rw [← hs₁]
    unfold IndexerState.contents
    rw [hdb]

/-- A failing move keeps every modification exactly if there is nothing to lose, or if it does
not get to move anything. -/
theorem failed_move_keeps_iff (upperBound : Nat) (c : Contents) :
    (∀ (env : Env) (it : Iteration) (fuel : Nat) (s s' : IndexerState) (e : IndexerError),
      s.contents = c →
      exec (movePendingModificationsToStore env it fuel upperBound) s = (.error (.error e), s') →
      c.KeepsModifications upperBound s'.contents) ↔
    upperBound = 0 ∨ u64Max ≤ upperBound ∨ c.NothingToLose upperBound := by
  constructor
  · intro h
    by_cases hzero : upperBound = 0
    · exact Or.inl hzero
    by_cases hbound : upperBound + 1 ≤ u64Max
    swap
    · exact Or.inr (Or.inl (by omega))
    refine Or.inr (Or.inr ⟨fun n hn ms hms m hm => ?_, ?_⟩)
    · have hfails := move_fails_at_once .buckets 1 hzero hbound (stateOf c)
      rcases h _ _ _ _ _ _ rfl hfails n hn ms hms m hm with ⟨ms', hms', hm', hhash⟩ | happlied
      · exact Contents.mem_toMove.mpr ⟨n, ms', hn, hhash, hms', hm'⟩
      · exact happlied.1
    · by_cases hnil : c.toMove upperBound = []
      · rw [hnil]
        rfl
      obtain ⟨e, s', hrun, hs'⟩ := move_fails_in_store .buckets hzero hbound (stateOf c) hnil
      have hkeeps := h _ .buckets 1 (stateOf c) s' e rfl hrun
      rw [hs'] at hkeeps
      apply OrderedTree.ext_get
      intro a
      by_cases ha : AssertionStore.forAdopter a (c.toMove upperBound) = []
      · rw [AssertionStore.get_applyAll, if_pos ha]
      · obtain ⟨m, hm⟩ := List.exists_mem_of_ne_nil _ ha
        obtain ⟨hm, hadopter⟩ := List.mem_filter.mp hm
        obtain ⟨n, ms, hn, hhash, hms, hmem⟩ := Contents.mem_toMove.mp hm
        rcases hkeeps n hn ms hms m hmem with ⟨-, -, -, hlisted⟩ | happlied
        · rw [Contents.prune, OrderedTree.get_restrict, if_neg (by simp; omega)] at hlisted
          cases hlisted
        · rw [← of_decide_eq_true hadopter]
          exact happlied.2.symm
  · rintro (rfl | hbound | ⟨hlisted, hsame⟩) env it fuel s s' e rfl hrun n hn ms hms m hm
    · cases hrun
    · unfold movePendingModificationsToStore checkedAdd at hrun
      rw [if_neg (fun hzero => by rw [hzero] at hbound; exact absurd hbound (by decide)),
        if_neg (by omega)] at hrun
      cases hrun
    · have hdb := move_keeps_db env it fuel hsame s rfl
      rw [hrun] at hdb
      refine Or.inr ⟨hlisted n hn ms hms m hm, ?_⟩
      rw [hsame]
      exact congrArg (·.get m.assertionAdopter) hdb

/-- An assertion that is pending for block 1. -/
def addedAssertion : PendingModification := .add 7 ⟨9, [], 0, ∅, {}⟩ .default 5 0

/-- Block 1 is indexed with the assertion, and nothing is stored. -/
def pendingAssertion : Contents :=
  ⟨OrderedTree.empty.insert 1 11, some ⟨1, 11⟩, OrderedTree.empty.insert 1 [addedAssertion], .empty,
    []⟩

/-- The store is down when the assertion is moved, and it is lost. -/
theorem unapplied_assertion_is_lost :
    ¬∀ (upperBound : Nat) (c : Contents) (env : Env) (it : Iteration) (fuel : Nat)
      (s s' : IndexerState) (e : IndexerError), s.contents = c →
      exec (movePendingModificationsToStore env it fuel upperBound) s = (.error (.error e), s') →
      c.KeepsModifications upperBound s'.contents := by
  intro h
  rcases h 1 pendingAssertion (failing false true) .buckets 1 (stateOf pendingAssertion) _ _ rfl rfl
    1 (Nat.le_refl 1) [addedAssertion] rfl addedAssertion (List.mem_singleton_self _)
    with ⟨ms, hms, -⟩ | ⟨-, happlied⟩
  · cases hms
  · cases happlied

end Indexer

end AssertionExecution
