import AssertionExecution.Proofs.StoreContents

/-!
# The records of one assertion

A modification touches the records of its own assertion id only, and no operation ever
gives an adopter two records with one id.
-/

namespace AssertionExecution

open EffectLogic FirstMatch

/-- What a modification does to the record of its assertion. -/
def PendingModification.update : PendingModification → AssertionState → AssertionState
  | .add _ _ _ activeAtBlock _, a => { a with activeAtBlock := activeAtBlock }
  | .remove _ _ inactiveAtBlock _, a => { a with inactiveAtBlock := some inactiveAtBlock }

/-- What a modification appends where its assertion has no record. -/
def PendingModification.fresh : PendingModification → List AssertionState
  | .add _ assertionContract triggerRecorder activeAtBlock _ =>
    [⟨activeAtBlock, none, assertionContract, triggerRecorder⟩]
  | .remove .. => []

namespace AssertionStore

abbrev isOf (id : B256) (a : AssertionState) : Bool := decide (a.assertionContractId = id)

lemma applyModification_eq (l : List AssertionState) (m : PendingModification) :
    applyModification l m =
      modifyFirstOrAppend (isOf m.assertionContractId) m.update m.fresh l := by
  cases m <;> rfl

lemma isOf_update (m : PendingModification) (id : B256) (a : AssertionState) :
    isOf id (m.update a) = isOf id a := by
  cases m <;> rfl

lemma isOf_fresh (m : PendingModification) {a : AssertionState} (ha : a ∈ m.fresh) :
    isOf m.assertionContractId a = true := by
  cases m with
  | add =>
    rw [List.mem_singleton.mp ha]
    exact decide_eq_true rfl
  | remove => exact absurd ha List.not_mem_nil

lemma length_fresh_le_one (m : PendingModification) : m.fresh.length ≤ 1 := by
  cases m with
  | add => exact le_refl 1
  | remove => exact Nat.zero_le 1

lemma isOf_other {id id' : B256} (h : id' ≠ id) {a : AssertionState} (ha : isOf id' a = true) :
    isOf id a = false :=
  decide_eq_false fun heq => h ((of_decide_eq_true ha).symm.trans heq)

def records (id : B256) (l : List AssertionState) : List AssertionState :=
  l.filter (fun a => a.assertionContractId = id)

lemma records_applyModification (id : B256) (l : List AssertionState) (m : PendingModification) :
    records id (applyModification l m) =
      if m.assertionContractId = id then applyModification (records id l) m
      else records id l := by
  rw [applyModification_eq, applyModification_eq]
  by_cases h : m.assertionContractId = id
  · rw [if_pos h]
    subst h
    apply filter_modifyFirstOrAppend_same
    · exact fun a ha => (isOf_update m _ a).trans ha
    · exact fun a ha => isOf_fresh m ha
  · rw [if_neg h]
    apply filter_modifyFirstOrAppend_other
    · exact fun a ha => isOf_other h ha
    · exact fun a ha => (isOf_update m id a).trans (isOf_other h ha)
    · exact fun a ha => isOf_other h (isOf_fresh m ha)

def forId (id : B256) (ms : List PendingModification) : List PendingModification :=
  ms.filter (fun m => m.assertionContractId = id)

lemma records_foldl_applyModification (id : B256) (ms : List PendingModification)
    (l : List AssertionState) :
    records id (ms.foldl applyModification l) =
      (forId id ms).foldl applyModification (records id l) := by
  induction ms generalizing l with
  | nil => rfl
  | cons m ms ih =>
    rw [List.foldl_cons, ih, records_applyModification]
    by_cases h : m.assertionContractId = id <;> simp [forId, h]

/-- The records of an id after a whole history depend on the history of that id alone. -/
theorem records_applyAll (d : OrderedTree Address (List AssertionState)) (id : B256)
    (adopter : Address) (ms : List PendingModification) :
    records id (assertions (applyAll d ms) adopter) =
      (forId id (forAdopter adopter ms)).foldl applyModification
        (records id (assertions d adopter)) := by
  rw [assertions_applyAll, records_foldl_applyModification]

/-! ### One record per assertion -/

/-- No adopter has two records with one id. -/
def UniqueRecords (d : OrderedTree Address (List AssertionState)) : Prop :=
  ∀ adopter id, (records id (assertions d adopter)).length ≤ 1

lemma uniqueRecords_empty : UniqueRecords .empty := fun _ _ => Nat.zero_le _

lemma uniqueRecords_insert {d : OrderedTree Address (List AssertionState)} (h : UniqueRecords d)
    (adopter : Address) (l : List AssertionState) (hl : ∀ id, (records id l).length ≤ 1) :
    UniqueRecords (d.insert adopter l) := by
  intro a id
  unfold assertions
  rw [OrderedTree.get_insert]
  by_cases ha : a = adopter
  · rw [if_pos ha]
    exact hl id
  · rw [if_neg ha]
    exact h a id

lemma length_records_update (f : AssertionState → AssertionState)
    (extra l : List AssertionState) (key : B256)
    (hf : ∀ a, isOf key a = true → isOf key (f a) = true) (hextra : ∀ a ∈ extra, isOf key a = true)
    (hlength : extra.length ≤ 1) (hl : ∀ id, (records id l).length ≤ 1) (id : B256) :
    (records id (modifyFirstOrAppend (isOf key) f extra l)).length ≤ 1 := by
  unfold records
  by_cases h : key = id
  · subst h
    rw [filter_modifyFirstOrAppend_same _ _ _ _ hf hextra]
    exact length_modifyFirstOrAppend_le_one _ _ _ _ (hl key)
      (fun a ha => (List.mem_filter.mp ha).2) hlength
  · have hkept := filter_modifyFirstOrAppend_other (isOf key) (isOf id) f extra l
      (fun a ha => isOf_other h ha) (fun a ha => isOf_other h (hf a ha))
      (fun a ha => isOf_other h (hextra a ha))
    rw [hkept]
    exact hl id

lemma length_records_applyModification (l : List AssertionState) (m : PendingModification)
    (hl : ∀ id, (records id l).length ≤ 1) (id : B256) :
    (records id (applyModification l m)).length ≤ 1 := by
  rw [applyModification_eq]
  apply length_records_update _ _ _ _ _ _ (length_fresh_le_one m) hl
  · exact fun a ha => (isOf_update m _ a).trans ha
  · exact fun a ha => isOf_fresh m ha

lemma length_records_foldl (ms : List PendingModification) (l : List AssertionState)
    (hl : ∀ id, (records id l).length ≤ 1) (id : B256) :
    (records id (ms.foldl applyModification l)).length ≤ 1 := by
  induction ms generalizing l with
  | nil => exact hl id
  | cons m ms ih => exact ih _ (length_records_applyModification l m hl)

lemma applyGroups_uniqueRecords (fault : Nat → Bool) (fuel : Nat)
    (groups : List (Address × List PendingModification)) :
    Triple (fun s => UniqueRecords s.db) (applyGroups fault fuel groups)
      (fun _ s => UniqueRecords s.db) (fun _ s => UniqueRecords s.db) := by
  induction groups with
  | nil => exact Triple.pure fun s hs => hs
  | cons g groups ih =>
    refine Triple.bind (R := fun _ s => UniqueRecords s.db) ?_ (fun _ => ih)
    refine Triple.of_forall fun s₀ hs₀ => ?_
    refine (applyPendingModification_spec (d := s₀.db) g.1 g.2 fuel).consequence
      (fun s hs => by rw [hs]) ?_ ?_
    · intro _ s hs
      rw [hs]
      exact uniqueRecords_insert hs₀ _ _ (length_records_foldl _ _ (hs₀ g.1))
    · intro _ s hs
      rw [hs.1]
      exact hs₀

lemma insert_uniqueRecords (fault : Nat → Bool) (adopter : Address) (assertion : AssertionState) :
    Triple (fun s => UniqueRecords s.db) (insert fault adopter assertion)
      (fun _ s => UniqueRecords s.db) (fun _ s => UniqueRecords s.db) := by
  refine Triple.of_forall fun s₀ hs₀ => ?_
  refine Triple.bind (R := fun r s => r = s₀.db.get adopter ∧ s.db = s₀.db)
    ((dbGet_spec adopter s₀).consequence (fun _ h => h) (fun _ _ h => h)
      (fun _ s h => by rw [h.2.2]; exact hs₀)) ?_
  intro r
  rintro s ⟨rfl, hs⟩
  have hunique : UniqueRecords s.db := by
    rw [hs]
    exact hs₀
  dsimp only
  rw [exec_bind]
  unfold dbInsert
  rw [exec_bind, exec_operation]
  cases fault s.operations
  · refine uniqueRecords_insert hunique _ _ (length_records_update _ _ _
      assertion.assertionContractId (fun a ha => decide_eq_true rfl) ?_ (le_refl 1) ?_)
    · intro a ha
      rw [List.mem_singleton.mp ha]
      exact decide_eq_true rfl
    · exact hs₀ adopter
  · exact hunique

end AssertionStore

/-- The stores that inserts and batches of modifications, failed ones included, lead to. -/
inductive AssertionStore.Reachable : AssertionStore → Prop where
  | newEphemeral : Reachable .newEphemeral
  | insert {s : AssertionStore} (fault : Nat → Bool) (adopter : Address)
      (assertion : AssertionState) (h : Reachable s) :
      Reachable (exec (AssertionStore.insert fault adopter assertion) s).2
  | applyPendingModifications {s : AssertionStore} (fault : Nat → Bool) (it : Iteration)
      (fuel : Nat) (ms : List PendingModification) (h : Reachable s) :
      Reachable (exec (AssertionStore.applyPendingModifications fault it fuel ms) s).2

theorem AssertionStore.Reachable.uniqueRecords {s : AssertionStore} (h : s.Reachable) :
    UniqueRecords s.db := by
  induction h with
  | newEphemeral => exact uniqueRecords_empty
  | insert fault adopter assertion _ ih =>
    exact (insert_uniqueRecords fault adopter assertion).final ih
  | applyPendingModifications fault it fuel ms _ ih =>
    exact (applyGroups_uniqueRecords fault fuel (HashMap.iter it (groupByAdopter ms))).final ih

end AssertionExecution
