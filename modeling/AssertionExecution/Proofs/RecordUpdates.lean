import AssertionExecution.Proofs.StoreRecords

/-!
# Updates of the only record

No adopter has two records of one assertion, so the first record that a lookup meets is the only
one, and an update changes nothing but that record.
-/

namespace AssertionExecution

open EffectLogic FirstMatch

namespace AssertionStore

/-- The record that a lookup by id meets first. -/
def firstRecord (id : B256) (l : List AssertionState) : Option AssertionState :=
  l.find? fun a => a.assertionContractId = id

lemma firstRecord_id {id : B256} {l : List AssertionState} {a : AssertionState}
    (h : firstRecord id l = some a) : decide (a.assertionContractId = id) = true := by
  have hmatch := List.find?_some h
  exact hmatch

/-- The only record of an id is updated where it is, or there is none and records are appended. -/
structure UpdatesOnly (id : B256) (f : AssertionState → AssertionState)
    (fresh l l' : List AssertionState) : Prop where
  found : ∀ a, firstRecord id l = some a → ∃ before after, l = before ++ a :: after ∧
    records id before = [] ∧ records id after = [] ∧ l' = before ++ f a :: after
  absent : firstRecord id l = none → records id l = [] ∧ l' = l ++ fresh

lemma updatesOnly_modifyFirstOrAppend (id : B256) (f : AssertionState → AssertionState)
    (fresh : List AssertionState) {l : List AssertionState} (hl : (records id l).length ≤ 1) :
    UpdatesOnly id f fresh l
      (modifyFirstOrAppend (fun a => decide (a.assertionContractId = id)) f fresh l) := by
  constructor
  · intro a hfind
    obtain ⟨before, after, hsplit, hbefore, hmodify⟩ := modifyFirstOrAppend_of_find _ f fresh hfind
    refine ⟨before, after, hsplit, ?_, ?_, hmodify⟩
    · apply List.filter_eq_nil_iff.mpr
      exact fun b hb => Bool.eq_false_iff.mp (hbefore b hb)
    · rw [hsplit] at hl
      exact filter_after_eq_nil _ (firstRecord_id hfind) hl
  · intro hfind
    have hnone := List.find?_eq_none.mp hfind
    constructor
    · exact List.filter_eq_nil_iff.mpr hnone
    · apply modifyFirstOrAppend_eq_append
      exact fun a ha => Bool.eq_false_iff.mpr (hnone a ha)

lemma records_eq_firstRecord {id : B256} {l : List AssertionState}
    (hl : (records id l).length ≤ 1) : records id l = (firstRecord id l).toList := by
  have hupdates := updatesOnly_modifyFirstOrAppend id (fun a => a) [] hl
  cases hfind : firstRecord id l with
  | none => exact (hupdates.absent hfind).1
  | some a =>
    obtain ⟨before, after, hsplit, hbefore, hafter, -⟩ := hupdates.found a hfind
    have ha : records id (a :: after) = a :: records id after :=
      List.filter_cons_of_pos (firstRecord_id hfind)
    calc records id l = records id before ++ records id (a :: after) := by
          rw [hsplit]
          exact List.filter_append before (a :: after)
      _ = [a] := by rw [hbefore, ha, hafter, List.nil_append]

/-! ### Inserts -/

lemma assertions_insert (d : OrderedTree Address (List AssertionState)) (adopter : Address)
    (l : List AssertionState) : assertions (d.insert adopter l) adopter = l := by
  unfold assertions
  rw [OrderedTree.get_insert, if_pos rfl, Option.getD_some]

/-- An insert puts the assertion in the place of the only record of its id, and returns that
record. -/
lemma insert_spec {fault : Nat → Bool} {s₀ : AssertionStore} (hs₀ : UniqueRecords s₀.db)
    (adopter : Address) (assertion : AssertionState) :
    Triple (fun s => s = s₀) (insert fault adopter assertion)
      (fun previous s =>
        previous = firstRecord assertion.assertionContractId (assertions s₀.db adopter) ∧
        UpdatesOnly assertion.assertionContractId (fun _ => assertion) [assertion]
          (assertions s₀.db adopter) (assertions s.db adopter) ∧
        ∀ other, other ≠ adopter → s.db.get other = s₀.db.get other)
      (fun _ s => s.db = s₀.db) := by
  refine Triple.bind ((dbGet_spec adopter s₀).mono_error fun _ s h => h.2.2) fun r => ?_
  rintro s ⟨rfl, hs⟩
  dsimp only
  rw [exec_bind]
  unfold dbInsert
  rw [exec_bind, exec_operation]
  cases fault s.operations
  · have hunique := hs₀ adopter assertion.assertionContractId
    refine ⟨rfl, ?_, ?_⟩
    · change UpdatesOnly _ _ _ _ (assertions (s.db.insert adopter _) adopter)
      rw [assertions_insert]
      exact updatesOnly_modifyFirstOrAppend _ _ _ hunique
    · intro other hother
      change (s.db.insert adopter _).get other = _
      rw [OrderedTree.get_insert, if_neg hother, hs]
  · exact hs

/-! ### Modifications -/

/-- After any modifications the next one finds the only record of its assertion. -/
lemma updatesOnly_applyModification {l : List AssertionState}
    (hl : ∀ id, (records id l).length ≤ 1) (modifications : List PendingModification)
    (m : PendingModification) :
    UpdatesOnly m.assertionContractId m.update m.fresh (modifications.foldl applyModification l)
      (applyModification (modifications.foldl applyModification l) m) := by
  rw [applyModification_eq]
  exact updatesOnly_modifyFirstOrAppend _ _ _ (length_records_foldl modifications l hl _)

/-- Each adopter's list is as before, or its group was applied to it as a whole. -/
def WholeGroups (groups : List (Address × List PendingModification))
    (d d' : OrderedTree Address (List AssertionState)) : Prop :=
  ∀ adopter, d'.get adopter = d.get adopter ∨ ∃ modifications, (adopter, modifications) ∈ groups ∧
    d'.get adopter = some (modifications.foldl applyModification (assertions d adopter))

variable {fault : Nat → Bool} {d d' : OrderedTree Address (List AssertionState)}

lemma wholeGroups_cons {g : Address × List PendingModification}
    {groups : List (Address × List PendingModification)} (hg : g.1 ∉ groups.map Prod.fst)
    (h : WholeGroups groups (d.insert g.1 (g.2.foldl applyModification (assertions d g.1))) d') :
    WholeGroups (g :: groups) d d' := by
  intro adopter
  have hadopter := h adopter
  by_cases heq : adopter = g.1
  · apply Or.inr
    refine ⟨g.2, List.mem_cons.mpr (Or.inl (Prod.ext heq rfl)), ?_⟩
    cases hadopter with
    | inl hkept =>
      rw [hkept, OrderedTree.get_insert, if_pos heq, heq]
    | inr happlied =>
      obtain ⟨modifications, hmem, -⟩ := happlied
      exact absurd (heq ▸ List.mem_map_of_mem hmem) hg
  · unfold assertions at hadopter
    rw [OrderedTree.get_insert, if_neg heq] at hadopter
    apply hadopter.imp_right
    rintro ⟨modifications, hmem, hget⟩
    exact ⟨modifications, List.mem_cons_of_mem g hmem, hget⟩

lemma applyGroups_wholeGroups (groups : List (Address × List PendingModification))
    (hnodup : (groups.map Prod.fst).Nodup) (fuel : Nat) :
    Triple (fun s => s.db = d) (applyGroups fault fuel groups)
      (fun _ s => WholeGroups groups d s.db) (fun _ s => WholeGroups groups d s.db) := by
  induction groups generalizing d with
  | nil =>
    apply Triple.pure
    intro s hs adopter
    rw [hs]
    exact Or.inl rfl
  | cons g groups ih =>
    rw [List.map_cons, List.nodup_cons] at hnodup
    apply Triple.bind ((applyPendingModification_spec g.1 g.2 fuel).mono_error ?_)
    · intro _
      apply (ih hnodup.2).consequence (fun _ h => h)
      · exact fun _ _ h => wholeGroups_cons hnodup.1 h
      · exact fun _ _ h => wholeGroups_cons hnodup.1 h
    · intro _ s hs adopter
      rw [hs.1]
      exact Or.inl rfl

/-! ### Other records -/

def otherRecords (ids : List B256) (l : List AssertionState) : List AssertionState :=
  l.filter fun a => a.assertionContractId ∉ ids

lemma otherRecords_foldl (ids : List B256) (modifications : List PendingModification)
    (h : ∀ m ∈ modifications, m.assertionContractId ∈ ids) (l : List AssertionState) :
    otherRecords ids (modifications.foldl applyModification l) = otherRecords ids l := by
  induction modifications generalizing l with
  | nil => rfl
  | cons m modifications ih =>
    have hm : m.assertionContractId ∈ ids := h m List.mem_cons_self
    have hmatch : ∀ a : AssertionState, isOf m.assertionContractId a = true →
        decide (a.assertionContractId ∉ ids) = false := by
      intro a ha
      rw [of_decide_eq_true ha]
      exact decide_eq_false fun hnotMem => hnotMem hm
    rw [List.foldl_cons, ih fun m' hm' => h m' (List.mem_cons_of_mem m hm'), applyModification_eq]
    apply filter_modifyFirstOrAppend_other
    · exact hmatch
    · exact fun a ha => hmatch _ ((isOf_update m _ a).trans ha)
    · exact fun a ha => hmatch a (isOf_fresh m ha)

/-- A batch is applied to each adopter as a whole or not at all, and the records of the other
assertions stay, in their order. -/
structure KeepsOthers (modifications : List PendingModification)
    (d d' : OrderedTree Address (List AssertionState)) : Prop where
  adopters : ∀ adopter, d'.get adopter = d.get adopter ∨
    forAdopter adopter modifications ≠ [] ∧ d'.get adopter = some
      ((forAdopter adopter modifications).foldl applyModification (assertions d adopter))
  others : ∀ adopter ids,
    (∀ m ∈ forAdopter adopter modifications, m.assertionContractId ∈ ids) →
    otherRecords ids (assertions d' adopter) = otherRecords ids (assertions d adopter)

lemma keepsOthers_of_wholeGroups {it : Iteration} {modifications : List PendingModification}
    (h : WholeGroups (HashMap.iter it (groupByAdopter modifications)) d d') :
    KeepsOthers modifications d d' := by
  have hadopters : ∀ adopter, d'.get adopter = d.get adopter ∨
      forAdopter adopter modifications ≠ [] ∧ d'.get adopter = some
        ((forAdopter adopter modifications).foldl applyModification (assertions d adopter)) := by
    intro adopter
    apply (h adopter).imp_right
    rintro ⟨group, hmem, hget⟩
    rw [HashMap.mem_iter_iff, lookup_groupByAdopter] at hmem
    by_cases hnil : forAdopter adopter modifications = []
    · rw [if_pos hnil] at hmem
      exact (Option.some_ne_none group hmem.symm).elim
    · rw [if_neg hnil] at hmem
      obtain rfl := Option.some.inj hmem
      exact ⟨hnil, hget⟩
  constructor
  · exact hadopters
  · intro adopter ids hids
    cases hadopters adopter with
    | inl hkept =>
      unfold assertions
      rw [hkept]
    | inr happlied =>
      rw [assertions, happlied.2, Option.getD_some]
      exact otherRecords_foldl ids _ hids _

lemma applyPendingModifications_keepsOthers (s₀ : AssertionStore) (it : Iteration) (fuel : Nat)
    (modifications : List PendingModification) :
    Triple (fun s => s = s₀) (applyPendingModifications fault it fuel modifications)
      (fun _ s => s.db = applyAll s₀.db modifications ∧ KeepsOthers modifications s₀.db s.db)
      (fun _ s => KeepsOthers modifications s₀.db s.db) := by
  have hgroups := @applyGroups_wholeGroups fault s₀.db _
    (HashMap.iter_keys_nodup it (groupByAdopter modifications)) fuel
  apply ((applyPendingModifications_spec it fuel modifications).and hgroups).consequence
  · rintro s rfl
    exact ⟨rfl, rfl⟩
  · exact fun _ s h => ⟨h.1, keepsOthers_of_wholeGroups h.2⟩
  · exact fun _ s h => keepsOthers_of_wholeGroups h.2

/-! ### One record per assertion -/

/-- In every reachable store an adopter has at most one record of an assertion, so that every
lookup of an insert or of a modification finds the only one. An insert replaces and returns exactly
this record, a modification updates exactly this record, and all other records and the lists of
all other adopters stay, also when the operation fails. -/
theorem only_record_updated {s : AssertionStore} (h : s.Reachable) :
    (∀ adopter id, (records id (assertions s.db adopter)).length ≤ 1) ∧
    (∀ adopter (modifications : List PendingModification) id,
      records id (modifications.foldl applyModification (assertions s.db adopter)) =
        (firstRecord id
          (modifications.foldl applyModification (assertions s.db adopter))).toList) ∧
    (∀ fault adopter assertion,
      Triple (fun s' => s' = s) (insert fault adopter assertion)
        (fun previous s' =>
          previous = firstRecord assertion.assertionContractId (assertions s.db adopter) ∧
          UpdatesOnly assertion.assertionContractId (fun _ => assertion) [assertion]
            (assertions s.db adopter) (assertions s'.db adopter) ∧
          ∀ other, other ≠ adopter → s'.db.get other = s.db.get other)
        (fun _ s' => s'.db = s.db)) ∧
    (∀ adopter (modifications : List PendingModification) (m : PendingModification),
      UpdatesOnly m.assertionContractId m.update m.fresh
        (modifications.foldl applyModification (assertions s.db adopter))
        (applyModification (modifications.foldl applyModification (assertions s.db adopter)) m)) ∧
    ∀ fault it fuel modifications,
      Triple (fun s' => s' = s) (applyPendingModifications fault it fuel modifications)
        (fun _ s' => s'.db = applyAll s.db modifications ∧ KeepsOthers modifications s.db s'.db)
        (fun _ s' => KeepsOthers modifications s.db s'.db) := by
  have hunique := h.uniqueRecords
  refine ⟨hunique, ?_, ?_, ?_, ?_⟩
  · intro adopter modifications id
    exact records_eq_firstRecord (length_records_foldl modifications _ (hunique adopter) id)
  · exact fun fault adopter assertion => insert_spec hunique adopter assertion
  · exact fun adopter modifications m =>
      updatesOnly_applyModification (hunique adopter) modifications m
  · exact fun fault it fuel modifications =>
      applyPendingModifications_keepsOthers s it fuel modifications

/-- A second insert of assertion 9 for adopter 7. -/
theorem only_record_updated_replaced :
    let assertion (activeAtBlock : Nat) : AssertionState :=
      ⟨activeAtBlock, none, ⟨9, [], 0, ∅, {}⟩, ⟨∅⟩⟩
    let s := (exec (insert (fun _ => false) 7 (assertion 3)) newEphemeral).2
    let s' := (exec (insert (fun _ => false) 7 (assertion 5)) s).2
    UpdatesOnly 9 (fun _ => assertion 5) [assertion 5] (assertions s.db 7) (assertions s'.db 7) ∧
      assertions s.db 7 = [assertion 3] ∧ assertions s'.db 7 = [assertion 5] := by
  intro assertion s s'
  have hreachable : s.Reachable := .insert (fun _ => false) 7 (assertion 3) .newEphemeral
  have hinsert := (only_record_updated hreachable).2.2.1 (fun _ => false) 7 (assertion 5)
  exact ⟨(hinsert.ok rfl rfl).2.1, rfl, rfl⟩

end AssertionStore

end AssertionExecution
