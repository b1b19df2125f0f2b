import AssertionExecution.Proofs.StoreRecords

/-!
# Batches and single modifications

A batch is grouped by adopter in a hash map, and the groups are applied in the order the map
yields them. The same modifications applied as batches of one leave the same content.
-/

namespace AssertionExecution

open EffectLogic FirstMatch

namespace AssertionStore

variable {fault : Nat → Bool} {d : OrderedTree Address (List AssertionState)}

def applyOneByOne (fault : Nat → Bool) (it : Iteration) (fuel : Nat) :
    List PendingModification → StoreM Unit
  | [] => pure ()
  | m :: ms => do
    applyPendingModifications fault it fuel [m]
    applyOneByOne fault it fuel ms

lemma applyOneByOne_spec (it : Iteration) (fuel : Nat) (ms : List PendingModification) :
    Triple (fun s => s.db = d) (applyOneByOne fault it fuel ms) (fun _ s => s.db = applyAll d ms)
      (fun _ _ => (∃ t, fault t = true) ∨ fuel = 0) := by
  induction ms generalizing d with
  | nil => exact Triple.pure fun s hs => hs
  | cons m ms ih =>
    apply Triple.bind (applyPendingModifications_spec it fuel [m])
    intro _
    exact ih

/-! ### Other records -/

lemma assertions_applyOne (m : PendingModification) (adopter : Address) :
    assertions (applyOne d m) adopter =
      if adopter = m.assertionAdopter then applyModification (assertions d adopter) m
      else assertions d adopter := by
  by_cases h : adopter = m.assertionAdopter <;> simp [assertions, applyOne, h]

lemma applyModification_remove_unknown {l : List AssertionState} {id : B256}
    (h : records id l = []) (adopter : Address) (inactiveAt logIndex : Nat) :
    applyModification l (.remove adopter id inactiveAt logIndex) = l := by
  change modifyFirstOrAppend _ _ [] l = l
  rw [modifyFirstOrAppend_eq_append, List.append_nil]
  intro a ha
  have hnot := List.filter_eq_nil_iff.mp h a ha
  simpa using hnot

/-- The removal of an assertion that is unknown by then can be left out of a list. -/
lemma assertions_applyAll_remove_unknown {earlier later : List PendingModification}
    {adopter : Address} {id : B256}
    (h : records id (assertions (applyAll d earlier) adopter) = []) (inactiveAt logIndex : Nat)
    (a : Address) :
    assertions (applyAll d (earlier ++ .remove adopter id inactiveAt logIndex :: later)) a =
      assertions (applyAll d (earlier ++ later)) a := by
  have hskip : assertions (applyOne (applyAll d earlier)
      (.remove adopter id inactiveAt logIndex)) a = assertions (applyAll d earlier) a := by
    rw [assertions_applyOne]
    by_cases ha : a = adopter
    · subst ha
      exact (if_pos rfl).trans (applyModification_remove_unknown h _ _ _)
    · exact if_neg ha
  calc assertions (applyAll d (earlier ++ .remove adopter id inactiveAt logIndex :: later)) a
      = assertions (applyAll (applyOne (applyAll d earlier)
          (.remove adopter id inactiveAt logIndex)) later) a := by
        rw [applyAll_append]
        rfl
    _ = assertions (applyAll (applyAll d earlier) later) a := by
        rw [assertions_applyAll, hskip, ← assertions_applyAll]
    _ = assertions (applyAll d (earlier ++ later)) a := by
        rw [applyAll_append]

/-! ### The batch -/

/-- A batch leaves what its modifications leave one by one, whatever the order of its groups, and
both return if no tree operation fails. The records of an assertion come from its own modifications
alone, and the removal of an assertion that is unknown by then changes no record. -/
theorem batch_applied_in_order (s : AssertionStore) (ms : List PendingModification) :
    (∀ (fault : Nat → Bool) (it : Iteration) (fuel : Nat), (∀ t, fault t = false) → fuel ≠ 0 →
      (∃ s', exec (applyPendingModifications fault it fuel ms) s = (.ok (), s')) ∧
      ∃ s', exec (applyOneByOne fault it fuel ms) s = (.ok (), s')) ∧
    ∀ (fault : Nat → Bool) (it : Iteration) (fuel : Nat) (s' : AssertionStore),
      exec (applyPendingModifications fault it fuel ms) s = (.ok (), s') →
      (∀ (fault : Nat → Bool) (it : Iteration) (fuel : Nat) (s'' : AssertionStore),
        exec (applyOneByOne fault it fuel ms) s = (.ok (), s'') → s'.db = s''.db) ∧
      (∀ adopter id, records id (assertions s'.db adopter) =
        (forId id (forAdopter adopter ms)).foldl applyModification
          (records id (assertions s.db adopter))) ∧
      ∀ (earlier later : List PendingModification) (adopter : Address) (id : B256)
        (inactiveAt logIndex : Nat),
        ms = earlier ++ .remove adopter id inactiveAt logIndex :: later →
        records id (assertions (applyAll s.db earlier) adopter) = [] →
        ∀ a, assertions s'.db a = assertions (applyAll s.db (earlier ++ later)) a := by
  constructor
  · intro fault it fuel hcalm hfuel
    have hnot : ¬((∃ t, fault t = true) ∨ fuel = 0) := by
      rintro (⟨t, ht⟩ | hzero)
      · rw [hcalm t] at ht
        cases ht
      · exact hfuel hzero
    obtain ⟨_, s', hbatch, -⟩ :=
      (applyPendingModifications_spec (d := s.db) it fuel ms).exists_ok rfl fun _ _ => hnot
    obtain ⟨_, s'', hsingle, -⟩ :=
      (applyOneByOne_spec (d := s.db) it fuel ms).exists_ok rfl fun _ _ => hnot
    exact ⟨⟨s', hbatch⟩, s'', hsingle⟩
  · intro fault it fuel s' hbatch
    have hdb : s'.db = applyAll s.db ms :=
      (applyPendingModifications_spec it fuel ms).ok rfl hbatch
    refine ⟨?_, ?_, ?_⟩
    · intro fault it fuel s'' hsingle
      have hdb' : s''.db = applyAll s.db ms := (applyOneByOne_spec it fuel ms).ok rfl hsingle
      rw [hdb, hdb']
    · intro adopter id
      rw [hdb, records_applyAll]
    · intro earlier later adopter id inactiveAt logIndex hms hunknown a
      rw [hdb, hms]
      exact assertions_applyAll_remove_unknown hunknown inactiveAt logIndex a

/-- Additions and removals for two adopters, one of them of an unknown assertion. -/
def mixedModifications : List PendingModification :=
  [.add 7 ⟨9, [], 0, ∅, {}⟩ .default 5 0, .remove 8 9 6 1, .add 8 ⟨9, [], 0, ∅, {}⟩ .default 7 2,
    .remove 7 9 8 3]

theorem batch_applied_in_order_mixed :
    ∃ s' s'', exec (applyPendingModifications (fun _ => false) .buckets 1 mixedModifications)
        .newEphemeral = (.ok (), s') ∧
      exec (applyOneByOne (fun _ => false) .buckets 1 mixedModifications) .newEphemeral =
        (.ok (), s'') ∧
      s'.db = s''.db ∧ (records 9 (assertions s'.db 8)).map (·.inactiveAtBlock) = [none] := by
  have h := batch_applied_in_order .newEphemeral mixedModifications
  obtain ⟨⟨s', hbatch⟩, s'', hsingle⟩ :=
    h.1 (fun _ => false) .buckets 1 (fun _ => rfl) Nat.one_ne_zero
  obtain ⟨hdb, hrecords, -⟩ := h.2 _ _ _ s' hbatch
  refine ⟨s', s'', hbatch, hsingle, hdb _ _ _ s'' hsingle, ?_⟩
  rw [hrecords]
  decide

end AssertionStore

end AssertionExecution
