import Mathlib.Data.Set.Finite.Basic
import AssertionExecution.Model.StoreAnswers
import AssertionExecution.Proofs.StoreContents

/-!
# How the retry loop ends

The loop goes round after every swap that does not happen. It ends at the first iteration
whose answers let the swap happen or do not let it come to a swap.
-/

namespace AssertionExecution

open AssertionStore EffectLogic

namespace IterationAnswers

def Swaps (a : IterationAnswers) (result : CompareAndSwapResult) : Prop :=
  (∃ assertions, a.get = .ok assertions) ∧ a.ser = .ok () ∧ a.compareAndSwap = result

def Fails (a : IterationAnswers) (e : AssertionStoreError) : Prop :=
  a.get = .error e ∨ (∃ assertions, a.get = .ok assertions) ∧ a.ser = .error e

lemma cases_answers (a : IterationAnswers) :
    (∃ e, a.Fails e) ∨ a.Swaps .swapped ∨ a.Swaps .mismatch ∨ a.Swaps .sledError := by
  cases hget : a.get with
  | error e => exact Or.inl ⟨e, Or.inl hget⟩
  | ok assertions =>
    cases hser : a.ser with
    | error e => exact Or.inl ⟨e, Or.inr ⟨⟨assertions, hget⟩, hser⟩⟩
    | ok u =>
      right
      cases hswap : a.compareAndSwap with
      | swapped => exact Or.inl ⟨⟨assertions, hget⟩, hser, hswap⟩
      | mismatch => exact Or.inr (Or.inl ⟨⟨assertions, hget⟩, hser, hswap⟩)
      | sledError => exact Or.inr (Or.inr ⟨⟨assertions, hget⟩, hser, hswap⟩)

end IterationAnswers

section

variable {answers : Nat → IterationAnswers} {modifications : List PendingModification}

/-! ### One iteration -/

lemma applyAgainst_fails {i : Nat} {e : AssertionStoreError} (h : (answers i).Fails e)
    (fuel : Nat) : applyAgainst answers modifications (fuel + 1) i = some (.failed e) := by
  unfold applyAgainst
  rcases h with hget | ⟨⟨assertions, hget⟩, hser⟩
  · rw [hget]
  · rw [hget]
    dsimp only
    rw [hser]

variable (modifications) in
lemma applyAgainst_swapped {i : Nat} (h : (answers i).Swaps .swapped) (fuel : Nat) :
    ∃ assertions, applyAgainst answers modifications (fuel + 1) i =
      some ⟨.ok (), [.get, .compareAndSwap .swapped], some assertions⟩ := by
  obtain ⟨⟨assertions, hget⟩, hser, hswap⟩ := h
  refine ⟨modifications.foldl applyModification (assertions.getD []), ?_⟩
  rw [applyAgainst, hget]
  dsimp only
  rw [hser]
  dsimp only
  rw [hswap]

lemma applyAgainst_retries {i : Nat} {swap : CompareAndSwapResult} (h : (answers i).Swaps swap)
    (hswap : swap ≠ .swapped) (fuel : Nat) :
    applyAgainst answers modifications (fuel + 1) i =
      (applyAgainst answers modifications fuel (i + 1)).map (.retried swap) := by
  obtain ⟨⟨assertions, hget⟩, hser, rfl⟩ := h
  rw [applyAgainst, hget]
  dsimp only
  rw [hser]
  dsimp only
  cases hresult : (answers i).compareAndSwap with
  | swapped => exact (hswap hresult).elim
  | mismatch => rfl
  | sledError => rfl

lemma exists_rest_of_retries {i : Nat} {swap : CompareAndSwapResult} (h : (answers i).Swaps swap)
    (hswap : swap ≠ .swapped) {fuel : Nat} {outcome : CallOutcome}
    (hrun : applyAgainst answers modifications fuel i = some outcome) :
    ∃ fuel' rest, applyAgainst answers modifications fuel' (i + 1) = some rest ∧
      rest.retried swap = outcome := by
  cases fuel with
  | zero => cases hrun
  | succ fuel =>
    rw [applyAgainst_retries h hswap] at hrun
    obtain ⟨rest, hrest, hretried⟩ := Option.map_eq_some_iff.mp hrun
    exact ⟨fuel, rest, hrest, hretried⟩

/-! ### The whole loop -/

/-- The call returns `Ok` exactly if it has swapped, passes on an I/O error of the swap instead of
retrying, and has written nothing when it fails. -/
structure EndsProperly (outcome : CallOutcome) : Prop where
  ok_iff : outcome.result = .ok () ↔ StoreEvent.compareAndSwap .swapped ∈ outcome.events
  swap_fails : ∀ before later,
    outcome.events = before ++ StoreEvent.compareAndSwap .sledError :: later →
      later = [] ∧ outcome.result = .error .sledError
  unchanged : ∀ e, outcome.result = .error e → outcome.written = none

lemma endsProperly_failed (e : AssertionStoreError) : EndsProperly (.failed e) where
  ok_iff := by simp [CallOutcome.failed]
  swap_fails before later h := by
    have hmem : StoreEvent.compareAndSwap .sledError ∈ [StoreEvent.get] := by
      rw [show [StoreEvent.get] = _ from h]
      simp
    simp at hmem
  unchanged _ _ := rfl

lemma endsProperly_swapped (assertions : List AssertionState) :
    EndsProperly ⟨.ok (), [.get, .compareAndSwap .swapped], some assertions⟩ where
  ok_iff := by simp
  swap_fails before later h := by
    have hmem : StoreEvent.compareAndSwap .sledError ∈
        [StoreEvent.get, StoreEvent.compareAndSwap .swapped] := by
      rw [show [StoreEvent.get, StoreEvent.compareAndSwap .swapped] = _ from h]
      simp
    simp at hmem
  unchanged _ h := by cases h

/-- A conflict has no part in how the call ends. -/
lemma endsProperly_retried_iff (outcome : CallOutcome) :
    EndsProperly (outcome.retried .mismatch) ↔ EndsProperly outcome := by
  unfold CallOutcome.retried
  constructor
  · intro h
    refine ⟨?_, ?_, h.unchanged⟩
    · have hok := h.ok_iff
      simpa using hok
    · intro before later hevents
      exact h.swap_fails (.get :: .compareAndSwap .mismatch :: before) later
        (by rw [hevents]; rfl)
  · intro h
    refine ⟨?_, ?_, h.unchanged⟩
    · have hok := h.ok_iff
      simpa using hok
    · intro before later hevents
      match before, hevents with
      | [], hevents => cases hevents
      | [_], hevents => cases hevents
      | _ :: _ :: before, hevents =>
        injection hevents with _ hevents
        injection hevents with _ hevents
        exact h.swap_fails before later hevents

lemma events_ne_nil {fuel i : Nat} {outcome : CallOutcome}
    (h : applyAgainst answers modifications fuel i = some outcome) : outcome.events ≠ [] := by
  cases fuel with
  | zero => cases h
  | succ fuel =>
    rcases (answers i).cases_answers with ⟨e, hfails⟩ | hswaps | hswaps | hswaps
    · rw [applyAgainst_fails hfails] at h
      cases h
      exact List.cons_ne_nil _ _
    · obtain ⟨assertions, hrun⟩ := applyAgainst_swapped modifications hswaps fuel
      rw [hrun] at h
      cases h
      exact List.cons_ne_nil _ _
    · obtain ⟨_, rest, -, rfl⟩ := exists_rest_of_retries hswaps (by decide) h
      exact List.cons_ne_nil _ _
    · obtain ⟨_, rest, -, rfl⟩ := exists_rest_of_retries hswaps (by decide) h
      exact List.cons_ne_nil _ _

variable (answers modifications) in
/-- From an iteration on, the call ends properly after finitely many more. -/
def StopsFrom (i : Nat) : Prop :=
  ∃ fuel outcome, applyAgainst answers modifications fuel i = some outcome ∧ EndsProperly outcome

lemma stopsFrom_conflict {i : Nat} (h : (answers i).Swaps .mismatch) :
    StopsFrom answers modifications i ↔ StopsFrom answers modifications (i + 1) := by
  constructor
  · rintro ⟨fuel, outcome, hrun, hends⟩
    obtain ⟨fuel', rest, hrest, rfl⟩ := exists_rest_of_retries h (by decide) hrun
    exact ⟨fuel', rest, hrest, (endsProperly_retried_iff rest).mp hends⟩
  · rintro ⟨fuel, outcome, hrun, hends⟩
    refine ⟨fuel + 1, outcome.retried .mismatch, ?_, (endsProperly_retried_iff outcome).mpr hends⟩
    rw [applyAgainst_retries h (by decide), hrun]
    rfl

lemma stopsFrom_conflicts {n : Nat} (h : ∀ j < n, (answers j).Swaps .mismatch) :
    StopsFrom answers modifications 0 ↔ StopsFrom answers modifications n := by
  induction n with
  | zero => exact Iff.rfl
  | succ n ih =>
    rw [ih fun j hj => h j (Nat.lt_succ_of_lt hj)]
    exact stopsFrom_conflict (h n (Nat.lt_succ_self n))

/-- An I/O error of the swap is retried. -/
lemma not_stopsFrom_sledError {i : Nat} (h : (answers i).Swaps .sledError) :
    ¬StopsFrom answers modifications i := by
  rintro ⟨fuel, outcome, hrun, hends⟩
  obtain ⟨fuel', rest, hrest, rfl⟩ := exists_rest_of_retries h (by decide) hrun
  exact events_ne_nil hrest (hends.swap_fails [.get] rest.events rfl).1

lemma stopsFrom_iff {i : Nat} (h : ¬(answers i).Swaps .mismatch) :
    StopsFrom answers modifications i ↔ ¬(answers i).Swaps .sledError := by
  constructor
  · exact fun hstops hswaps => not_stopsFrom_sledError hswaps hstops
  · intro hswaps
    rcases (answers i).cases_answers with ⟨e, hfails⟩ | hswapped | hmismatch | hsledError
    · exact ⟨1, _, applyAgainst_fails hfails 0, endsProperly_failed e⟩
    · obtain ⟨assertions, hrun⟩ := applyAgainst_swapped modifications hswapped 0
      exact ⟨1, _, hrun, endsProperly_swapped assertions⟩
    · exact (h hmismatch).elim
    · exact (hswaps hsledError).elim

variable (answers modifications) in
/-- With finitely many conflicts, a call ends properly exactly if the first iteration that does
not find a conflict does not end in an I/O error of the swap. -/
theorem retry_stops_iff (hconflicts : {i | (answers i).compareAndSwap = .mismatch}.Finite) :
    StopsFrom answers modifications 0 ↔
      ∀ i, (∀ j < i, (answers j).Swaps .mismatch) → ¬(answers i).Swaps .sledError := by
  have hexists : ∃ n, ¬(answers n).Swaps .mismatch := by
    obtain ⟨n, hn⟩ := hconflicts.infinite_compl.nonempty
    exact ⟨n, fun h => hn h.2.2⟩
  classical
  have hbefore : ∀ j < Nat.find hexists, (answers j).Swaps .mismatch :=
    fun j hj => not_not.mp (Nat.find_min hexists hj)
  rw [stopsFrom_conflicts hbefore, stopsFrom_iff (Nat.find_spec hexists)]
  constructor
  · intro h i hi
    rcases lt_trichotomy i (Nat.find hexists) with hlt | heq | hgt
    · intro hsledError
      have hmismatch := (hbefore i hlt).2.2
      rw [hsledError.2.2] at hmismatch
      cases hmismatch
    · rw [heq]
      exact h
    · exact (Nat.find_spec hexists (hi _ hgt)).elim
  · intro h
    exact h _ hbefore

end

/-- The first swap meets a conflict, the second one happens. -/
theorem retry_stops_iff_once :
    let answers : Nat → IterationAnswers := fun i =>
      ⟨.ok none, .ok (), if i = 0 then .mismatch else .swapped⟩
    let modifications : List PendingModification := [.add 7 ⟨8, [], 0, ∅, {}⟩ .default 5 0]
    StopsFrom answers modifications 0 ↔
      ∀ i, (∀ j < i, (answers j).Swaps .mismatch) → ¬(answers i).Swaps .sledError := by
  intro answers modifications
  apply retry_stops_iff
  apply (Set.finite_singleton 0).subset
  intro i hi
  by_contra hne
  have hswapped : (answers i).compareAndSwap = .swapped := if_neg hne
  rw [Set.mem_ofPred_eq, hswapped] at hi
  cases hi

/-- A disk that fails every swap keeps the call in its loop, without any conflict. -/
theorem failing_disk_hangs :
    let answers : Nat → IterationAnswers := fun _ => ⟨.ok none, .ok (), .sledError⟩
    let modifications : List PendingModification := [.add 7 ⟨8, [], 0, ∅, {}⟩ .default 5 0]
    {i | (answers i).compareAndSwap = .mismatch}.Finite ∧
      (∀ fuel, applyAgainst answers modifications fuel 0 = none) ∧
      ¬StopsFrom answers modifications 0 := by
  intro answers modifications
  have hswaps : ∀ i, (answers i).Swaps .sledError := fun i => ⟨⟨none, rfl⟩, rfl, rfl⟩
  have hnone : ∀ fuel i, applyAgainst answers modifications fuel i = none := by
    intro fuel
    induction fuel with
    | zero => exact fun i => rfl
    | succ fuel ih =>
      intro i
      rw [applyAgainst_retries (hswaps i) (by decide), ih]
      rfl
  refine ⟨?_, fun fuel => hnone fuel 0, not_stopsFrom_sledError (hswaps 0)⟩
  apply Set.finite_empty.subset
  intro i hi
  cases hi

/-! ### A store of one's own -/

namespace AssertionStore

/-- What the store answers in each iteration, as long as nobody else writes to it. -/
def answers (fault : Nat → Bool) (adopter : Address) (s : AssertionStore) (i : Nat) :
    IterationAnswers where
  get := if fault (s.operations + 2 * i) then .error .sledError else .ok (s.db.get adopter)
  ser := .ok ()
  compareAndSwap := if fault (s.operations + 2 * i + 1) then .sledError else .swapped

def leaves (adopter : Address) (s : AssertionStore) (fuel : Nat) :
    Option CallOutcome → Except (Failure AssertionStoreError) Unit × AssertionStore
  | none => (.error .diverged, { s with operations := s.operations + 2 * fuel })
  | some outcome => (outcome.result.mapError .error,
      { db := outcome.written.elim s.db (s.db.insert adopter)
        operations := s.operations + outcome.events.length })

lemma exec_dbGet (fault : Nat → Bool) (adopter : Address) (s : AssertionStore) :
    exec (dbGet fault adopter) s =
      (if fault s.operations then .error (.error .sledError) else .ok (s.db.get adopter),
        { s with operations := s.operations + 1 }) := by
  unfold dbGet
  rw [exec_bind, exec_operation]
  cases fault s.operations <;> rfl

lemma exec_compareAndSwap (fault : Nat → Bool) (adopter : Address) (new : List AssertionState)
    (s : AssertionStore) :
    exec (compareAndSwap fault adopter (s.db.get adopter) new) s =
      if fault s.operations then (.ok .sledError, { s with operations := s.operations + 1 })
      else (.ok .swapped, { db := s.db.insert adopter new, operations := s.operations + 1 }) := by
  unfold compareAndSwap
  rw [exec_bind, exec_operation]
  cases fault s.operations with
  | true => rfl
  | false =>
    dsimp only
    rw [if_neg Bool.false_ne_true, exec_bind, exec_get]
    dsimp only
    rw [if_pos rfl, if_neg Bool.false_ne_true]
    rfl

/-- A call on a store of one's own is a call against the answers of that store. -/
theorem exec_applyPendingModification (fault : Nat → Bool) (adopter : Address)
    (modifications : List PendingModification) (s : AssertionStore) (fuel i : Nat) :
    exec (applyPendingModification fault adopter modifications fuel)
        { s with operations := s.operations + 2 * i } =
      leaves adopter { s with operations := s.operations + 2 * i } fuel
        (applyAgainst (answers fault adopter s) modifications fuel i) := by
  induction fuel generalizing i with
  | zero => rfl
  | succ fuel ih =>
    unfold applyPendingModification applyAgainst
    rw [exec_bind, exec_dbGet]
    dsimp only [answers]
    cases hget : fault (s.operations + 2 * i) with
    | true => rfl
    | false =>
      rw [if_neg Bool.false_ne_true, if_neg Bool.false_ne_true]
      dsimp only
      rw [exec_bind, exec_compareAndSwap fault adopter _
        { s with operations := s.operations + 2 * i + 1 }]
      dsimp only
      cases hswap : fault (s.operations + 2 * i + 1) with
      | false => rfl
      | true =>
        rw [if_pos rfl, if_pos rfl]
        dsimp only
        have hnext : s.operations + 2 * i + 1 + 1 = s.operations + 2 * (i + 1) := by omega
        rw [hnext, ih]
        cases applyAgainst (answers fault adopter s) modifications fuel (i + 1) with
        | none =>
          unfold leaves
          dsimp only [Option.map_none]
          congr 2
          omega
        | some outcome =>
          unfold leaves CallOutcome.retried
          dsimp only [Option.map_some, List.length_cons]
          congr 2
          omega

end AssertionStore

end AssertionExecution
