import Mathlib.Algebra.BigOperators.Ring.Finset
import Mathlib.Algebra.Order.BigOperators.Group.Finset
import Mathlib.Tactic.Ring
import AssertionExecution.Proofs.StoreLinearization

/-!
# Progress of concurrent calls

A thread loses its compare-and-swap only to a call that has taken effect since it read, so threads
that call the store cannot keep each other busy: the calls they make bound the steps they take.
-/

namespace AssertionExecution

open Linearization Function

namespace ConcurrentStore

section

variable {Thread Stored : Type}

/-! ### What is counted -/

def System.invoked (w : System Thread Stored) : Nat :=
  w.history.countP (·.invokedId.isSome)

def System.returned (w : System Thread Stored) : Nat :=
  w.history.countP (·.invokedId.isNone)

namespace Phase

def calling : Phase Stored → Nat
  | idle => 0
  | _ => 1

/-- The call is over but for its return. -/
def finished : Phase Stored → Nat
  | returning _ => 1
  | _ => 0

/-- The steps of the call up to here, retries aside. -/
def spent : Phase Stored → Nat
  | idle => 0
  | inserting _ _ => 1
  | getting _ _ => 1
  | reading _ => 1
  | swapping _ _ _ _ => 2
  | returning _ => 3

open Classical in
/-- The value that was read is no longer there, and the swap will not find it. -/
noncomputable def overtaken (db : OrderedTree Address Stored) : Phase Stored → Nat
  | swapping adopter _ assertionsSerialized _ =>
    if db.get adopter = assertionsSerialized then 0 else 1
  | _ => 0

lemma spent_le (p : Phase Stored) : p.spent ≤ 3 * p.calling := by
  cases p <;> simp [spent, calling]

lemma finished_le (p : Phase Stored) : p.finished ≤ p.calling := by
  cases p <;> simp [finished, calling]

lemma overtaken_le (db : OrderedTree Address Stored) (p : Phase Stored) :
    p.overtaken db ≤ p.calling := by
  cases p with
  | swapping adopter ms read assertions =>
    unfold overtaken
    dsimp only
    split_ifs
    · exact Nat.zero_le 1
    · exact Nat.le_refl 1
  | _ => exact Nat.zero_le _

end Phase

variable {w w' : System Thread Stored}

lemma System.invoked_append {es : List (Event (Thread × Nat) Operation Response)}
    (h : w'.history = w.history ++ es) :
    w'.invoked = w.invoked + es.countP (·.invokedId.isSome) := by
  unfold invoked
  rw [h, List.countP_append]

lemma System.returned_append {es : List (Event (Thread × Nat) Operation Response)}
    (h : w'.history = w.history ++ es) :
    w'.returned = w.returned + es.countP (·.invokedId.isNone) := by
  unfold returned
  rw [h, List.countP_append]

variable [DecidableEq Thread] {de : Stored → List AssertionState}

/-- A swap is tried again because the value had changed, not because of an I/O error. -/
def RetriesOnConflict (w w' : System Thread Stored) : Prop :=
  ∀ t adopter ms read assertions, w.phase t = .swapping adopter ms read assertions →
    w'.phase t = .getting adopter ms → w.db.get adopter ≠ read

/-- A number of steps of any threads. -/
inductive Steps (de : Stored → List AssertionState) :
    Nat → System Thread Stored → System Thread Stored → Prop
  | refl (w : System Thread Stored) : Steps de 0 w w
  | step {n : Nat} {w w' w'' : System Thread Stored} (h : Steps de n w w')
      (hstep : Step de w' w'') (hretry : RetriesOnConflict w' w'') : Steps de (n + 1) w w''

/-! ### One step -/

section Sums

variable [Fintype Thread]

lemma sum_update_phase (f : Phase Stored → Nat) (g : Thread → Phase Stored) (t : Thread)
    (p : Phase Stored) : ∑ x, f (update g t p x) + f (g t) = ∑ x, f (g x) + f p := by
  have hupdate : ∀ x, f (update g t p x) = update (fun x => f (g x)) t (f p) x := by
    intro x
    by_cases h : x = t
    · rw [h, update_self, update_self]
    · rw [update_of_ne h, update_of_ne h]
  rw [Finset.sum_congr rfl fun x _ => hupdate x,
    Finset.sum_update_of_mem (Finset.mem_univ t),
    Finset.sum_eq_add_sum_sdiff_singleton_of_mem (Finset.mem_univ t) fun x => f (g x)]
  omega

/-- The steps and the lost swaps so far, against the calls. -/
structure Bounded (n lost : Nat) (w : System Thread Stored) : Prop where
  calls : w.returned + ∑ t, (w.phase t).calling = w.invoked
  steps : n ≤ 4 * w.returned + ∑ t, (w.phase t).spent + 2 * lost
  lost : lost + ∑ t, (w.phase t).overtaken w.db ≤
    (w.returned + ∑ t, (w.phase t).finished) * w.invoked

variable {n lost lost' : Nat} {t : Thread} {p : Phase Stored}

/-- The calls and the steps when one thread moves on. -/
lemma Bounded.counts (h : Bounded n lost w) (hphase : w'.phase = update w.phase t p)
    (hcalls : w'.returned + p.calling + w.invoked =
      w.returned + (w.phase t).calling + w'.invoked)
    (hspent : 4 * w.returned + (w.phase t).spent + 2 * lost + 1 ≤
      4 * w'.returned + p.spent + 2 * lost') :
    w'.returned + ∑ t, (w'.phase t).calling = w'.invoked ∧
      n + 1 ≤ 4 * w'.returned + ∑ t, (w'.phase t).spent + 2 * lost' := by
  have hcalling := sum_update_phase Phase.calling w.phase t p
  have hsteps := sum_update_phase Phase.spent w.phase t p
  have hcalls₀ := h.calls
  have hsteps₀ := h.steps
  rw [hphase]
  omega

lemma Bounded.quiet (h : Bounded n lost w) (hphase : w'.phase = update w.phase t p)
    (hcalls : w'.returned + p.calling + w.invoked =
      w.returned + (w.phase t).calling + w'.invoked)
    (hspent : 4 * w.returned + (w.phase t).spent + 2 * lost + 1 ≤
      4 * w'.returned + p.spent + 2 * lost')
    (hdb : w'.db = w.db) (hinvoked : w.invoked ≤ w'.invoked)
    (hover : w.returned + (w.phase t).finished ≤ w'.returned + p.finished)
    (hlost : lost' + p.overtaken w.db ≤ lost + (w.phase t).overtaken w.db) :
    Bounded (n + 1) lost' w' := by
  obtain ⟨hcalls', hsteps'⟩ := h.counts hphase hcalls hspent
  refine ⟨hcalls', hsteps', ?_⟩
  have hsum := sum_update_phase (Phase.overtaken w.db) w.phase t p
  have hoversum := sum_update_phase Phase.finished w.phase t p
  have hlost₀ := h.lost
  rw [hdb, hphase]
  calc lost' + ∑ x, (update w.phase t p x).overtaken w.db
      ≤ lost + ∑ x, (w.phase x).overtaken w.db := by omega
    _ ≤ (w.returned + ∑ x, (w.phase x).finished) * w.invoked := hlost₀
    _ ≤ (w'.returned + ∑ x, (update w.phase t p x).finished) * w'.invoked := by
      apply Nat.mul_le_mul _ hinvoked
      omega

lemma Bounded.within (h : Bounded n lost w) (hphase : w'.phase = update w.phase t p)
    (hdb : w'.db = w.db) (hhistory : w'.history = w.history ++ [])
    (hcalling : p.calling = (w.phase t).calling)
    (hspent : (w.phase t).spent + 2 * lost + 1 ≤ p.spent + 2 * lost')
    (hover : (w.phase t).finished ≤ p.finished)
    (hlost : lost' + p.overtaken w.db ≤ lost + (w.phase t).overtaken w.db) :
    Bounded (n + 1) lost' w' := by
  have hinvoked : w'.invoked = w.invoked := System.invoked_append hhistory
  have hreturned : w'.returned = w.returned := System.returned_append hhistory
  apply h.quiet hphase _ _ hdb _ _ hlost
  all_goals omega

lemma Bounded.write (h : Bounded n lost w) (hphase : w'.phase = update w.phase t p)
    (hcalling : p.calling = (w.phase t).calling) (hspent : (w.phase t).spent + 1 ≤ p.spent)
    (hover : p.finished = (w.phase t).finished + 1) (hhistory : w'.history = w.history ++ []) :
    Bounded (n + 1) lost w' := by
  have hinvoked : w'.invoked = w.invoked := System.invoked_append hhistory
  have hreturned : w'.returned = w.returned := System.returned_append hhistory
  have hspent' : 4 * w.returned + (w.phase t).spent + 2 * lost + 1 ≤
      4 * w'.returned + p.spent + 2 * lost := by omega
  obtain ⟨hcalls', hsteps'⟩ := h.counts hphase (by omega) hspent'
  refine ⟨hcalls', hsteps', ?_⟩
  have hoversum := sum_update_phase Phase.finished w.phase t p
  have hlost₀ := h.lost
  -- Whoever is overtaken now is one of the calls that were made.
  have hovertaken : ∑ x, (w'.phase x).overtaken w'.db ≤ w'.invoked := by
    calc ∑ x, (w'.phase x).overtaken w'.db
        ≤ ∑ x, (w'.phase x).calling := Finset.sum_le_sum fun x _ => Phase.overtaken_le _ _
      _ ≤ w'.invoked := by omega
  have hsuccess : w'.returned + ∑ x, (w'.phase x).finished =
      w.returned + ∑ x, (w.phase x).finished + 1 := by
    rw [hphase, hreturned]
    omega
  rw [hsuccess, hinvoked, Nat.add_mul, Nat.one_mul]
  rw [hinvoked] at hovertaken
  omega

/-- Every step of any thread is paid for by the calls. -/
lemma Bounded.step (h : Bounded n lost w) (hstep : Step de w w')
    (hretry : RetriesOnConflict w w') : ∃ lost', Bounded (n + 1) lost' w' := by
  have hnothing : w.history = w.history ++ [] := (List.append_nil _).symm
  cases hstep with
  | invoke t op hphase =>
    have hinvoked : ({ w.setPhase t op.entry with
        history := w.history ++ [.invoked (t, w.calls t) op] } : System Thread Stored).invoked =
          w.invoked + 1 := by
      rw [@System.invoked_append _ _ w _ _ rfl]
      rfl
    have hreturned : ({ w.setPhase t op.entry with
        history := w.history ++ [.invoked (t, w.calls t) op] } : System Thread Stored).returned =
          w.returned := by
      rw [@System.returned_append _ _ w _ _ rfl]
      rfl
    have hentry : (op.entry : Phase Stored).calling = 1 ∧ (op.entry : Phase Stored).spent = 1 ∧
        (op.entry : Phase Stored).overtaken w.db = 0 := by
      cases op <;> exact ⟨rfl, rfl, rfl⟩
    refine ⟨lost, h.quiet rfl ?_ ?_ rfl ?_ ?_ ?_⟩
    · rw [hphase, hinvoked, hreturned, hentry.1]
      simp only [Phase.calling]
      omega
    · rw [hphase, hreturned, hentry.2.1]
      simp only [Phase.spent]
      omega
    · omega
    · rw [hphase, hreturned]
      exact Nat.le_add_right _ _
    · rw [hentry.2.2]
      exact Nat.le_add_right _ _
  | @insert t adopter assertion hphase value hvalue =>
    refine ⟨lost, h.write rfl ?_ ?_ ?_ hnothing⟩
    all_goals rw [hphase]; simp [Phase.calling, Phase.spent, Phase.finished]
  | @get t adopter ms hphase =>
    refine ⟨lost, h.within rfl rfl hnothing ?_ ?_ ?_ ?_⟩
    · rw [hphase]
      rfl
    · rw [hphase]
      simp only [Phase.spent]
      omega
    · rw [hphase]
      exact Nat.le_refl 0
    · rw [hphase]
      simp [Phase.overtaken]
  | @swap t adopter ms assertions hphase value hvalue =>
    refine ⟨lost, h.write rfl ?_ ?_ ?_ hnothing⟩
    all_goals rw [hphase]; simp [Phase.calling, Phase.spent, Phase.finished]
  | @retry t adopter ms read assertions hphase =>
    -- The thread was overtaken, and reads again.
    have hconflict := hretry t adopter ms read assertions hphase (update_self ..)
    refine ⟨lost + 1, h.within rfl rfl hnothing ?_ ?_ ?_ ?_⟩
    · rw [hphase]
      rfl
    · rw [hphase]
      simp only [Phase.spent]
      omega
    · rw [hphase]
      exact Nat.le_refl 0
    · rw [hphase]
      simp [Phase.overtaken, hconflict]
  | @read t adopter hphase =>
    refine ⟨lost, h.within rfl rfl hnothing ?_ ?_ ?_ ?_⟩
    · rw [hphase]
      rfl
    · rw [hphase]
      simp only [Phase.spent]
      omega
    · rw [hphase]
      exact Nat.zero_le 1
    · rw [hphase]
      simp [Phase.overtaken]
  | @fail t op hop =>
    refine ⟨lost, h.within rfl rfl hnothing ?_ ?_ ?_ ?_⟩
    · cases hphase : w.phase t <;> simp [hphase, Phase.pending, Phase.calling] at hop ⊢
    · have hspent : (w.phase t).spent ≤ 2 := by
        cases hphase : w.phase t <;> simp [hphase, Phase.pending, Phase.spent] at hop ⊢
      change _ ≤ 3 + 2 * lost
      omega
    · cases hphase : w.phase t <;> simp [hphase, Phase.pending, Phase.finished] at hop ⊢
    · simp [Phase.overtaken]
  | @«return» t result hphase =>
    have hinvoked : ({ w.setPhase t .idle with
        calls := update w.calls t (w.calls t + 1)
        history := w.history ++ [.returned (t, w.calls t) result] } :
          System Thread Stored).invoked = w.invoked := by
      rw [@System.invoked_append _ _ w _ _ rfl]
      rfl
    have hreturned : ({ w.setPhase t .idle with
        calls := update w.calls t (w.calls t + 1)
        history := w.history ++ [.returned (t, w.calls t) result] } :
          System Thread Stored).returned = w.returned + 1 := by
      rw [@System.returned_append _ _ w _ _ rfl]
      rfl
    refine ⟨lost, h.quiet rfl ?_ ?_ rfl ?_ ?_ ?_⟩
    · rw [hphase, hinvoked, hreturned]
      simp only [Phase.calling]
    · rw [hphase, hreturned]
      simp only [Phase.spent]
      omega
    · omega
    · rw [hphase, hreturned]
      exact Nat.le_refl _
    · exact Nat.le_add_right _ _

/-- The steps that threads take until they have made some calls are bounded, however the scheduler
interleaves them: no thread retries for ever, and no two threads keep each other retrying. -/
theorem steps_bounded_by_calls (db : OrderedTree Address Stored)
    (hrun : Steps de n (initial db) w) : n ≤ 2 * w.invoked * (w.invoked + 2) := by
  obtain ⟨lost, h⟩ : ∃ lost, Bounded n lost w := by
    generalize hw₀ : initial db = w₀ at hrun
    induction hrun with
    | refl w =>
      subst hw₀
      exact ⟨0, by simp [System.returned, System.invoked, initial, Phase.calling],
        Nat.zero_le _, by simp [initial, Phase.overtaken]⟩
    | step _ hstep hretry ih =>
      obtain ⟨lost, h⟩ := ih hw₀
      exact h.step hstep hretry
  have hcalls := h.calls
  have hsteps := h.steps
  have hspent : ∑ t, (w.phase t).spent ≤ 3 * ∑ t, (w.phase t).calling := by
    rw [Finset.mul_sum]
    exact Finset.sum_le_sum fun t _ => Phase.spent_le _
  have hover : ∑ t, (w.phase t).finished ≤ ∑ t, (w.phase t).calling :=
    Finset.sum_le_sum fun t _ => Phase.finished_le _
  have hlost : lost ≤ w.invoked * w.invoked := by
    calc lost ≤ (w.returned + ∑ t, (w.phase t).finished) * w.invoked := by
          have := h.lost
          omega
      _ ≤ w.invoked * w.invoked := Nat.mul_le_mul_right _ (by omega)
  have hbound : 2 * w.invoked * (w.invoked + 2) = 2 * (w.invoked * w.invoked) + 4 * w.invoked := by
    ring
  omega

end Sums

/-- Only a thread that was about to swap retries. -/
lemma retriesOnConflict_of_update {t : Thread} {p : Phase Stored}
    (hphase : w'.phase = update w.phase t p)
    (h : (∀ adopter ms, p ≠ .getting adopter ms) ∨
      ∀ adopter ms read assertions, w.phase t ≠ .swapping adopter ms read assertions) :
    RetriesOnConflict w w' := by
  intro t' adopter ms read assertions hswapping hgetting
  rw [hphase] at hgetting
  by_cases ht : t' = t
  · subst ht
    rw [update_self] at hgetting
    rcases h with hp | hw
    · exact absurd hgetting (hp adopter ms)
    · exact absurd hswapping (hw adopter ms read assertions)
  · rw [update_of_ne ht, hswapping] at hgetting
    cases hgetting

/-- A removal is overtaken once. -/
theorem steps_bounded_by_calls_overtaken :
    ∃ w : System Bool (List AssertionState),
      Steps id 6 (initial (OrderedTree.empty.insert 7 (stored 1 none))) w ∧
      6 ≤ 2 * w.invoked * (w.invoked + 2) := by
  have hrun : Steps id 0
    (initial (OrderedTree.empty.insert 7 (stored 1 none)) : System Bool (List AssertionState)) _ :=
    .refl _
  have hrun := hrun.step (.invoke false (removeAt 5) rfl)
    (retriesOnConflict_of_update rfl (.inr nofun))
  have hrun := hrun.step (.get false rfl) (retriesOnConflict_of_update rfl (.inl nofun))
  have hrun := hrun.step (.invoke true (moveTo 2) rfl)
    (retriesOnConflict_of_update rfl (.inr nofun))
  have hrun := hrun.step (.get true rfl) (retriesOnConflict_of_update rfl (.inl nofun))
  have hrun := hrun.step (.swap true rfl (stored 2 none) rfl)
    (retriesOnConflict_of_update rfl (.inl nofun))
  have hrun := hrun.step (.retry false rfl) (by
    intro t adopter ms read assertions hswapping _
    cases t with
    | true => cases hswapping
    | false =>
      cases hswapping
      intro hread
      cases hread)
  exact ⟨_, hrun, steps_bounded_by_calls _ hrun⟩

end

end ConcurrentStore

end AssertionExecution
