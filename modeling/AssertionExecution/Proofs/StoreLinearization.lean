import AssertionExecution.Model.ConcurrentStore
import AssertionExecution.Proofs.StoreContents

/-!
# Concurrent calls to the store

A call takes effect in its last critical section: an insert under its lock, a batch at the
compare-and-swap that succeeds. What the batch swaps in was computed from the very value it
replaces, whatever happened to it in between.
-/

namespace AssertionExecution

open EffectLogic FirstMatch Linearization

namespace ConcurrentStore

variable {Thread Stored : Type} {de : Stored → List AssertionState}
  {d₀ d : OrderedTree Address (List AssertionState)} {w w' : System Thread Stored}
  {calls : List (Call (Thread × Nat) Operation Response)}

/-- A call on a store that nobody else uses. -/
def perform : Operation → OrderedTree Address (List AssertionState) →
    Response × OrderedTree Address (List AssertionState)
  | .insert adopter assertion, d =>
    (.previous (replaced assertion (AssertionStore.assertions d adopter)),
      d.insert adopter (inserted assertion (AssertionStore.assertions d adopter)))
  | .applyPendingModification adopter modifications, d =>
    (.applied, d.insert adopter
      (modifications.foldl AssertionStore.applyModification (AssertionStore.assertions d adopter)))
  | .readAdopter adopter, d => (.assertions (AssertionStore.assertions d adopter), d)

section Alone

variable {fault : Nat → Bool}

theorem insert_performs (adopter : Address) (assertion : AssertionState) :
    Triple (fun s => s.db = d) (AssertionStore.insert fault adopter assertion)
      (fun r s => perform (.insert adopter assertion) d = (.previous r, s.db))
      (fun _ s => s.db = d) := by
  rintro s rfl
  unfold AssertionStore.insert
  rw [exec_bind]
  have hget := @AssertionStore.dbGet_spec fault adopter s s rfl
  rcases hrun : exec (AssertionStore.dbGet fault adopter) s with ⟨e | r, s₁⟩
  · rw [hrun] at hget
    exact hget.2.2
  · rw [hrun] at hget
    obtain ⟨rfl, hs₁⟩ := hget
    dsimp only
    rw [exec_bind]
    unfold AssertionStore.dbInsert
    rw [exec_bind, AssertionStore.exec_operation]
    cases fault s₁.operations
    · exact Prod.ext rfl (by rw [← hs₁]; rfl)
    · exact hs₁

/-- `apply_pending_modification` on its own performs its operation, or nothing. -/
theorem applyPendingModification_performs (adopter : Address) (ms : List PendingModification)
    (fuel : Nat) :
    Triple (fun s => s.db = d) (AssertionStore.applyPendingModification fault adopter ms fuel)
      (fun _ s => perform (.applyPendingModification adopter ms) d = (.applied, s.db))
      (fun _ s => s.db = d) :=
  (AssertionStore.applyPendingModification_spec adopter ms fuel).consequence (fun _ h => h)
    (fun _ _ h => Prod.ext rfl h.symm) (fun _ _ h => h.1)

end Alone

/-! ### One thread -/

/-- How a thread relates to the calls that have taken effect. -/
structure Follows (de : Stored → List AssertionState) (w : System Thread Stored)
    (calls : List (Call (Thread × Nat) Operation Response)) (t : Thread) : Prop where
  invoked : ∀ k op, .invoked (t, k) op ∈ w.history →
    k < w.calls t ∨ k = w.calls t ∧ w.phase t ≠ .idle
  returned : ∀ k r, .returned (t, k) r ∈ w.history → k < w.calls t
  pending : ∀ op, (w.phase t).pending = some op →
    .invoked (t, w.calls t) op ∈ w.history ∧ ∀ op r, ⟨(t, w.calls t), op, r⟩ ∉ calls
  copied : ∀ adopter ms serialized assertions,
    w.phase t = .swapping adopter ms serialized assertions →
      assertions = ms.foldl AssertionStore.applyModification (decoded de serialized)
  succeeded : ∀ r, w.phase t = .returning (some r) → ∃ op, ⟨(t, w.calls t), op, r⟩ ∈ calls
  failed : w.phase t = .returning none → ∀ op r, ⟨(t, w.calls t), op, r⟩ ∉ calls

structure OnlyMoved (t : Thread) (w w' : System Thread Stored)
    (calls calls' : List (Call (Thread × Nat) Operation Response)) : Prop where
  phase : ∀ t', t' ≠ t → w'.phase t' = w.phase t'
  count : ∀ t', t' ≠ t → w'.calls t' = w.calls t'
  invoked : ∀ t', t' ≠ t → ∀ k op,
    .invoked (t', k) op ∈ w'.history ↔ .invoked (t', k) op ∈ w.history
  returned : ∀ t', t' ≠ t → ∀ k r,
    .returned (t', k) r ∈ w'.history ↔ .returned (t', k) r ∈ w.history
  effects : ∀ t', t' ≠ t → ∀ k op r, ⟨(t', k), op, r⟩ ∈ calls' ↔ ⟨(t', k), op, r⟩ ∈ calls

/-- The other threads do not notice. -/
lemma Follows.frame {t t' : Thread} {calls' : List (Call (Thread × Nat) Operation Response)}
    (h : Follows de w calls t') (hmoved : OnlyMoved t w w' calls calls') (ht : t' ≠ t) :
    Follows de w' calls' t' where
  invoked k op hmem := by
    rw [hmoved.count t' ht, hmoved.phase t' ht]
    exact h.invoked k op ((hmoved.invoked t' ht k op).mp hmem)
  returned k r hmem := by
    rw [hmoved.count t' ht]
    exact h.returned k r ((hmoved.returned t' ht k r).mp hmem)
  pending op hop := by
    rw [hmoved.phase t' ht] at hop
    rw [hmoved.count t' ht]
    obtain ⟨hinvoked, hnew⟩ := h.pending op hop
    exact ⟨(hmoved.invoked t' ht _ op).mpr hinvoked,
      fun op' r hmem => hnew op' r ((hmoved.effects t' ht _ op' r).mp hmem)⟩
  copied := by
    rw [hmoved.phase t' ht]
    exact h.copied
  succeeded r hr := by
    rw [hmoved.phase t' ht] at hr
    rw [hmoved.count t' ht]
    obtain ⟨op, hop⟩ := h.succeeded r hr
    exact ⟨op, (hmoved.effects t' ht _ op r).mpr hop⟩
  failed hphase op r hmem := by
    rw [hmoved.phase t' ht] at hphase
    rw [hmoved.count t' ht] at hmem
    exact h.failed hphase op r ((hmoved.effects t' ht _ op r).mp hmem)

/-! ### One step -/

/-- How a system relates to the calls that have taken effect and to the content they left. -/
structure Tracks (de : Stored → List AssertionState)
    (d₀ : OrderedTree Address (List AssertionState)) (w : System Thread Stored)
    (calls : List (Call (Thread × Nat) Operation Response))
    (d : OrderedTree Address (List AssertionState)) : Prop where
  linearizes : Linearizes perform d₀ w.history calls d
  decodes : ∀ adopter, (w.db.get adopter).map de = d.get adopter
  follows : ∀ t, Follows de w calls t

lemma Tracks.assertions_eq (h : Tracks de d₀ w calls d) (adopter : Address) :
    decoded de (w.db.get adopter) = AssertionStore.assertions d adopter := by
  unfold decoded AssertionStore.assertions
  rw [h.decodes]

lemma Tracks.decodes_insert (h : Tracks de d₀ w calls d) (adopter : Address) {value : Stored}
    {assertions : List AssertionState} (hvalue : de value = assertions) (a : Address) :
    ((w.db.insert adopter value).get a).map de = (d.insert adopter assertions).get a := by
  rw [OrderedTree.get_insert, OrderedTree.get_insert]
  by_cases ha : a = adopter
  · rw [if_pos ha, if_pos ha, Option.map_some, hvalue]
  · rw [if_neg ha, if_neg ha, h.decodes]

lemma notMem_ids {i : Thread × Nat} (h : ∀ op r, ⟨i, op, r⟩ ∉ calls) : i ∉ calls.map Call.id := by
  intro hmem
  obtain ⟨c, hc, rfl⟩ := List.mem_map.mp hmem
  exact h c.op c.result hc

lemma Tracks.initial (db : OrderedTree Address Stored)
    (hdb : ∀ adopter, (db.get adopter).map de = d₀.get adopter) :
    Tracks de d₀ (initial db : System Thread Stored) [] d₀ where
  linearizes := .nil perform d₀
  decodes := hdb
  follows _ := {
    invoked _ _ h := (List.not_mem_nil h).elim
    returned _ _ h := (List.not_mem_nil h).elim
    pending _ h := by cases h
    copied _ _ _ _ h := by cases h
    succeeded _ h := by cases h
    failed h := by cases h }

lemma mem_snoc_of_ne {α : Type} {l : List α} {x y : α} (h : x ≠ y) : x ∈ l ++ [y] ↔ x ∈ l := by
  rw [List.mem_append, List.mem_singleton]
  exact or_iff_left h

/-- A move of one thread is tracked if that thread is. -/
lemma Tracks.of_move (h : Tracks de d₀ w calls d) (t : Thread)
    {calls' : List (Call (Thread × Nat) Operation Response)}
    {d' : OrderedTree Address (List AssertionState)}
    (hlinearizes : Linearizes perform d₀ w'.history calls' d')
    (hdecodes : ∀ adopter, (w'.db.get adopter).map de = d'.get adopter)
    (hmoved : OnlyMoved t w w' calls calls') (ht : Follows de w' calls' t) :
    Tracks de d₀ w' calls' d' where
  linearizes := hlinearizes
  decodes := hdecodes
  follows t' := by
    by_cases heq : t' = t
    · rw [heq]
      exact ht
    · exact (h.follows t').frame hmoved heq

variable [DecidableEq Thread]

lemma phase_setPhase_self (w : System Thread Stored) (t : Thread) (phase : Phase Stored) :
    (w.setPhase t phase).phase t = phase :=
  Function.update_self ..

lemma phase_setPhase_of_ne (w : System Thread Stored) {t t' : Thread} (h : t' ≠ t)
    (phase : Phase Stored) : (w.setPhase t phase).phase t' = w.phase t' :=
  Function.update_of_ne h ..

/-- A thread goes on within a call, or gives it up before it has taken effect. -/
lemma Tracks.setPhase (h : Tracks de d₀ w calls d) {t : Thread} {op : Operation}
    (hop : (w.phase t).pending = some op) {phase : Phase Stored} (hbusy : phase ≠ .idle)
    (hpending : ∀ op', phase.pending = some op' → op' = op)
    (hcopied : ∀ adopter ms serialized assertions,
      phase = .swapping adopter ms serialized assertions →
        assertions = ms.foldl AssertionStore.applyModification (decoded de serialized))
    (hfailed : ∀ r, phase ≠ .returning (some r)) :
    Tracks de d₀ (w.setPhase t phase) calls d := by
  have hself := phase_setPhase_self w t phase
  apply h.of_move t
  · exact h.linearizes
  · exact h.decodes
  · exact ⟨fun t' ht => phase_setPhase_of_ne w ht phase, fun _ _ => rfl,
      fun _ _ _ _ => Iff.rfl, fun _ _ _ _ => Iff.rfl, fun _ _ _ _ _ => Iff.rfl⟩
  · constructor
    case invoked =>
      intro k op' hmem
      rw [hself]
      rcases (h.follows t).invoked k op' hmem with hlt | ⟨hk, -⟩
      · exact Or.inl hlt
      · exact Or.inr ⟨hk, hbusy⟩
    case returned => exact (h.follows t).returned
    case pending =>
      intro op' hop'
      rw [hself] at hop'
      rw [hpending op' hop']
      exact (h.follows t).pending op hop
    case copied =>
      rw [hself]
      exact hcopied
    case succeeded =>
      intro r hr
      rw [hself] at hr
      exact absurd hr (hfailed r)
    case failed => exact fun _ => ((h.follows t).pending op hop).2

lemma Tracks.takeEffect (h : Tracks de d₀ w calls d) {t : Thread} {op : Operation}
    (hop : (w.phase t).pending = some op) {db : OrderedTree Address Stored}
    (hdb : ∀ adopter, (db.get adopter).map de = (perform op d).2.get adopter) :
    Tracks de d₀ { w.setPhase t (.returning (some (perform op d).1)) with db := db }
      (calls ++ [⟨(t, w.calls t), op, (perform op d).1⟩]) (perform op d).2 := by
  have hself := phase_setPhase_self w t (.returning (some (perform op d).1))
  obtain ⟨hinvoked, hnew⟩ := (h.follows t).pending op hop
  have hpending : ∀ r, .returned (t, w.calls t) r ∉ w.history :=
    fun r hmem => Nat.lt_irrefl _ ((h.follows t).returned _ r hmem)
  apply h.of_move t
  · exact h.linearizes.takeEffect hinvoked hpending (notMem_ids hnew)
  · exact hdb
  · refine ⟨fun t' ht => phase_setPhase_of_ne w ht _, fun _ _ => rfl,
      fun _ _ _ _ => Iff.rfl, fun _ _ _ _ => Iff.rfl, ?_⟩
    intro t' ht k op' r
    apply mem_snoc_of_ne
    intro heq
    cases heq
    exact ht rfl
  · constructor
    case invoked =>
      intro k op' hmem
      rcases (h.follows t).invoked k op' hmem with hlt | ⟨hk, -⟩
      · exact Or.inl hlt
      · exact Or.inr ⟨hk, fun heq => by cases hself.symm.trans heq⟩
    case returned => exact (h.follows t).returned
    case pending =>
      intro op' hop'
      cases (congrArg Phase.pending hself).symm.trans hop'
    case copied =>
      intro adopter ms serialized assertions heq
      cases hself.symm.trans heq
    case succeeded =>
      intro r heq
      cases hself.symm.trans heq
      exact ⟨op, List.mem_append_right _ (List.mem_singleton_self _)⟩
    case failed =>
      intro heq
      cases hself.symm.trans heq

lemma entry_pending (op : Operation) : (op.entry : Phase Stored).pending = some op := by
  cases op <;> rfl

lemma Tracks.invoke (h : Tracks de d₀ w calls d) {t : Thread} (op : Operation)
    (hidle : w.phase t = .idle) :
    Tracks de d₀ { w.setPhase t op.entry with
      history := w.history ++ [.invoked (t, w.calls t) op] } calls d := by
  have hself := phase_setPhase_self w t op.entry
  have hpending := (congrArg Phase.pending hself).trans (entry_pending op)
  have hnew : ∀ op', .invoked (t, w.calls t) op' ∉ w.history := by
    intro op' hmem
    rcases (h.follows t).invoked _ op' hmem with hlt | ⟨-, hbusy⟩
    · exact Nat.lt_irrefl _ hlt
    · exact hbusy hidle
  apply h.of_move t
  · exact h.linearizes.invoke hnew op
  · exact h.decodes
  · refine ⟨fun t' ht => phase_setPhase_of_ne w ht _, fun _ _ => rfl, ?_, ?_,
      fun _ _ _ _ _ => Iff.rfl⟩
    · intro t' ht k op'
      apply mem_snoc_of_ne
      intro heq
      cases heq
      exact ht rfl
    · intro t' ht k r
      exact mem_snoc_of_ne nofun
  · constructor
    case invoked =>
      intro k op' hmem
      have hbusy : (w.setPhase t op.entry).phase t ≠ .idle := by
        intro heq
        cases hpending.symm.trans (congrArg Phase.pending heq)
      rcases List.mem_append.mp hmem with hmem | hmem
      · rcases (h.follows t).invoked k op' hmem with hlt | ⟨hk, -⟩
        · exact Or.inl hlt
        · exact Or.inr ⟨hk, hbusy⟩
      · cases List.mem_singleton.mp hmem
        exact Or.inr ⟨rfl, hbusy⟩
    case returned =>
      intro k r hmem
      rcases List.mem_append.mp hmem with hmem | hmem
      · exact (h.follows t).returned k r hmem
      · cases List.mem_singleton.mp hmem
    case pending =>
      intro op' hop'
      cases hpending.symm.trans hop'
      exact ⟨List.mem_append_right _ (List.mem_singleton_self _),
        fun op' r hmem => hnew op' (h.linearizes.invoked _ hmem)⟩
    case copied =>
      intro adopter ms serialized assertions heq
      have hentry := hself.symm.trans heq
      cases op <;> cases hentry
    case succeeded =>
      intro r heq
      cases hpending.symm.trans (congrArg Phase.pending heq)
    case failed =>
      intro heq
      cases hpending.symm.trans (congrArg Phase.pending heq)

lemma Tracks.return (h : Tracks de d₀ w calls d) {t : Thread} {result : Option Response}
    (hphase : w.phase t = .returning result) :
    Tracks de d₀ { w.setPhase t .idle with
      calls := Function.update w.calls t (w.calls t + 1)
      history := w.history ++ [.returned (t, w.calls t) result] } calls d := by
  have hself := phase_setPhase_self w t .idle
  have hcalls : Function.update w.calls t (w.calls t + 1) t = w.calls t + 1 :=
    Function.update_self ..
  apply h.of_move t
  · apply h.linearizes.returns
    · intro r hr
      exact (h.follows t).succeeded r (hr ▸ hphase)
    · intro hr
      exact notMem_ids ((h.follows t).failed (hr ▸ hphase))
  · exact h.decodes
  · refine ⟨fun t' ht => phase_setPhase_of_ne w ht _, fun t' ht => Function.update_of_ne ht ..,
      ?_, ?_, fun _ _ _ _ _ => Iff.rfl⟩
    · intro t' ht k op
      exact mem_snoc_of_ne nofun
    · intro t' ht k r
      apply mem_snoc_of_ne
      intro heq
      cases heq
      exact ht rfl
  · constructor
    case invoked =>
      intro k op hmem
      refine Or.inl (lt_of_lt_of_eq ?_ hcalls.symm)
      rcases List.mem_append.mp hmem with hmem | hmem
      · rcases (h.follows t).invoked k op hmem with hlt | ⟨hk, -⟩ <;> omega
      · cases List.mem_singleton.mp hmem
    case returned =>
      intro k r hmem
      refine lt_of_lt_of_eq ?_ hcalls.symm
      rcases List.mem_append.mp hmem with hmem | hmem
      · exact ((h.follows t).returned k r hmem).trans (Nat.lt_succ_self _)
      · cases List.mem_singleton.mp hmem
        exact Nat.lt_succ_self _
    case pending =>
      intro op hop
      cases (congrArg Phase.pending hself).symm.trans hop
    case copied =>
      intro adopter ms serialized assertions heq
      cases hself.symm.trans heq
    case succeeded =>
      intro r heq
      cases hself.symm.trans heq
    case failed =>
      intro heq
      cases hself.symm.trans heq

/-! ### Whole runs -/

theorem Tracks.step (h : Tracks de d₀ w calls d) (hstep : Step de w w') :
    ∃ calls' d', Tracks de d₀ w' calls' d' := by
  cases hstep with
  | invoke t op hidle => exact ⟨_, _, h.invoke op hidle⟩
  | @insert t adopter assertion hphase value hvalue =>
    have hop : (w.phase t).pending = some (.insert adopter assertion) := by rw [hphase]; rfl
    rw [h.assertions_eq] at hvalue ⊢
    exact ⟨_, _, h.takeEffect hop (h.decodes_insert adopter hvalue)⟩
  | @get t adopter ms hphase =>
    have hop : (w.phase t).pending = some (.applyPendingModification adopter ms) := by
      rw [hphase]; rfl
    refine ⟨_, _, h.setPhase hop nofun ?_ ?_ nofun⟩
    · intro op' hop'
      cases hop'
      rfl
    · intro adopter' ms' serialized assertions heq
      cases heq
      rfl
  | @swap t adopter ms assertions hphase value hvalue =>
    have hop : (w.phase t).pending = some (.applyPendingModification adopter ms) := by
      rw [hphase]; rfl
    have hcopied := (h.follows t).copied _ _ _ _ hphase
    rw [h.assertions_eq] at hcopied
    exact ⟨_, _, h.takeEffect hop (h.decodes_insert adopter (hvalue.trans hcopied))⟩
  | @retry t adopter ms serialized assertions hphase =>
    have hop : (w.phase t).pending = some (.applyPendingModification adopter ms) := by
      rw [hphase]; rfl
    refine ⟨_, _, h.setPhase hop nofun ?_ nofun nofun⟩
    intro op' hop'
    cases hop'
    rfl
  | @read t adopter hphase =>
    have hop : (w.phase t).pending = some (.readAdopter adopter) := by rw [hphase]; rfl
    rw [h.assertions_eq]
    exact ⟨_, _, h.takeEffect hop h.decodes⟩
  | fail t hop => exact ⟨_, _, h.setPhase hop nofun nofun nofun nofun⟩
  | «return» t hphase => exact ⟨_, _, h.return hphase⟩

theorem Tracks.run (h : Tracks de d₀ w calls d) (hrun : Run de w w') :
    ∃ calls' d', Tracks de d₀ w' calls' d' := by
  induction hrun with
  | refl => exact ⟨calls, d, h⟩
  | step _ hstep ih =>
    obtain ⟨calls', d', h'⟩ := ih
    exact h'.step hstep

lemma Run.trans {w'' : System Thread Stored} (h : Run de w w') (h' : Run de w' w'') :
    Run de w w'' := by
  induction h' with
  | refl => exact h
  | step _ hstep ih => exact ih.step hstep

/-- The loop of `apply_pending_modification` on its own is a run of one thread. -/
theorem applyPendingModification_run {fault : Nat → Bool} {adopter : Address}
    {ms : List PendingModification} {fuel : Nat} {s s' : AssertionStore}
    (hrun : exec (AssertionStore.applyPendingModification fault adopter ms fuel) s = (.ok (), s'))
    {w : System Thread (List AssertionState)} {t : Thread} (hdb : w.db = s.db)
    (hphase : w.phase t = .getting adopter ms) :
    ∃ w', Run id w w' ∧ w'.db = s'.db ∧ w'.phase t = .returning (some .applied) := by
  induction fuel generalizing s w with
  | zero => cases congrArg Prod.fst hrun
  | succ fuel ih =>
    unfold AssertionStore.applyPendingModification at hrun
    rw [exec_bind] at hrun
    have hget := @AssertionStore.dbGet_spec fault adopter s s rfl
    rcases hrun₁ : exec (AssertionStore.dbGet fault adopter) s with ⟨e | r, s₁⟩
    · rw [hrun₁] at hrun
      cases congrArg Prod.fst hrun
    rw [hrun₁] at hget hrun
    obtain ⟨rfl, hs₁⟩ := hget
    rw [← hs₁] at hrun hdb
    dsimp only at hrun
    rw [exec_bind] at hrun
    let assertions := ms.foldl AssertionStore.applyModification ((s₁.db.get adopter).getD [])
    let swapping : Phase (List AssertionState) :=
      .swapping adopter ms (w.db.get adopter)
        (ms.foldl AssertionStore.applyModification (decoded id (w.db.get adopter)))
    have hassertions : ms.foldl AssertionStore.applyModification
        (decoded id (w.db.get adopter)) = assertions := by
      rw [hdb]
      exact congrArg (ms.foldl _) (by cases s₁.db.get adopter <;> rfl)
    have hgot : Run id w (w.setPhase t swapping) := .step (.refl w) (.get t hphase)
    have hself := phase_setPhase_self w t swapping
    have hswap := @AssertionStore.compareAndSwap_spec fault adopter assertions s₁ s₁ rfl
    rcases hrun₂ : exec (AssertionStore.compareAndSwap fault adopter (s₁.db.get adopter)
        assertions) s₁ with ⟨e | r, s₂⟩
    · rw [hrun₂] at hswap
      exact hswap.elim
    rw [hrun₂] at hswap hrun
    rcases hswap with ⟨rfl, hs₂⟩ | ⟨rfl, -, hs₂⟩
    · cases hrun
      refine ⟨_, hgot.step (.swap t hself assertions hassertions.symm), ?_,
        phase_setPhase_self ..⟩
      rw [hs₂, ← hdb]
      rfl
    · -- The swap fails with an I/O error, and the loop starts again.
      have hdb' : ((w.setPhase t swapping).setPhase t (.getting adopter ms)).db = s₂.db :=
        hdb.trans hs₂.symm
      obtain ⟨w', hrest, hw'⟩ := ih hrun hdb'
        (phase_setPhase_self (w.setPhase t swapping) t (.getting adopter ms))
      exact ⟨w', (hgot.step (.retry t hself)).trans hrest, hw'⟩

/-- Every run of concurrent calls amounts to the calls that took effect, one after the other,
in an order that agrees with real time, with the results that they returned. -/
theorem store_linearizable {db : OrderedTree Address Stored}
    (hdb : ∀ adopter, (db.get adopter).map de = d₀.get adopter)
    (hrun : Run de (initial db : System Thread Stored) w) :
    ∃ calls d, Linearizes perform d₀ w.history calls d ∧
      ∀ adopter, (w.db.get adopter).map de = d.get adopter := by
  obtain ⟨calls, d, h⟩ := (Tracks.initial db hdb).run hrun
  exact ⟨calls, d, h.linearizes, h.decodes⟩

/-- Assertion 9 of adopter 7, as it is stored. -/
def stored (activeAt : Nat) (inactiveAt : Option Nat) : List AssertionState :=
  [⟨activeAt, inactiveAt, ⟨9, [], 0, ∅, {}⟩, .default⟩]

def moveTo (activeAt : Nat) : Operation :=
  .applyPendingModification 7 [.add 7 ⟨9, [], 0, ∅, {}⟩ .default activeAt 0]

def removeAt (inactiveAt : Nat) : Operation :=
  .applyPendingModification 7 [.remove 7 9 inactiveAt 0]

/-- The content changes and changes back between the read and the swap of a removal. -/
theorem store_linearizable_restored :
    ∃ w : System Bool (List AssertionState),
      w.history = [.invoked (false, 0) (removeAt 5), .invoked (true, 0) (moveTo 2),
        .returned (true, 0) (some .applied), .invoked (true, 1) (moveTo 1),
        .returned (true, 1) (some .applied), .returned (false, 0) (some .applied)] ∧
      w.db.get 7 = some (stored 1 (some 5)) ∧
      ∃ calls d, Linearizes perform (OrderedTree.empty.insert 7 (stored 1 none)) w.history calls d ∧
        ∀ adopter, (w.db.get adopter).map id = d.get adopter := by
  have hrun : Run id
    (initial (OrderedTree.empty.insert 7 (stored 1 none)) : System Bool (List AssertionState)) _ :=
    .refl _
  have hrun := (hrun.step (.invoke false (removeAt 5) rfl)).step (.get false rfl)
  have hrun := (hrun.step (.invoke true (moveTo 2) rfl)).step (.get true rfl)
  have hrun := (hrun.step (.swap true rfl (stored 2 none) rfl)).step (.return true rfl)
  have hrun := (hrun.step (.invoke true (moveTo 1) rfl)).step (.get true rfl)
  have hrun := (hrun.step (.swap true rfl (stored 1 none) rfl)).step (.return true rfl)
  have hrun := (hrun.step (.swap false rfl (stored 1 (some 5)) rfl)).step (.return false rfl)
  exact ⟨_, rfl, rfl, store_linearizable (fun _ => Option.map_id') hrun⟩

end ConcurrentStore

end AssertionExecution
