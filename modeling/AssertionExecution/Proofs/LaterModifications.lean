import AssertionExecution.Proofs.ActivityTimeline
import AssertionExecution.Proofs.RecordUpdates

/-!
# Modifications that take effect later

The indexer moves modifications to the store while transactions are validated against it. What
takes effect after a block mostly leaves alone what is enforced at it.
-/

namespace AssertionExecution

open EffectLogic FirstMatch

namespace AssertionState

def EndedBy (a : AssertionState) (block : Nat) : Prop :=
  a.activeAtBlock ≤ block ∧ a.isActiveAt block = false

lemma not_isActiveAt_of_lt {a : AssertionState} {block : Nat} (h : block < a.activeAtBlock) :
    a.isActiveAt block = false := by
  unfold isActiveAt
  rw [decide_eq_false_iff_not]
  omega

/-- A removal after the block leaves the assertion active from its start. -/
lemma isActiveAt_of_later {a : AssertionState} {block inactiveAt : Nat} (hblock : block < u64Max)
    (h : block < inactiveAt) :
    ({ a with inactiveAtBlock := some inactiveAt } : AssertionState).isActiveAt block =
      decide (a.activeAtBlock ≤ block) := by
  have hend : block <
      ({ a with inactiveAtBlock := some inactiveAt } : AssertionState).inactiveBlock := by
    unfold inactiveBlock
    dsimp only
    by_cases hlt : inactiveAt < a.activeAtBlock
    · rw [if_pos hlt]
      exact hblock
    · rw [if_neg hlt]
      exact h
  unfold isActiveAt
  simp [hend]

end AssertionState

/-! ### Reading a block again -/

section Reread

open ActivityTimeline HashMap

lemma lastAdd_later {history : List PendingModification} {block x : Nat}
    (hlater : ∀ m ∈ history, block < m.effectiveBlock) (h : lastAdd history = some x) :
    block < x := by
  obtain ⟨m, hm, rfl⟩ := Option.map_eq_some_iff.mp h
  exact hlater m (List.mem_filter.mp (List.mem_of_getLast? hm)).1

lemma lastRemove_later {history : List PendingModification} {block x : Nat}
    (hlater : ∀ m ∈ history, block < m.effectiveBlock) (h : lastRemove history = some x) :
    block < x := by
  obtain ⟨m, hm, rfl⟩ := Option.map_eq_some_iff.mp h
  exact hlater m (List.mem_filter.mp (List.mem_of_getLast? hm)).1

lemma foldl_applyModification_later {ms : List PendingModification} {block : Nat}
    (hlater : ∀ m ∈ ms, block < m.effectiveBlock) {as : List AssertionState}
    (has : ∀ a ∈ as, block < a.activeAtBlock) :
    ∀ a ∈ ms.foldl AssertionStore.applyModification as, block < a.activeAtBlock := by
  induction ms generalizing as with
  | nil => exact has
  | cons m ms ih =>
    have hm := hlater m List.mem_cons_self
    apply ih fun m' hm' => hlater m' (List.mem_cons_of_mem m hm')
    intro a ha
    cases m with
    | add adopter contract recorder activeAt logIndex =>
      rcases mem_modifyFirstOrAppend _ _ _ _ ha with hmem | ⟨a', -, -, rfl⟩ | hmem
      · exact has a hmem
      · exact hm
      · rw [List.mem_singleton.mp hmem]
        exact hm
    | remove adopter contractId inactiveAt logIndex =>
      rcases mem_modifyFirstOrAppend _ _ _ _ ha with hmem | ⟨a', ha', -, rfl⟩ | hmem
      · exact has a hmem
      · exact has a' ha'
      · exact absurd hmem List.not_mem_nil

/-- The record of an assertion at a block, before and after later modifications of it. -/
lemma reread_record_iff {a : AssertionState} {history : List PendingModification} {block : Nat}
    (hblock : block < u64Max) (hids : ∀ m ∈ history, m.assertionContractId = a.assertionContractId)
    (hlater : ∀ m ∈ history, block < m.effectiveBlock) :
    ((∃ a' ∈ history.foldl AssertionStore.applyModification [a], a'.isActiveAt block) ↔
        a.isActiveAt block) ↔
      ((lastAdd history).isSome → a.isActiveAt block = false) ∧
      (lastAdd history = none → (lastRemove history).isSome → ¬a.EndedBy block) := by
  rw [foldl_applyModification_singleton a history hids]
  simp only [List.mem_singleton, exists_eq_left]
  cases hadd : lastAdd history with
  | some x =>
    have hinactive : ∀ r, ({ a with activeAtBlock := x, inactiveAtBlock := r } :
        AssertionState).isActiveAt block = false :=
      fun r => AssertionState.not_isActiveAt_of_lt (lastAdd_later hlater hadd)
    rw [Option.getD_some, hinactive]
    simp
  | none =>
    rw [Option.getD_none]
    cases hremove : lastRemove history with
    | none => simp
    | some r =>
      rw [Option.some_or,
        AssertionState.isActiveAt_of_later hblock (lastRemove_later hlater hremove)]
      unfold AssertionState.EndedBy
      have hactive : a.isActiveAt block = true → a.activeAtBlock ≤ block := by
        intro h
        by_contra hlt
        rw [AssertionState.not_isActiveAt_of_lt (Nat.lt_of_not_le hlt)] at h
        cases h
      cases h : a.isActiveAt block with
      | true => simpa using hactive h
      | false => simp

/-- What is added or removed after a block leaves what is returned at the block, except that an
assertion active at it is lost when it is added again, and one that has ended by it is back when it
is removed again. -/
theorem reread_iff {s s' : AssertionStore} (hs : s.Reachable) {ms : List PendingModification}
    (hrun : Applied s ms s') {block : Nat} (hblock : block < u64Max)
    (hlater : ∀ m ∈ ms, block < m.effectiveBlock) (it : Iteration) (tracer : CallTracer)
    (adopter : Address) (htouch : ∃ t, Holds (tracer.triggers it) adopter t) (id : B256) :
    (Returns (AssertionStore.readResult it s'.db tracer block) adopter id ↔
      Returns (AssertionStore.readResult it s.db tracer block) adopter id) ↔
    ∀ a ∈ AssertionStore.assertions s.db adopter, a.assertionContractId = id →
      ((lastAdd (historyOf adopter id ms)).isSome → a.isActiveAt block = false) ∧
      (lastAdd (historyOf adopter id ms) = none → (lastRemove (historyOf adopter id ms)).isSome →
        ¬a.EndedBy block) := by
  have hhistory : ∀ m ∈ historyOf adopter id ms, block < m.effectiveBlock := by
    intro m hm
    exact hlater m (List.mem_filter.mp (List.mem_filter.mp hm).1).1
  have hids : ∀ m ∈ historyOf adopter id ms, m.assertionContractId = id :=
    fun m hm => of_decide_eq_true (List.mem_filter.mp hm).2
  have hmem : ∀ a, a ∈ AssertionStore.records id (AssertionStore.assertions s.db adopter) ↔
      a ∈ AssertionStore.assertions s.db adopter ∧ a.assertionContractId = id := by
    intro a
    rw [AssertionStore.records, List.mem_filter, decide_eq_true_iff]
  have hrecords := AssertionStore.records_applyAll s.db id adopter ms
  rw [← hrun.db_eq] at hrecords
  rw [returns_readResult_iff it s'.db tracer block adopter id htouch,
    returns_readResult_iff it s.db tracer block adopter id htouch, hrecords]
  change ((∃ a ∈ (historyOf adopter id ms).foldl _ _, _) ↔ _) ↔ _
  simp only [← and_imp, ← hmem]
  have hunique := hs.uniqueRecords adopter id
  cases hcase : AssertionStore.records id (AssertionStore.assertions s.db adopter) with
  | nil =>
    have hnone : ¬∃ a ∈ (historyOf adopter id ms).foldl AssertionStore.applyModification [],
        a.isActiveAt block := by
      rintro ⟨a, ha, hactive⟩
      have hlt := foldl_applyModification_later hhistory (fun _ h => absurd h List.not_mem_nil) a ha
      rw [AssertionState.not_isActiveAt_of_lt hlt] at hactive
      cases hactive
    simp [hnone]
  | cons a rest =>
    have hid : a.assertionContractId = id := ((hmem a).mp (by rw [hcase]; simp)).2
    cases rest with
    | nil =>
      have hrecord := reread_record_iff hblock (fun m hm => (hids m hm).trans hid.symm) hhistory
      simpa using hrecord
    | cons b rest =>
      rw [hcase] at hunique
      simp at hunique

/-- Assertion 9 of adopter 1 is added at 100 and removed at 200. -/
def endedStore : AssertionStore :=
  (exec (AssertionStore.applyPendingModifications (fun _ => false) .buckets 1
    [.add 1 ⟨9, [], 0, ∅, {}⟩ .default 100 0, .remove 1 9 200 1]) .newEphemeral).2

/-- It is back at 250 after it is removed again at 300. -/
theorem reread_iff_removed_again :
    ∃ s', Applied endedStore [.remove 1 9 300 2] s' ∧
      ¬(Returns (AssertionStore.readResult .buckets s'.db adopterCall 250) 1 9 ↔
        Returns (AssertionStore.readResult .buckets endedStore.db adopterCall 250) 1 9) := by
  have hs : endedStore.Reachable :=
    .applyPendingModifications (fun _ => false) .buckets 1 _ .newEphemeral
  obtain ⟨_, s', hbatch, -⟩ :=
    (@AssertionStore.applyPendingModifications_spec (fun _ => false) endedStore.db .buckets 1
      [.remove 1 9 300 2]).exists_ok (s := endedStore) rfl (by simp)
  have hrun : Applied endedStore [.remove 1 9 300 2] s' := .batch (.none _) _ _ _ _ hbatch
  have hiff := reread_iff hs hrun (by decide : 250 < u64Max)
    (by simp [PendingModification.effectiveBlock]) .buckets adopterCall 1 adopterCall_touches 9
  apply Exists.intro s'
  apply And.intro hrun
  intro h
  obtain ⟨-, hended⟩ := hiff.mp h ⟨100, some 200, ⟨9, [], 0, ∅, {}⟩, .default⟩
    (List.mem_singleton_self _) rfl
  exact hended rfl rfl ⟨by decide, by decide⟩

end Reread

/-! ### What a block sees of an adopter -/

/-- The contracts that are active at a block, with the triggers recorded for them. -/
def seenAt (block : Nat) (assertions : List AssertionState) :
    List (AssertionContract × TriggerRecorder) :=
  (assertions.filter (·.isActiveAt block)).map fun a => (a.assertionContract, a.triggerRecorder)

/-- The modification takes effect after the block, adds none of the assertions that are active at
it again, and removes none of those again that have ended by it. -/
def Later (block : Nat) (assertions : List AssertionState) : PendingModification → Prop
  | .add _ contract _ activeAtBlock _ => block < activeAtBlock ∧
      ∀ a ∈ assertions, a.assertionContractId = contract.id → a.isActiveAt block = false
  | .remove _ contractId inactiveAtBlock _ => block < inactiveAtBlock ∧
      ∀ a ∈ assertions, a.assertionContractId = contractId → ¬a.EndedBy block

/-- Later modifications keep what the block sees, and end nothing by then. -/
structure Steady (block : Nat) (before after : List AssertionState) : Prop where
  seen : seenAt block after = seenAt block before
  ended : ∀ a ∈ after, a.EndedBy block →
    ∃ a₀ ∈ before, a₀.assertionContractId = a.assertionContractId ∧ a₀.EndedBy block

lemma Steady.refl (block : Nat) (assertions : List AssertionState) :
    Steady block assertions assertions :=
  ⟨rfl, fun a ha hended => ⟨a, ha, rfl, hended⟩⟩

lemma Steady.active {block : Nat} {before after : List AssertionState}
    (h : Steady block before after) {a : AssertionState} (ha : a ∈ after)
    (hactive : a.isActiveAt block = true) :
    ∃ a₀ ∈ before, a₀.assertionContractId = a.assertionContractId ∧ a₀.isActiveAt block = true := by
  have hmem : (a.assertionContract, a.triggerRecorder) ∈ seenAt block after :=
    List.mem_map.mpr ⟨a, List.mem_filter.mpr ⟨ha, hactive⟩, rfl⟩
  rw [h.seen] at hmem
  obtain ⟨a₀, ha₀, heq⟩ := List.mem_map.mp hmem
  obtain ⟨hin, hactive₀⟩ := List.mem_filter.mp ha₀
  refine ⟨a₀, hin, ?_, hactive₀⟩
  exact congrArg AssertionContract.id (congrArg Prod.fst heq)

/-- An update that keeps what the block sees of each match keeps what it sees. -/
lemma seenAt_modifyFirstOrAppend {block : Nat} {p : AssertionState → Bool}
    {f : AssertionState → AssertionState} {extra as : List AssertionState}
    (hf : ∀ a ∈ as, p a = true → seenAt block [f a] = seenAt block [a])
    (hextra : seenAt block extra = []) :
    seenAt block (modifyFirstOrAppend p f extra as) = seenAt block as := by
  have hcons : ∀ a as, seenAt block (a :: as) = seenAt block [a] ++ seenAt block as := by
    intro a as
    unfold seenAt
    rw [← List.map_append, ← List.filter_append]
    rfl
  induction as with
  | nil => exact hextra
  | cons a as ih =>
    unfold modifyFirstOrAppend
    by_cases h : p a = true
    · rw [if_pos h, hcons, hf a List.mem_cons_self h, ← hcons]
    · rw [if_neg h, hcons, ih fun b hb => hf b (List.mem_cons_of_mem a hb), ← hcons]

lemma seenAt_singleton (block : Nat) (a : AssertionState) :
    seenAt block [a] =
      if a.isActiveAt block then [(a.assertionContract, a.triggerRecorder)] else [] := by
  unfold seenAt
  cases h : a.isActiveAt block <;> simp [h]

lemma seenAt_eq_nil {block : Nat} {a : AssertionState} (h : a.isActiveAt block = false) :
    seenAt block [a] = [] := by
  rw [seenAt_singleton, h]
  rfl

lemma Steady.applyModification {block : Nat} (hblock : block < u64Max)
    {before after : List AssertionState} (h : Steady block before after)
    {m : PendingModification} (hm : Later block before m) :
    Steady block before (AssertionStore.applyModification after m) := by
  cases m with
  | add adopter contract recorder activeAt logIndex =>
    obtain ⟨hlt, hinactive⟩ := hm
    have hstart : ∀ a : AssertionState,
        ({ a with activeAtBlock := activeAt } : AssertionState).isActiveAt block = false :=
      fun a => AssertionState.not_isActiveAt_of_lt hlt
    constructor
    · rw [← h.seen]
      apply seenAt_modifyFirstOrAppend
      · intro a ha hid
        have hsame : a.isActiveAt block = false := by
          by_contra hactive
          obtain ⟨a₀, ha₀, hid₀, hactive₀⟩ := h.active ha (Bool.eq_true_of_not_eq_false hactive)
          rw [hinactive a₀ ha₀ (hid₀.trans (of_decide_eq_true hid))] at hactive₀
          cases hactive₀
        rw [seenAt_eq_nil hsame, seenAt_eq_nil (hstart a)]
      · exact seenAt_eq_nil (AssertionState.not_isActiveAt_of_lt hlt)
    · intro a ha hended
      rcases mem_modifyFirstOrAppend _ _ _ _ ha with hmem | ⟨a', -, -, rfl⟩ | hmem
      · exact h.ended a hmem hended
      · exact absurd hended.1 (Nat.not_le_of_lt hlt)
      · rw [List.mem_singleton.mp hmem] at hended
        exact absurd hended.1 (Nat.not_le_of_lt hlt)
  | remove adopter contractId inactiveAt logIndex =>
    obtain ⟨hlt, hnot⟩ := hm
    have hkept : ∀ a ∈ after, a.assertionContractId = contractId → ¬a.EndedBy block := by
      intro a ha hid hended
      obtain ⟨a₀, ha₀, hid₀, hended₀⟩ := h.ended a ha hended
      exact hnot a₀ ha₀ (hid₀.trans hid) hended₀
    constructor
    · rw [← h.seen]
      apply seenAt_modifyFirstOrAppend _ rfl
      intro a ha hid
      rw [seenAt_singleton, seenAt_singleton, AssertionState.isActiveAt_of_later hblock hlt]
      by_cases hstart : a.activeAtBlock ≤ block
      · have hactive : a.isActiveAt block = true := by
          by_contra hinactive
          exact hkept a ha (of_decide_eq_true hid) ⟨hstart, Bool.eq_false_iff.mpr hinactive⟩
        rw [decide_eq_true hstart, hactive]
      · rw [AssertionState.not_isActiveAt_of_lt (Nat.lt_of_not_le hstart), decide_eq_false hstart]
    · intro a ha hended
      rcases mem_modifyFirstOrAppend _ _ _ _ ha with hmem | ⟨a', ha', -, rfl⟩ | hmem
      · exact h.ended a hmem hended
      · have hactive := AssertionState.isActiveAt_of_later (a := a') hblock hlt
        rw [hended.2, decide_eq_true hended.1] at hactive
        cases hactive
      · exact absurd hmem List.not_mem_nil

lemma Steady.foldl_applyModification {block : Nat} (hblock : block < u64Max)
    {before after : List AssertionState} (h : Steady block before after)
    {ms : List PendingModification} (hms : ∀ m ∈ ms, Later block before m) :
    Steady block before (ms.foldl AssertionStore.applyModification after) := by
  induction ms generalizing after with
  | nil => exact h
  | cons m ms ih =>
    exact ih (h.applyModification hblock (hms m List.mem_cons_self))
      fun m' hm' => hms m' (List.mem_cons_of_mem m hm')

end AssertionExecution
