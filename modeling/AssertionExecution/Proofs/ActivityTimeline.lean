import AssertionExecution.Proofs.TriggerSelection

/-!
# When an assertion is active

A record keeps one activation and one deactivation block. After any history of additions
and removals these are the blocks of the last addition and of the last removal.
-/

namespace AssertionExecution

open EffectLogic FirstMatch HashMap

namespace PendingModification

def isAdd : PendingModification → Bool
  | add .. => true
  | remove .. => false

def effectiveBlock : PendingModification → Nat
  | add _ _ _ activeAtBlock _ => activeAtBlock
  | remove _ _ inactiveAtBlock _ => inactiveAtBlock

end PendingModification

namespace ActivityTimeline

def lastAdd (history : List PendingModification) : Option Nat :=
  ((history.filter (·.isAdd)).getLast?).map (·.effectiveBlock)

def lastRemove (history : List PendingModification) : Option Nat :=
  ((history.filter (!·.isAdd)).getLast?).map (·.effectiveBlock)

/-- Active from the last addition on, and before the last removal unless that came earlier. -/
def recordedActive (history : List PendingModification) (block : Nat) : Bool :=
  match lastAdd history, lastRemove history with
  | none, _ => false
  | some a, none => a ≤ block
  | some a, some r => a ≤ block ∧ (r < a ∨ block < r)

/-- The last modification that has taken effect is an addition. -/
def lastEffectiveIsAdd (history : List PendingModification) (block : Nat) : Bool :=
  match (history.filter (fun m => m.effectiveBlock ≤ block)).getLast? with
  | some m => m.isAdd
  | none => false

@[simp] lemma lastAdd_append_add (history : List PendingModification) {m : PendingModification}
    (h : m.isAdd = true) : lastAdd (history ++ [m]) = some m.effectiveBlock := by
  simp [lastAdd, h]

@[simp] lemma lastAdd_append_remove (history : List PendingModification)
    {m : PendingModification} (h : m.isAdd = false) :
    lastAdd (history ++ [m]) = lastAdd history := by
  simp [lastAdd, h]

@[simp] lemma lastRemove_append_add (history : List PendingModification)
    {m : PendingModification} (h : m.isAdd = true) :
    lastRemove (history ++ [m]) = lastRemove history := by
  simp [lastRemove, h]

@[simp] lemma lastRemove_append_remove (history : List PendingModification)
    {m : PendingModification} (h : m.isAdd = false) :
    lastRemove (history ++ [m]) = some m.effectiveBlock := by
  simp [lastRemove, h]

/-- A record keeps the block of the last addition and of the last removal. -/
lemma foldl_applyModification_singleton (a : AssertionState) (ms : List PendingModification)
    (hms : ∀ m ∈ ms, m.assertionContractId = a.assertionContractId) :
    ms.foldl AssertionStore.applyModification [a] =
      [{ a with
        activeAtBlock := (lastAdd ms).getD a.activeAtBlock
        inactiveAtBlock := (lastRemove ms).or a.inactiveAtBlock }] := by
  induction ms using List.reverseRecOn with
  | nil => rfl
  | append_singleton ms m ih =>
    have hm : m.assertionContractId = a.assertionContractId := hms m (by simp)
    rw [List.foldl_append, ih fun m' hm' => hms m' (List.mem_append_left _ hm'),
      List.foldl_cons, List.foldl_nil]
    cases m with
    | add adopter contract recorder activeAt logIndex =>
      have hcontract : a.assertionContract.id = contract.id := hm.symm
      rw [lastAdd_append_add _ rfl, lastRemove_append_add _ rfl]
      simp [AssertionStore.applyModification, modifyFirstOrAppend,
        AssertionState.assertionContractId, hcontract, PendingModification.effectiveBlock]
    | remove adopter contractId inactiveAt logIndex =>
      have hcontract : a.assertionContract.id = contractId := hm.symm
      rw [lastAdd_append_remove _ rfl, lastRemove_append_remove _ rfl]
      simp [AssertionStore.applyModification, modifyFirstOrAppend,
        AssertionState.assertionContractId, hcontract, PendingModification.effectiveBlock]

lemma lastAdd_cons_add {first : PendingModification} (h : first.isAdd = true)
    (rest : List PendingModification) :
    lastAdd (first :: rest) = some ((lastAdd rest).getD first.effectiveBlock) := by
  unfold lastAdd
  rw [List.filter_cons_of_pos h, List.getLast?_cons]
  cases (rest.filter (·.isAdd)).getLast? <;> rfl

lemma lastRemove_cons_add {first : PendingModification} (h : first.isAdd = true)
    (rest : List PendingModification) : lastRemove (first :: rest) = lastRemove rest := by
  unfold lastRemove
  rw [List.filter_cons_of_neg (by simp [h])]

lemma foldl_applyModification_records (id : B256) (first : PendingModification)
    (hfirst : first.isAdd = true) (hid : first.assertionContractId = id)
    (rest : List PendingModification) (hrest : ∀ m ∈ rest, m.assertionContractId = id) :
    ∃ a : AssertionState, a.assertionContractId = id ∧
      (first :: rest).foldl AssertionStore.applyModification [] = [a] ∧
      lastAdd (first :: rest) = some a.activeAtBlock ∧
      lastRemove (first :: rest) = a.inactiveAtBlock := by
  rw [lastAdd_cons_add hfirst, lastRemove_cons_add hfirst]
  cases first with
  | add adopter contract recorder activeAt logIndex =>
    have hrun := foldl_applyModification_singleton ⟨activeAt, none, contract, recorder⟩ rest
      fun m hm => (hrest m hm).trans hid.symm
    refine ⟨_, ?_, hrun, rfl, Option.or_none.symm⟩
    exact hid
  | remove adopter contractId inactiveAt logIndex => exact (Bool.false_ne_true hfirst).elim

lemma isActiveAt_iff {history : List PendingModification} {a : AssertionState}
    (hadd : lastAdd history = some a.activeAtBlock)
    (hremove : lastRemove history = a.inactiveAtBlock) {block : Nat} (hblock : block < u64Max) :
    a.isActiveAt block = recordedActive history block := by
  unfold AssertionState.isActiveAt AssertionState.inactiveBlock recordedActive
  rw [hadd, hremove]
  cases a.inactiveAtBlock with
  | none => simp [hblock]
  | some r =>
    dsimp only
    by_cases h : r < a.activeAtBlock
    · simp [h, hblock]
    · simp [h]

lemma lastEffectiveIsAdd_append {m : PendingModification} {block : Nat}
    (history : List PendingModification) (h : m.effectiveBlock ≤ block) :
    lastEffectiveIsAdd (history ++ [m]) block = m.isAdd := by
  simp [lastEffectiveIsAdd, h]

/-- From the last addition on, the record tells what the history tells, unless a removal
shares the block of a later addition or the removals after it have different blocks. -/
theorem recordedActive_eq_lastEffectiveIsAdd (before after : List PendingModification)
    (add : PendingModification) (hadd : add.isAdd = true)
    (hafter : ∀ m ∈ after, m.isAdd = false)
    (hsorted : ((before ++ add :: after).map (·.effectiveBlock)).Pairwise (· ≤ ·))
    (hshared : after = [] → ∀ m ∈ before, m.isAdd = false → m.effectiveBlock ≠ add.effectiveBlock)
    (hremovals : ∀ m ∈ after, ∀ m' ∈ after, m.effectiveBlock = m'.effectiveBlock)
    (block : Nat) (hblock : add.effectiveBlock ≤ block) :
    recordedActive (before ++ add :: after) block =
      lastEffectiveIsAdd (before ++ add :: after) block := by
  rw [List.map_append, List.map_cons, List.pairwise_append, List.pairwise_cons] at hsorted
  obtain ⟨-, ⟨hle_after, -⟩, hle_before⟩ := hsorted
  have hlastAdd : lastAdd (before ++ add :: after) = some add.effectiveBlock := by
    have hnone : after.filter (·.isAdd) = [] := by
      simpa [List.filter_eq_nil_iff] using hafter
    simp [lastAdd, List.filter_append, hadd, hnone]
  rcases List.eq_nil_or_concat after with rfl | ⟨after, last, rfl⟩
  · rw [lastEffectiveIsAdd_append before hblock, hadd]
    have hlastRemove : ∀ r, lastRemove (before ++ [add]) = some r → r < add.effectiveBlock := by
      intro r hr
      rw [lastRemove_append_add _ hadd] at hr
      obtain ⟨m, hm, rfl⟩ := Option.map_eq_some_iff.mp hr
      obtain ⟨hmem, hmRemove⟩ := List.mem_filter.mp (List.mem_of_getLast? hm)
      have hne := hshared rfl m hmem (by simpa using hmRemove)
      have hle := hle_before _ (List.mem_map_of_mem hmem) _ (List.mem_cons_self ..)
      omega
    unfold recordedActive
    rw [hlastAdd]
    cases hr : lastRemove (before ++ [add]) with
    | none => simpa using hblock
    | some r => simp [hblock, hlastRemove r hr]
  · have hlast : last.isAdd = false := hafter last (by simp)
    have hconcat : before ++ add :: after.concat last = (before ++ add :: after) ++ [last] := by
      simp
    have hle : add.effectiveBlock ≤ last.effectiveBlock := hle_after _ (by simp)
    rw [hconcat] at hlastAdd ⊢
    unfold recordedActive
    rw [hlastAdd, lastRemove_append_remove _ hlast]
    by_cases hb : last.effectiveBlock ≤ block
    · rw [lastEffectiveIsAdd_append _ hb, hlast]
      simp [hb, hle]
    · have hnone : (after ++ [last]).filter (fun m => m.effectiveBlock ≤ block) = [] := by
        rw [List.filter_eq_nil_iff]
        intro m hm
        have heq := hremovals m (by simpa using hm) last (by simp)
        simpa [heq] using hb
      have heffective : lastEffectiveIsAdd ((before ++ add :: after) ++ [last]) block = true := by
        rw [List.append_assoc, List.cons_append]
        simp only [lastEffectiveIsAdd, List.filter_append, List.filter_cons, hnone]
        simp [hblock, hadd]
      rw [heffective]
      simp [hblock, Nat.lt_of_not_le hb]

/-- A sequence of batches, each of them applied, with all their modifications in order. -/
inductive Applied : AssertionStore → List PendingModification → AssertionStore → Prop
  | none (s : AssertionStore) : Applied s [] s
  | batch {s s' s'' : AssertionStore} {ms : List PendingModification} (h : Applied s ms s')
      (fault : Nat → Bool) (it : Iteration) (fuel : Nat) (batch : List PendingModification)
      (hrun : exec (AssertionStore.applyPendingModifications fault it fuel batch) s' =
        (.ok (), s'')) : Applied s (ms ++ batch) s''

lemma Applied.db_eq {s s' : AssertionStore} {ms : List PendingModification}
    (h : Applied s ms s') : s'.db = AssertionStore.applyAll s.db ms := by
  induction h with
  | none => rfl
  | batch _ fault it fuel batch hrun ih =>
    rw [AssertionStore.applyAll_append, ← ih]
    exact (AssertionStore.applyPendingModifications_spec it fuel batch).ok rfl hrun

def historyOf (adopter : Address) (id : B256) (ms : List PendingModification) :
    List PendingModification :=
  AssertionStore.forId id (AssertionStore.forAdopter adopter ms)

def Returns (result : List AssertionsForExecution) (adopter : Address) (id : B256) : Prop :=
  ∃ x ∈ result, x.adopter = adopter ∧ x.assertionContract.id = id

/-- A transaction that touches the adopter reads the assertion exactly when it is active. -/
lemma returns_readResult_iff (it : Iteration) (d : OrderedTree Address (List AssertionState))
    (tracer : CallTracer) (block : Nat) (adopter : Address) (id : B256)
    (htouch : ∃ t, Holds (tracer.triggers it) adopter t) :
    Returns (AssertionStore.readResult it d tracer block) adopter id ↔
      ∃ a ∈ AssertionStore.records id (AssertionStore.assertions d adopter),
        a.isActiveAt block := by
  obtain ⟨t, triggers, htriggers, -⟩ := htouch
  have hfilter := AssertionStore.filter_readResult (d := d) it tracer block adopter
  rw [htriggers, Option.map_some, Option.getD_some] at hfilter
  have hmem : ∀ x, (x ∈ AssertionStore.readResult it d tracer block ∧ x.adopter = adopter) ↔
      x ∈ AssertionStore.matchedAssertions it d block adopter triggers := by
    intro x
    rw [← hfilter, List.mem_filter, decide_eq_true_iff]
  unfold Returns
  simp only [← and_assoc, hmem, AssertionStore.matchedAssertions, AssertionStore.records,
    List.mem_map, List.mem_filter, decide_eq_true_iff]
  constructor
  · rintro ⟨x, ⟨a, ⟨ha, hactive⟩, rfl⟩, hid⟩
    exact ⟨a, ⟨ha, hid⟩, hactive⟩
  · rintro ⟨a, ⟨ha, hid⟩, hactive⟩
    exact ⟨_, ⟨a, ⟨ha, hactive⟩, rfl⟩, hid⟩

/-- A read tells whether the assertion is active by the blocks of its last addition and its
last removal. From the last addition on this is the history's own answer, unless a removal
shares that block or the removals after it have different blocks. -/
theorem activity_timeline (adopter : Address) (id : B256) {s s' : AssertionStore}
    {ms : List PendingModification} (hrun : Applied s ms s')
    (hnew : AssertionStore.records id (AssertionStore.assertions s.db adopter) = [])
    (first : PendingModification) (rest : List PendingModification)
    (hhistory : historyOf adopter id ms = first :: rest) (hfirst : first.isAdd = true)
    (hsorted : ((historyOf adopter id ms).map (·.effectiveBlock)).Pairwise (· ≤ ·))
    (fault : Nat → Bool) (it : Iteration) (tracer : CallTracer)
    (htouch : ∃ t, Holds (tracer.triggers it) adopter t)
    (blockNum : U256) (hblock : blockNum.toNat < u64Max) :
    Triple (fun t => t = s') (AssertionStore.read fault it tracer blockNum)
      (fun result _ =>
        (Returns result adopter id ↔
          recordedActive (historyOf adopter id ms) blockNum.toNat = true) ∧
        ∀ before add after, historyOf adopter id ms = before ++ add :: after →
          add.isAdd = true → (∀ m ∈ after, m.isAdd = false) →
          (after = [] → ∀ m ∈ before, m.isAdd = false → m.effectiveBlock ≠ add.effectiveBlock) →
          (∀ m ∈ after, ∀ m' ∈ after, m.effectiveBlock = m'.effectiveBlock) →
          add.effectiveBlock ≤ blockNum.toNat →
          (Returns result adopter id ↔
            lastEffectiveIsAdd (historyOf adopter id ms) blockNum.toNat = true))
      (fun e _ => e = .error .sledError ∧ ∃ t, fault t = true) := by
  have hids : ∀ m ∈ historyOf adopter id ms, m.assertionContractId = id :=
    fun m hm => of_decide_eq_true (List.mem_filter.mp hm).2
  have hrecords := AssertionStore.records_applyAll s.db id adopter ms
  rw [← hrun.db_eq, hnew] at hrecords
  change _ = (historyOf adopter id ms).foldl _ [] at hrecords
  rw [hhistory] at hids
  obtain ⟨a, -, ha, hadd, hremove⟩ := foldl_applyModification_records id first hfirst
    (hids first (List.mem_cons_self ..)) rest (fun m hm => hids m (List.mem_cons_of_mem _ hm))
  rw [hhistory, ha] at hrecords
  rw [← hhistory] at hadd hremove
  refine (AssertionStore.read_spec (d := s'.db) it tracer blockNum).consequence
    (fun _ h => by rw [h]) ?_ ?_
  · rintro result - ⟨-, -, rfl⟩
    have hreturns := returns_readResult_iff it s'.db tracer blockNum.toNat adopter id htouch
    rw [hrecords] at hreturns
    simp only [List.mem_singleton, exists_eq_left] at hreturns
    rw [isActiveAt_iff hadd hremove hblock] at hreturns
    refine ⟨hreturns, ?_⟩
    intro before add after hsplit haddition hafter hshared hremovals hle
    rw [hreturns, hsplit, recordedActive_eq_lastEffectiveIsAdd before after add haddition hafter
      (hsplit ▸ hsorted) hshared hremovals _ hle]
  · rintro e - (⟨-, h⟩ | h)
    · omega
    · exact h

/-- Assertion 9 of adopter 1 is added at 100, removed at 200 and added again. -/
def readded (again : Nat) : List PendingModification :=
  [.add 1 ⟨9, [], 0, ∅, {}⟩ .default 100 0, .remove 1 9 200 1,
    .add 1 ⟨9, [], 0, ∅, {}⟩ .default again 2]

def readdedStore (again : Nat) : AssertionStore :=
  (exec (AssertionStore.applyPendingModifications (fun _ => false) .buckets 1 (readded again))
    .newEphemeral).2

def adopterCall : CallTracer := CallTracer.ofCalls [⟨[], 0, 1, 1, 0, 0⟩] none

lemma adopterCall_touches : ∃ t, Holds (adopterCall.triggers .buckets) 1 t :=
  ⟨.call 0, (CallTracer.holds_triggers_ofCalls _ _ _ _ _).mpr
    (Or.inl ⟨_, List.mem_singleton_self _, rfl, rfl⟩)⟩

lemma readdedStore_applied (again : Nat) :
    Applied .newEphemeral (readded again) (readdedStore again) :=
  .batch (.none _) (fun _ => false) .buckets 1 (readded again) rfl

theorem activity_timeline_readded :
    Triple (fun t => t = readdedStore 300)
      (AssertionStore.read (fun _ => false) .buckets adopterCall 350)
      (fun result _ => Returns result 1 9) (fun _ _ => False) := by
  refine (activity_timeline 1 9 (readdedStore_applied 300) rfl _ _ rfl rfl (by decide)
    (fun _ => false) .buckets adopterCall adopterCall_touches 350 (by decide)).consequence
    (fun _ h => h) ?_ ?_
  · rintro result s ⟨hreturns, -⟩
    exact hreturns.mpr (by decide)
  · rintro e s ⟨-, t, ht⟩
    exact Bool.false_ne_true ht

/-- A re-addition at 300 ends the assertion before its removal at 200 takes effect, and one at
200 leaves it inactive afterwards. -/
theorem readded_assertion_is_lost :
    (Applied .newEphemeral (readded 300) (readdedStore 300) ∧
      historyOf 1 9 (readded 300) = readded 300 ∧
      ((readded 300).map (·.effectiveBlock)).Pairwise (· ≤ ·) ∧
      (∃ t, Holds (adopterCall.triggers .buckets) 1 t) ∧
      (exec (AssertionStore.read (fun _ => false) .buckets adopterCall 150)
        (readdedStore 300)).1 = .ok [] ∧
      lastEffectiveIsAdd (readded 300) 150 = true) ∧
    (Applied .newEphemeral (readded 200) (readdedStore 200) ∧
      historyOf 1 9 (readded 200) = readded 200 ∧
      ((readded 200).map (·.effectiveBlock)).Pairwise (· ≤ ·) ∧
      (∃ t, Holds (adopterCall.triggers .buckets) 1 t) ∧
      (exec (AssertionStore.read (fun _ => false) .buckets adopterCall 250)
        (readdedStore 200)).1 = .ok [] ∧
      lastEffectiveIsAdd (readded 200) 250 = true) :=
  ⟨⟨readdedStore_applied 300, rfl, by decide, adopterCall_touches, rfl, rfl⟩,
    ⟨readdedStore_applied 200, rfl, by decide, adopterCall_touches, rfl, rfl⟩⟩

end ActivityTimeline

end AssertionExecution
