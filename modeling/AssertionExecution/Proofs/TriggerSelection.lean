import AssertionExecution.Model.Abi
import AssertionExecution.Proofs.StoreRead
import AssertionExecution.Proofs.StoreRecords

/-!
# Trigger selection, end to end

From the calldata of the register calls and the calls and journal of a transaction to the
selectors a read returns.
-/

namespace AssertionExecution

open EffectLogic HashMap

/-! ### What register calls record -/

/-- The calldata that registers a function for a trigger. -/
def ITriggerRecorder.registration (abi : ITriggerRecorder) (t : TriggerType) (f : Selector) :
    Bytes :=
  match t with
  | .allCalls => abi.registerCallTrigger_0.abiEncode f
  | .call selector => abi.registerCallTrigger_1.abiEncode (f, selector)
  | .allStorageChanges => abi.registerStorageChangeTrigger_0.abiEncode f
  | .storageChange slot => abi.registerStorageChangeTrigger_1.abiEncode (f, slot)
  | .balanceChange => abi.registerBalanceChangeTrigger.abiEncode f

def ITriggerRecorder.registrationSelector (abi : ITriggerRecorder) : TriggerType → Selector
  | .allCalls => abi.registerCallTrigger_0.selector
  | .call _ => abi.registerCallTrigger_1.selector
  | .allStorageChanges => abi.registerStorageChangeTrigger_0.selector
  | .storageChange _ => abi.registerStorageChangeTrigger_1.selector
  | .balanceChange => abi.registerBalanceChangeTrigger.selector

namespace TriggerRecorder

def ofCalls (abi : ITriggerRecorder) (calls : List CallInputs) : TriggerRecorder :=
  calls.foldl (fun r inputs => (r.call abi inputs).2) default

variable {abi : ITriggerRecorder}

lemma leadingSelector_registration (habi : abi.Lawful) (t : TriggerType) (f : Selector) :
    leadingSelector (abi.registration t f) = abi.registrationSelector t := by
  cases t with
  | call selector => exact habi.registerCallTrigger_1.encode_selector _
  | allCalls => exact habi.registerCallTrigger_0.encode_selector _
  | balanceChange => exact habi.registerBalanceChangeTrigger.encode_selector _
  | storageChange slot => exact habi.registerStorageChangeTrigger_1.encode_selector _
  | allStorageChanges => exact habi.registerStorageChangeTrigger_0.encode_selector _

lemma holds_decodeAndAdd {Args : Type} {call : SolCall Args} (hcall : call.Lawful)
    (triggerType : Args → TriggerType) (fnSelector : Args → Selector) (r : TriggerRecorder)
    (input : Bytes) (t : TriggerType) (f : Selector) :
    Holds (decodeAndAdd call triggerType fnSelector r input).2.triggers t f ↔
      Holds r.triggers t f ∨
        ∃ args, input = call.abiEncode args ∧ t = triggerType args ∧ f = fnSelector args := by
  unfold decodeAndAdd
  have hdecode := hcall.decode_iff input
  cases h : call.abiDecode input with
  | none =>
    refine (or_iff_left ?_).symm
    rintro ⟨args, hargs, -⟩
    exact Option.some_ne_none args ((hdecode args).mpr hargs ▸ h)
  | some args =>
    dsimp only [addTrigger]
    rw [holds_insertInto]
    refine or_congr Iff.rfl ⟨fun ht => ⟨args, (hdecode args).mp h, ht⟩, ?_⟩
    rintro ⟨args', hargs', ht⟩
    have heq : some args' = some args := ((hdecode args').mpr hargs').symm.trans h
    cases heq
    exact ht

/-- One branch of `record_trigger`, for the triggers that its function registers. -/
lemma holds_decodeAndAdd_registration (habi : abi.Lawful) {Args : Type} {call : SolCall Args}
    (hcall : call.Lawful) (triggerType : Args → TriggerType) (fnSelector : Args → Selector)
    (hselector : ∀ args, abi.registrationSelector (triggerType args) = call.selector)
    (hencode : ∀ t f, abi.registrationSelector t = call.selector → ∀ input,
      (∃ args, input = call.abiEncode args ∧ t = triggerType args ∧ f = fnSelector args) ↔
        input = abi.registration t f)
    (r : TriggerRecorder) {input : Bytes} (hinput : leadingSelector input = call.selector)
    (t : TriggerType) (f : Selector) :
    Holds (decodeAndAdd call triggerType fnSelector r input).2.triggers t f ↔
      Holds r.triggers t f ∨ input = abi.registration t f := by
  rw [holds_decodeAndAdd hcall]
  refine or_congr Iff.rfl ?_
  by_cases ht : abi.registrationSelector t = call.selector
  · exact hencode t f ht input
  · constructor
    · rintro ⟨args, -, rfl, -⟩
      exact (ht (hselector args)).elim
    · intro h
      rw [h, leadingSelector_registration habi] at hinput
      exact (ht hinput).elim

lemma holds_recordTrigger (habi : abi.Lawful) (r : TriggerRecorder) (inputs : CallInputs)
    (t : TriggerType) (f : Selector) :
    Holds (r.recordTrigger abi inputs).2.triggers t f ↔
      Holds r.triggers t f ∨ inputs.input = abi.registration t f := by
  have hnodup := habi.selectors_nodup
  simp only [ITriggerRecorder.selectors, List.nodup_cons, List.mem_cons, List.not_mem_nil,
    or_false, not_or, not_false_eq_true, List.nodup_nil, and_true] at hnodup
  unfold recordTrigger
  dsimp only
  split_ifs with h₀ h₁ h₂ h₃ h₄
  · refine holds_decodeAndAdd_registration habi habi.registerCallTrigger_0 _ _
      (fun _ => rfl) ?_ r h₀ t f
    intro t f ht input
    cases t <;> simp_all [ITriggerRecorder.registration, ITriggerRecorder.registrationSelector]
  · refine holds_decodeAndAdd_registration habi habi.registerCallTrigger_1 _ _
      (fun _ => rfl) ?_ r h₁ t f
    intro t f ht input
    cases t <;> simp_all [ITriggerRecorder.registration, ITriggerRecorder.registrationSelector]
  · refine holds_decodeAndAdd_registration habi habi.registerStorageChangeTrigger_0 _ _
      (fun _ => rfl) ?_ r h₂ t f
    intro t f ht input
    cases t <;> simp_all [ITriggerRecorder.registration, ITriggerRecorder.registrationSelector]
  · refine holds_decodeAndAdd_registration habi habi.registerStorageChangeTrigger_1 _ _
      (fun _ => rfl) ?_ r h₃ t f
    intro t f ht input
    cases t <;> simp_all [ITriggerRecorder.registration, ITriggerRecorder.registrationSelector]
  · refine holds_decodeAndAdd_registration habi habi.registerBalanceChangeTrigger _ _
      (fun _ => rfl) ?_ r h₄ t f
    intro t f ht input
    cases t <;> simp_all [ITriggerRecorder.registration, ITriggerRecorder.registrationSelector]
  · refine (or_iff_left ?_).symm
    intro h
    rw [h, leadingSelector_registration habi] at h₀ h₁ h₂ h₃ h₄
    cases t with
    | call selector => exact h₁ rfl
    | allCalls => exact h₀ rfl
    | balanceChange => exact h₄ rfl
    | storageChange slot => exact h₃ rfl
    | allStorageChanges => exact h₂ rfl

/-- A call to the recorder made with the calldata that registers the function. -/
def Registered (abi : ITriggerRecorder) (calls : List CallInputs) (t : TriggerType)
    (f : Selector) : Prop :=
  ∃ call ∈ calls, call.targetAddress = triggerRecorderAddress ∧ call.input = abi.registration t f

/-- A function is recorded for a trigger exactly when a call registered it for the trigger. -/
theorem holds_ofCalls (habi : abi.Lawful) (calls : List CallInputs) (t : TriggerType)
    (f : Selector) :
    Holds (ofCalls abi calls).triggers t f ↔ Registered abi calls t f := by
  have hgen : ∀ r : TriggerRecorder,
      Holds (calls.foldl (fun r inputs => (r.call abi inputs).2) r).triggers t f ↔
        Holds r.triggers t f ∨ Registered abi calls t f := by
    unfold Registered
    induction calls with
    | nil => simp
    | cons inputs calls ih =>
      intro r
      have hstep : Holds (r.call abi inputs).2.triggers t f ↔ Holds r.triggers t f ∨
          (inputs.targetAddress = triggerRecorderAddress ∧
            inputs.input = abi.registration t f) := by
        unfold call
        by_cases h : inputs.targetAddress = triggerRecorderAddress
        · rw [if_pos h]
          simpa [h] using holds_recordTrigger habi r inputs t f
        · rw [if_neg h]
          simp [h]
      rw [List.foldl_cons, ih, hstep, List.exists_mem_cons_iff, or_assoc]
  rw [ofCalls, hgen]
  exact or_iff_right (not_holds_empty t f)

end TriggerRecorder

/-! ### What the tracer records -/

namespace CallTracer

/-- The tracer of a transaction that made the calls and ended in the journaled state. -/
def ofCalls (calls : List CallInputs) (journaledState : Option JournaledState) : CallTracer :=
  calls.foldl recordCall ⟨∅, journaledState⟩

lemma ofCalls_spec (calls : List CallInputs) (tracer : CallTracer) (a : Address) (s : Selector) :
    (calls.foldl recordCall tracer).journaledState = tracer.journaledState ∧
    ((a, s) ∈ (calls.foldl recordCall tracer).callInputs ↔ (a, s) ∈ tracer.callInputs ∨
      ∃ call ∈ calls, call.targetAddress = a ∧ leadingSelector call.input = s) := by
  induction calls generalizing tracer with
  | nil => simp
  | cons inputs calls ih =>
    obtain ⟨hjournal, hcalls⟩ := ih (tracer.recordCall inputs)
    refine ⟨hjournal, ?_⟩
    rw [List.foldl_cons, hcalls, List.exists_mem_cons_iff, ← or_assoc]
    refine or_congr ?_ Iff.rfl
    unfold recordCall modifyOrDefault
    rw [AList.mem_insert, Prod.mk.injEq, or_comm, eq_comm (a := a), eq_comm (a := s)]

lemma mem_ofCalls (calls : List CallInputs) (journaledState : Option JournaledState)
    (a : Address) (s : Selector) :
    (a, s) ∈ (ofCalls calls journaledState).callInputs ↔
      ∃ call ∈ calls, call.targetAddress = a ∧ leadingSelector call.input = s := by
  rw [ofCalls, (ofCalls_spec calls _ a s).2]
  exact or_iff_right (AList.notMem_empty _)

/-- The transaction sets off the trigger at the address. -/
def SetsOff (calls : List CallInputs) (journal : List JournalEntry) (a : Address)
    (t : TriggerType) : Prop :=
  (∃ call ∈ calls, call.targetAddress = a ∧ t = .call (leadingSelector call.input)) ∨
    ∃ entry ∈ journal, entry.Triggers a t

theorem holds_triggers_ofCalls (it : Iteration) (calls : List CallInputs)
    (journaledState : Option JournaledState) (a : Address) (t : TriggerType) :
    Holds ((ofCalls calls journaledState).triggers it) a t ↔
      SetsOff calls (ofCalls calls journaledState).journalEntries a t := by
  rw [holds_triggers, HasTrigger]
  refine or_congr ?_ Iff.rfl
  constructor
  · rintro ⟨s, rfl, h⟩
    obtain ⟨call, hcall, htarget, rfl⟩ := (mem_ofCalls calls journaledState a s).mp h
    exact ⟨call, hcall, htarget, rfl⟩
  · rintro ⟨call, hcall, htarget, rfl⟩
    exact ⟨_, rfl, (mem_ofCalls calls journaledState a _).mpr ⟨call, hcall, htarget, rfl⟩⟩

end CallTracer

/-! ### What a read selects -/

/-- The functions that a transaction's calls and journal select at an adopter, given the
register calls. -/
inductive Selected (abi : ITriggerRecorder) (registrations calls : List CallInputs)
    (journal : List JournalEntry) (adopter : Address) (f : Selector) : Prop
  | anyCall (h : TriggerRecorder.Registered abi registrations .allCalls f) (call : CallInputs)
      (hcall : call ∈ calls) (htarget : call.targetAddress = adopter)
  | callWith (s : Selector) (h : TriggerRecorder.Registered abi registrations (.call s) f)
      (call : CallInputs) (hcall : call ∈ calls) (htarget : call.targetAddress = adopter)
      (hs : leadingSelector call.input = s)
  | anyStorageChange (h : TriggerRecorder.Registered abi registrations .allStorageChanges f)
      (key hadValue : U256) (hentry : .storageChanged adopter key hadValue ∈ journal)
  | storageChangeAt (slot : B256)
      (h : TriggerRecorder.Registered abi registrations (.storageChange slot) f)
      (hadValue : U256) (hentry : .storageChanged adopter slot hadValue ∈ journal)
  | balanceChange (h : TriggerRecorder.Registered abi registrations .balanceChange f)
      (source target : Address) (balance : U256)
      (hentry : .balanceTransfer source target balance ∈ journal)
      (ha : adopter = source ∨ adopter = target)

/-- The matched selectors, in terms of what was registered and what was set off. -/
lemma selected_iff {abi : ITriggerRecorder} {registrations calls : List CallInputs}
    {journal : List JournalEntry} {adopter : Address} {f : Selector} :
    Selected abi registrations calls journal adopter f ↔
      (∃ t, CallTracer.SetsOff calls journal adopter t ∧
        TriggerRecorder.Registered abi registrations t f) ∨
      (TriggerRecorder.Registered abi registrations .allCalls f ∧
        ∃ s, CallTracer.SetsOff calls journal adopter (.call s)) ∨
      (TriggerRecorder.Registered abi registrations .allStorageChanges f ∧
        ∃ slot, CallTracer.SetsOff calls journal adopter (.storageChange slot)) := by
  constructor
  · intro h
    cases h with
    | anyCall h call hcall htarget =>
      exact Or.inr (Or.inl ⟨h, _, Or.inl ⟨call, hcall, htarget, rfl⟩⟩)
    | callWith s h call hcall htarget hs =>
      exact Or.inl ⟨_, Or.inl ⟨call, hcall, htarget, rfl⟩, hs ▸ h⟩
    | anyStorageChange h key hadValue hentry =>
      exact Or.inr (Or.inr ⟨h, key, Or.inr ⟨_, hentry, rfl, rfl⟩⟩)
    | storageChangeAt slot h hadValue hentry =>
      exact Or.inl ⟨_, Or.inr ⟨_, hentry, rfl, rfl⟩, h⟩
    | balanceChange h source target balance hentry ha =>
      exact Or.inl ⟨_, Or.inr ⟨_, hentry, ha, rfl⟩, h⟩
  · rintro (⟨t, ht, h⟩ | ⟨h, s, hs⟩ | ⟨h, slot, hslot⟩)
    · rcases ht with ⟨call, hcall, htarget, rfl⟩ | ⟨entry, hentry, ht⟩
      · exact .callWith _ h call hcall htarget rfl
      · cases entry with
        | balanceTransfer source target balance =>
          obtain ⟨ha, rfl⟩ := ht
          exact .balanceChange h source target balance hentry ha
        | storageChanged address key hadValue =>
          obtain ⟨rfl, rfl⟩ := ht
          exact .storageChangeAt key h hadValue hentry
        | _ => exact ht.elim
    · rcases hs with ⟨call, hcall, htarget, -⟩ | ⟨entry, hentry, ht⟩
      · exact .anyCall h call hcall htarget
      · cases entry with
        | balanceTransfer source target balance => simp [JournalEntry.Triggers] at ht
        | storageChanged address key hadValue => simp [JournalEntry.Triggers] at ht
        | _ => exact ht.elim
    · rcases hslot with ⟨call, hcall, htarget, ht⟩ | ⟨entry, hentry, ht⟩
      · simp at ht
      · cases entry with
        | balanceTransfer source target balance => simp [JournalEntry.Triggers] at ht
        | storageChanged address key hadValue =>
          obtain ⟨rfl, -⟩ := ht
          exact .anyStorageChange h key hadValue hentry
        | _ => exact ht.elim

namespace AssertionStore

variable {d : OrderedTree Address (List AssertionState)}

/-- An active assertion is returned once for each touched adopter it is stored for. -/
lemma filter_matchedAssertions (hunique : UniqueRecords d) (it : Iteration) {adopter : Address}
    {a : AssertionState} (ha : a ∈ assertions d adopter) {block : Nat}
    (hactive : a.isActiveAt block) (triggers : HashSet TriggerType) :
    (matchedAssertions it d block adopter triggers).filter
        (fun x => x.assertionContract.id = a.assertionContractId) =
      [⟨a.assertionContract, (HashMap.iter it (matchedSelectors it a triggers)).map Prod.fst,
        adopter⟩] := by
  have hrecords : records a.assertionContractId (assertions d adopter) = [a] := by
    have hmem : a ∈ records a.assertionContractId (assertions d adopter) :=
      List.mem_filter.mpr ⟨ha, decide_eq_true rfl⟩
    have hlength := hunique adopter a.assertionContractId
    rcases h : records a.assertionContractId (assertions d adopter) with _ | ⟨b, l⟩
    · rw [h] at hmem
      exact (List.not_mem_nil hmem).elim
    · rw [h, List.length_cons] at hlength
      have hl : l = [] := List.length_eq_zero_iff.mp (by omega)
      rw [h, hl, List.mem_singleton] at hmem
      rw [hl, hmem]
  have hfilter : ((assertions d adopter).filter (·.isActiveAt block)).filter
      (fun b => b.assertionContractId = a.assertionContractId) = [a] := by
    rw [List.filter_filter]
    have hswap : (fun b : AssertionState =>
        decide (b.assertionContractId = a.assertionContractId) && b.isActiveAt block) =
        fun b => b.isActiveAt block && decide (b.assertionContractId = a.assertionContractId) :=
      funext fun b => Bool.and_comm _ _
    rw [hswap, ← List.filter_filter]
    change (records a.assertionContractId (assertions d adopter)).filter _ = [a]
    rw [hrecords, List.filter_singleton, hactive, cond_true]
  unfold matchedAssertions
  rw [List.filter_map]
  exact congrArg (List.map _) hfilter

/-- A successful read returns an active assertion for an adopter exactly once if the
transaction sets off any trigger there and not at all otherwise, with exactly the selected
functions, none twice. -/
theorem read_selects_exactly (abi : ITriggerRecorder) (habi : abi.Lawful)
    (fault : Nat → Bool) (it : Iteration) (s : AssertionStore) (hs : s.Reachable)
    (adopter : Address) (a : AssertionState) (ha : a ∈ assertions s.db adopter)
    (registrations calls : List CallInputs)
    (hrecorder : a.triggerRecorder = TriggerRecorder.ofCalls abi registrations)
    (journaledState : Option JournaledState) (block : U256)
    (hactive : a.isActiveAt block.toNat) :
    let tracer := CallTracer.ofCalls calls journaledState
    Triple (fun s' => s' = s) (AssertionStore.read fault it tracer block)
      (fun result _ =>
        let returned := result.filter fun x =>
          x.adopter = adopter ∧ x.assertionContract.id = a.assertionContractId
        ((∃ t, CallTracer.SetsOff calls tracer.journalEntries adopter t) →
          ∃ selectors, returned = [⟨a.assertionContract, selectors, adopter⟩] ∧
            selectors.Nodup ∧ ∀ f, f ∈ selectors ↔
              Selected abi registrations calls tracer.journalEntries adopter f) ∧
        ((¬∃ t, CallTracer.SetsOff calls tracer.journalEntries adopter t) → returned = []))
      (fun e _ => (e = .error .blockNumberExceedsU64 ∧ u64Max < block.toNat) ∨
        (e = .error .sledError ∧ ∃ t, fault t = true)) := by
  intro tracer
  refine (read_spec (d := s.db) it tracer block).consequence (fun _ h => by rw [h]) ?_
    (fun _ _ h => h)
  rintro result - ⟨-, -, rfl⟩
  dsimp only
  have hsplit : (readResult it s.db tracer block.toNat).filter
      (fun x => decide (x.adopter = adopter ∧ x.assertionContract.id = a.assertionContractId)) =
      ((readResult it s.db tracer block.toNat).filter (fun x => x.adopter = adopter)).filter
        (fun x => x.assertionContract.id = a.assertionContractId) := by
    rw [List.filter_filter]
    simp only [Bool.decide_and, Bool.and_comm]
  have hnonempty := CallTracer.noEmptySets_triggers it tracer
  have hholds : ∀ t, Holds (tracer.triggers it) adopter t ↔
      CallTracer.SetsOff calls tracer.journalEntries adopter t :=
    CallTracer.holds_triggers_ofCalls it calls journaledState adopter
  rw [hsplit, filter_readResult]
  constructor
  · rintro ⟨t, ht⟩
    obtain ⟨triggers, htriggers⟩ :=
      (hnonempty.exists_lookup_iff adopter).mpr ⟨t, (hholds t).mpr ht⟩
    refine ⟨(HashMap.iter it (matchedSelectors it a triggers)).map Prod.fst, ?_,
      iter_keys_nodup it _, ?_⟩
    · rw [htriggers]
      exact filter_matchedAssertions hs.uniqueRecords it ha hactive triggers
    · intro f
      have hmem : ∀ t, t ∈ triggers ↔ CallTracer.SetsOff calls tracer.journalEntries adopter t := by
        intro t
        rw [← hholds, holds_iff_mem_getD, htriggers, Option.getD_some]
      have hrecorded : ∀ t, f ∈ a.recorded t ↔
          TriggerRecorder.Registered abi registrations t f := by
        intro t
        rw [← TriggerRecorder.holds_ofCalls habi, holds_iff_mem_getD, ← hrecorder]
        rfl
      rw [mem_iter_keys_iff, mem_matchedSelectors, selected_iff]
      simp only [hmem, hrecorded]
  · intro h
    have hnone : (tracer.triggers it).lookup adopter = none := by
      rw [Option.eq_none_iff_forall_ne_some]
      intro triggers htriggers
      obtain ⟨t, ht⟩ := (hnonempty.exists_lookup_iff adopter).mp ⟨triggers, htriggers⟩
      exact h ⟨t, (hholds t).mp ht⟩
    rw [hnone]
    rfl

/-- An assertion stored for adopter 1 that registered function 7 for all calls. -/
theorem read_selects_exactly_allCalls :
    let register : CallInputs :=
      ⟨ITriggerRecorder.solidity.registration .allCalls 7, 0, 0, triggerRecorderAddress, 0, 0⟩
    let a : AssertionState := ⟨3, none, ⟨9, [], 0, ∅, {}⟩,
      TriggerRecorder.ofCalls ITriggerRecorder.solidity [register]⟩
    let s := (exec (AssertionStore.insert (fun _ => false) 1 a) newEphemeral).2
    let tracer := CallTracer.ofCalls [⟨[0], 0, 1, 1, 0, 0⟩] none
    ∃ result s' selectors, exec (AssertionStore.read (fun _ => false) .buckets tracer 5) s =
        (.ok result, s') ∧
      result.filter (fun x => x.adopter = 1 ∧ x.assertionContract.id = 9) =
        [⟨⟨9, [], 0, ∅, {}⟩, selectors, 1⟩] ∧ 7 ∈ selectors := by
  intro register a s tracer
  have hspec := read_selects_exactly ITriggerRecorder.solidity ITriggerRecorder.solidity_lawful
    (fun _ => false) .buckets s (.insert _ 1 a .newEphemeral) 1 a (List.mem_singleton_self a)
    [register] [⟨[0], 0, 1, 1, 0, 0⟩] rfl none 5 (by decide)
  obtain ⟨result, s', hrun, htouched, -⟩ := hspec.exists_ok rfl (by
    rintro e s' (⟨-, h⟩ | ⟨-, t, h⟩)
    · exact absurd h (by decide)
    · exact Bool.false_ne_true h)
  obtain ⟨selectors, hresult, -, hselectors⟩ :=
    htouched ⟨_, Or.inl ⟨_, List.mem_singleton_self _, rfl, rfl⟩⟩
  exact ⟨result, s', selectors, hrun, hresult, (hselectors 7).mpr
    (.anyCall ⟨register, List.mem_singleton_self _, rfl, rfl⟩ _ (List.mem_singleton_self _) rfl)⟩

end AssertionStore

end AssertionExecution
