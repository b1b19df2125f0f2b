import AssertionExecution.Model.RegisterCalls
import AssertionExecution.Proofs.PrecompileAnswers
import AssertionExecution.Proofs.TriggerSelection

/-!
# Registrations, from calls to an extracted contract

What the recorder answers while `triggers()` runs, what it has recorded at the end, and
which contracts are extracted.
-/

namespace AssertionExecution

open HashMap

namespace TriggerRecorder

variable {abi : ITriggerRecorder} {calls : List SeenCall} {r : TriggerRecorder}

/-! ### One call -/

def recordErrorOf (abi : ITriggerRecorder) (input : Bytes) : RecordError :=
  if leadingSelector input ∈ abi.selectors then .callDecodeError else .fnSelectorNotFound

/-- What recording comes to: one function is added, or an error is returned and nothing added. -/
inductive Records (abi : ITriggerRecorder) (r : TriggerRecorder) (input : Bytes) :
    Except RecordError Bytes × TriggerRecorder → Prop
  | added (t : TriggerType) (f : Selector) (h : input = abi.registration t f) :
      Records abi r input (.ok [], r.addTrigger t f)
  | failed (h : ∀ t f, input ≠ abi.registration t f) :
      Records abi r input (.error (recordErrorOf abi input), r)

/-- One branch of `record_trigger`. -/
lemma records_decodeAndAdd (habi : abi.Lawful) {Args : Type} {call : SolCall Args}
    (hcall : call.Lawful) (hmem : call.selector ∈ abi.selectors)
    (triggerType : Args → TriggerType) (fnSelector : Args → Selector)
    (hargs : ∀ args, call.abiEncode args = abi.registration (triggerType args) (fnSelector args))
    (hcover : ∀ t f, abi.registrationSelector t = call.selector →
      ∃ args, abi.registration t f = call.abiEncode args)
    (r : TriggerRecorder) {input : Bytes} (hinput : leadingSelector input = call.selector) :
    Records abi r input (decodeAndAdd call triggerType fnSelector r input) := by
  have hdecode := hcall.decode_iff input
  unfold decodeAndAdd
  cases h : call.abiDecode input with
  | some args =>
    apply Records.added
    rw [← hargs]
    exact (hdecode args).mp h
  | none =>
    have herror : recordErrorOf abi input = .callDecodeError := by
      unfold recordErrorOf
      rw [hinput, if_pos hmem]
    dsimp only
    rw [← herror]
    apply Records.failed
    intro t f hregistration
    have hselector : abi.registrationSelector t = call.selector := by
      rw [← leadingSelector_registration habi t f, ← hregistration, hinput]
    obtain ⟨args, hargs'⟩ := hcover t f hselector
    have hsome : call.abiDecode input = some args :=
      (hdecode args).mpr (hregistration.trans hargs')
    rw [h] at hsome
    exact Option.some_ne_none args hsome.symm

lemma records_recordTrigger (habi : abi.Lawful) (r : TriggerRecorder) (inputs : CallInputs) :
    Records abi r inputs.input (r.recordTrigger abi inputs) := by
  have hnodup := habi.selectors_nodup
  simp only [ITriggerRecorder.selectors, List.nodup_cons, List.mem_cons, List.not_mem_nil,
    or_false, not_or, not_false_eq_true, List.nodup_nil, and_true] at hnodup
  unfold recordTrigger
  dsimp only
  split_ifs with h₀ h₁ h₂ h₃ h₄
  · apply records_decodeAndAdd habi habi.registerCallTrigger_0 _ _ _ (fun _ => rfl) _ r h₀
    · simp [ITriggerRecorder.selectors]
    · intro t f ht
      cases t <;> simp_all [ITriggerRecorder.registration, ITriggerRecorder.registrationSelector]
  · apply records_decodeAndAdd habi habi.registerCallTrigger_1 _ _ _ (fun _ => rfl) _ r h₁
    · simp [ITriggerRecorder.selectors]
    · intro t f ht
      cases t <;> simp_all [ITriggerRecorder.registration, ITriggerRecorder.registrationSelector]
  · apply records_decodeAndAdd habi habi.registerStorageChangeTrigger_0 _ _ _ (fun _ => rfl) _ r h₂
    · simp [ITriggerRecorder.selectors]
    · intro t f ht
      cases t <;> simp_all [ITriggerRecorder.registration, ITriggerRecorder.registrationSelector]
  · apply records_decodeAndAdd habi habi.registerStorageChangeTrigger_1 _ _ _ (fun _ => rfl) _ r h₃
    · simp [ITriggerRecorder.selectors]
    · intro t f ht
      cases t <;> simp_all [ITriggerRecorder.registration, ITriggerRecorder.registrationSelector]
  · apply records_decodeAndAdd habi habi.registerBalanceChangeTrigger _ _ _ (fun _ => rfl) _ r h₄
    · simp [ITriggerRecorder.selectors]
    · intro t f ht
      cases t <;> simp_all [ITriggerRecorder.registration, ITriggerRecorder.registrationSelector]
  · have hmem : leadingSelector inputs.input ∉ abi.selectors := by
      simp [ITriggerRecorder.selectors, h₀, h₁, h₂, h₃, h₄]
    have herror : recordErrorOf abi inputs.input = .fnSelectorNotFound := if_neg hmem
    rw [← herror]
    apply Records.failed
    intro t f hregistration
    apply hmem
    rw [hregistration, leadingSelector_registration habi]
    cases t <;> simp [ITriggerRecorder.selectors, ITriggerRecorder.registrationSelector]

/-! ### What the hook answers -/

/-- A call of another address is left alone. A call of the recorder keeps its gas. It succeeds
without output if its calldata registers a function, and else reverts with the text of the
error. -/
inductive SeenCall.Answered (abi : ITriggerRecorder) : SeenCall → Prop
  | passed {inputs : CallInputs} {offset : Nat × Nat}
      (htarget : inputs.targetAddress ≠ triggerRecorderAddress) :
      Answered abi ⟨inputs, offset, none⟩
  | accepted {inputs : CallInputs} {offset : Nat × Nat}
      (htarget : inputs.targetAddress = triggerRecorderAddress) (t : TriggerType) (f : Selector)
      (hinput : inputs.input = abi.registration t f) :
      Answered abi ⟨inputs, offset, some ⟨⟨.returned, [], .new inputs.gasLimit⟩, offset⟩⟩
  | rejected {inputs : CallInputs} {offset : Nat × Nat}
      (htarget : inputs.targetAddress = triggerRecorderAddress)
      (hinput : ∀ t f, inputs.input ≠ abi.registration t f) {output : Bytes}
      (hselector : leadingSelector output = errorSelector)
      (htext : Abi.string.single.decode (output.drop 4) =
        some (recordErrorOf abi inputs.input).display) :
      Answered abi ⟨inputs, offset, some ⟨⟨.reverted, output, .new inputs.gasLimit⟩, offset⟩⟩

def SeenCall.Accepted (call : SeenCall) : Prop :=
  ∃ outcome, call.outcome = some outcome ∧ outcome.result.result = .returned

lemma answered_callOutcome (habi : abi.Lawful) (r : TriggerRecorder) (inputs : CallInputs)
    (offset : Nat × Nat) :
    SeenCall.Answered abi ⟨inputs, offset, (r.callOutcome abi inputs offset).1⟩ := by
  unfold callOutcome call
  by_cases htarget : inputs.targetAddress = triggerRecorderAddress
  · rw [if_pos htarget]
    have hrecords := records_recordTrigger habi r inputs
    generalize r.recordTrigger abi inputs = recorded at hrecords
    cases hrecords with
    | added t f h => exact .accepted htarget t f h
    | failed h =>
      have hlength : ∀ e : RecordError, (abiEncodeError e.display).length < 2 ^ 256 := by
        intro e
        cases e <;> decide +kernel
      obtain ⟨hselector, htext⟩ := decode_revert (hlength (recordErrorOf abi inputs.input))
      exact .rejected htarget h hselector htext
  · rw [if_neg htarget]
    exact .passed htarget

lemma SeenCall.Answered.accepted_iff {call : SeenCall} (h : call.Answered abi) :
    call.Accepted ↔ call.inputs.targetAddress = triggerRecorderAddress ∧
      ∃ t f, call.inputs.input = abi.registration t f := by
  cases h with
  | passed htarget =>
    refine iff_of_false ?_ fun h => htarget h.1
    rintro ⟨outcome, h, -⟩
    exact Option.some_ne_none outcome h.symm
  | accepted htarget t f hinput => exact iff_of_true ⟨_, rfl, rfl⟩ ⟨htarget, t, f, hinput⟩
  | rejected htarget hinput hselector htext =>
    refine iff_of_false ?_ fun ⟨_, t, f, h⟩ => hinput t f h
    rintro ⟨outcome, h, hreturned⟩
    cases h
    exact nomatch hreturned

/-! ### All calls -/

lemma Sees.answered (habi : abi.Lawful) (h : Sees abi calls r) :
    ∀ call ∈ calls, call.Answered abi := by
  induction h with
  | start => simp
  | call _ inputs offset ih =>
    intro call hcall
    rw [List.mem_append, List.mem_singleton] at hcall
    rcases hcall with hcall | rfl
    · exact ih call hcall
    · exact answered_callOutcome habi _ inputs offset

lemma Sees.eq_ofCalls (h : Sees abi calls r) : r = ofCalls abi (calls.map SeenCall.inputs) := by
  induction h with
  | start => rfl
  | call _ inputs offset ih =>
    rw [List.map_append, ofCalls, List.foldl_append, ← ofCalls, ← ih]
    rfl

/-- The recorder holds what the accepted calls registered. -/
lemma Sees.holds_iff (habi : abi.Lawful) (h : Sees abi calls r) (t : TriggerType) (f : Selector) :
    Holds r.triggers t f ↔
      ∃ call ∈ calls, call.Accepted ∧ call.inputs.input = abi.registration t f := by
  rw [h.eq_ofCalls, holds_ofCalls habi]
  constructor
  · rintro ⟨inputs, hmem, htarget, hinput⟩
    obtain ⟨call, hcall, rfl⟩ := List.mem_map.mp hmem
    exact ⟨call, hcall, (h.answered habi call hcall).accepted_iff.mpr ⟨htarget, t, f, hinput⟩,
      hinput⟩
  · rintro ⟨call, hcall, haccepted, hinput⟩
    exact ⟨call.inputs, List.mem_map_of_mem hcall,
      ((h.answered habi call hcall).accepted_iff.mp haccepted).1, hinput⟩

lemma Sees.noEmptySets (habi : abi.Lawful) (h : Sees abi calls r) : NoEmptySets r.triggers := by
  induction h with
  | start => exact noEmptySets_empty
  | @call _ r _ inputs offset ih =>
    unfold callOutcome TriggerRecorder.call
    by_cases htarget : inputs.targetAddress = triggerRecorderAddress
    · rw [if_pos htarget]
      have hrecords := records_recordTrigger habi r inputs
      generalize r.recordTrigger abi inputs = recorded at hrecords
      cases hrecords with
      | added t f _ => exact ih.insertInto t f
      | failed _ => exact ih
    · rw [if_neg htarget]
      exact ih

lemma Sees.isEmpty_iff (habi : abi.Lawful) (h : Sees abi calls r) :
    r.triggers.entries.isEmpty = false ↔ ∃ call ∈ calls, call.Accepted := by
  have hentries : r.triggers.entries.isEmpty = false ↔ ∃ t s, r.triggers.lookup t = some s := by
    rw [List.isEmpty_eq_false_iff_exists_mem]
    constructor
    · rintro ⟨⟨t, s⟩, hmem⟩
      exact ⟨t, s, AList.mem_lookup_iff.mpr hmem⟩
    · rintro ⟨t, s, hlookup⟩
      exact ⟨⟨t, s⟩, AList.mem_lookup_iff.mp hlookup⟩
  rw [hentries]
  constructor
  · rintro ⟨t, hlookup⟩
    obtain ⟨f, hholds⟩ := ((h.noEmptySets habi).exists_lookup_iff t).mp hlookup
    obtain ⟨call, hcall, haccepted, -⟩ := (h.holds_iff habi t f).mp hholds
    exact ⟨call, hcall, haccepted⟩
  · rintro ⟨call, hcall, haccepted⟩
    obtain ⟨-, t, f, hinput⟩ := (h.answered habi call hcall).accepted_iff.mp haccepted
    refine ⟨t, ((h.noEmptySets habi).exists_lookup_iff t).mpr ⟨f, ?_⟩⟩
    exact (h.holds_iff habi t f).mpr ⟨call, hcall, haccepted, hinput⟩

end TriggerRecorder

/-! ### Extraction -/

namespace ContractExtractor

open TriggerRecorder (Sees SeenCall)

variable {Db : Type} {evm : ExtractorEvm Db} {assertionCode : Bytes} {config : ExecutorConfig}
  {deployed called : ResultAndState} {initAccount : Account} {r : TriggerRecorder}

structure Deployed (evm : ExtractorEvm Db) (assertionCode : Bytes) (config : ExecutorConfig)
    (deployed : ResultAndState) (initAccount : Account) : Prop where
  transact : evm.transact (deployTx assertionCode) ⟨0, 0⟩ config.chainId config.specId
    evm.emptyDb = .ok deployed
  isSuccess : deployed.result.isSuccess = true
  account : deployed.state.lookup assertionContractAddress = some initAccount

structure RanTriggers (evm : ExtractorEvm Db) (config : ExecutorConfig)
    (deployed called : ResultAndState) (r : TriggerRecorder) : Prop where
  transact : evm.transactTriggers (triggersTx deployed.result.gasUsed) ⟨0, 0⟩ config.chainId
    config.specId (insertTriggerRecorderAccount evm (evm.commit evm.emptyDb deployed.state)) =
      .ok (called, r)
  isSuccess : called.result.isSuccess = true

def contractOf (evm : ExtractorEvm Db) (assertionCode : Bytes) (initAccount : Account)
    (deployedCode : Bytecode) : AssertionContract :=
  ⟨evm.keccak256 assertionCode, deployedCode, initAccount.info.codeHash, initAccount.storage,
    initAccount.status⟩

lemma extractAssertionContract_of_ran (hdeployed : Deployed evm assertionCode config deployed
    initAccount) (hran : RanTriggers evm config deployed called r) :
    extractAssertionContract evm assertionCode config =
      if r.triggers.entries.isEmpty then .error .noTriggersRecorded
      else initAccount.info.code.elim (.error .assertionContractNoCode) fun deployedCode =>
        .ok (contractOf evm assertionCode initAccount deployedCode, r) := by
  unfold extractAssertionContract
  simp only [hdeployed.transact, hdeployed.isSuccess, hdeployed.account, hran.transact,
    hran.isSuccess, Bool.not_true, Bool.false_eq_true, if_false]
  cases initAccount.info.code <;> rfl

/-- An extraction that succeeds has deployed the contract and run its `triggers()`. -/
lemma ran_of_extractAssertionContract {contract : AssertionContract}
    (h : extractAssertionContract evm assertionCode config = .ok (contract, r)) :
    ∃ deployed initAccount called, Deployed evm assertionCode config deployed initAccount ∧
      RanTriggers evm config deployed called r := by
  unfold extractAssertionContract at h
  dsimp only at h
  split at h
  · cases h
  · next deployed htransact =>
    split_ifs at h with hsuccess
    split at h
    · cases h
    · next initAccount haccount =>
      split at h
      · cases h
      · next called r' htriggers =>
        split_ifs at h with hcalled
        split at h
        · cases h
        · cases h
          refine ⟨deployed, initAccount, called, ⟨htransact, ?_, haccount⟩, htriggers, ?_⟩
          · simpa using hsuccess
          · simpa using hcalled

/-- An assertion on its own is active at every block below the last. -/
lemma isActiveAt_of_newActive {a : AssertionState}
    (h : newActive evm assertionCode config = .ok a) {block : Nat} (hblock : block < u64Max) :
    a.isActiveAt block = true := by
  unfold newActive at h
  cases hextract : extractAssertionContract evm assertionCode config with
  | error e =>
    rw [hextract] at h
    cases h
  | ok extracted =>
    rw [hextract] at h
    cases h
    simp [AssertionState.isActiveAt, AssertionState.inactiveBlock, hblock]

/-- A contract is extracted exactly when it deploys, keeps code, its `triggers()` succeeds and the
recorder accepted a call. Whatever calls made the recorder, each was accepted exactly if it
registered a function, else reverted with the reason, and what they registered is recorded. -/
theorem extraction_accepts_iff {abi : ITriggerRecorder} (habi : abi.Lawful)
    (hhook : evm.RunsHook abi) (assertionCode : Bytes) (config : ExecutorConfig)
    (contract : AssertionContract) (r : TriggerRecorder) :
    (extractAssertionContract evm assertionCode config = .ok (contract, r) ↔
      ∃ deployed initAccount deployedCode called calls,
        Deployed evm assertionCode config deployed initAccount ∧
        RanTriggers evm config deployed called r ∧
        Sees abi calls r ∧ (∃ call ∈ calls, call.Accepted) ∧
        initAccount.info.code = some deployedCode ∧
        contract = contractOf evm assertionCode initAccount deployedCode) ∧
    ∀ calls, Sees abi calls r →
      (∀ call ∈ calls, call.Answered abi) ∧
      ∀ t f, Holds r.triggers t f ↔
        ∃ call ∈ calls, call.Accepted ∧ call.inputs.input = abi.registration t f := by
  refine ⟨?_, fun calls hsees => ⟨hsees.answered habi, hsees.holds_iff habi⟩⟩
  constructor
  · intro h
    obtain ⟨deployed, initAccount, called, hdeployed, hran⟩ := ran_of_extractAssertionContract h
    obtain ⟨calls, hsees⟩ := hhook _ _ _ _ _ _ _ hran.transact
    rw [extractAssertionContract_of_ran hdeployed hran] at h
    split_ifs at h with hempty
    have haccepted := (hsees.isEmpty_iff habi).mp (by simpa using hempty)
    cases hcode : initAccount.info.code with
    | none =>
      rw [hcode] at h
      cases h
    | some deployedCode =>
      rw [hcode] at h
      cases h
      exact ⟨deployed, initAccount, deployedCode, called, calls, hdeployed, hran, hsees, haccepted,
        hcode, rfl⟩
  · rintro ⟨deployed, initAccount, deployedCode, called, calls, hdeployed, hran, hsees,
      haccepted, hcode, rfl⟩
    have hempty := (hsees.isEmpty_iff habi).mpr haccepted
    rw [extractAssertionContract_of_ran hdeployed hran, hempty, hcode]
    rfl

/-- A call of the recorder that registers function 7 for all calls. -/
def registerAllCalls : CallInputs :=
  ⟨ITriggerRecorder.solidity.registration .allCalls 7, 50000, triggerRecorderAddress,
    triggerRecorderAddress, assertionContractAddress, 0⟩

def registerUnknown : CallInputs := { registerAllCalls with input := [1, 2, 3, 4] }

/-- What a `triggers()` leaves that goes on after its first call reverts. -/
def registeredRecorder : TriggerRecorder :=
  ((TriggerRecorder.default.callOutcome .solidity registerUnknown (0, 0)).2.callOutcome .solidity
    registerAllCalls (0, 0)).2

def registeringAccount : Account where
  info := { AccountInfo.default with nonce := 1, codeHash := 5, code := some [0x45] }
  storage := ∅
  status := { created := true, touched := true, loadedAsNotExisting := true }

def registeringEvm : ExtractorEvm Unit where
  keccak256 _ := 9
  emptyDb := ()
  commit _ _ := ()
  insertAccountInfo _ _ _ := ()
  transact _ _ _ _ _ := .ok ⟨.success 53000 [] [0x45],
    (∅ : EvmState).insert assertionContractAddress registeringAccount⟩
  transactTriggers _ _ _ _ _ := .ok (⟨.success 24000 [] [], ∅⟩, registeredRecorder)

theorem extraction_accepts_iff_registering :
    ∃ contract, extractAssertionContract registeringEvm [0x60] ⟨20, 1, 3000000⟩ =
        .ok (contract, registeredRecorder) ∧
      Holds registeredRecorder.triggers .allCalls 7 := by
  have hsees : Sees .solidity _ registeredRecorder :=
    .call (.call .start registerUnknown (0, 0)) registerAllCalls (0, 0)
  have hhook : registeringEvm.RunsHook .solidity := by
    intro _ _ _ _ _ _ r h
    cases h
    exact ⟨_, hsees⟩
  have hspec := extraction_accepts_iff ITriggerRecorder.solidity_lawful hhook [0x60]
    ⟨20, 1, 3000000⟩ (contractOf registeringEvm [0x60] registeringAccount [0x45])
    registeredRecorder
  have haccepted : SeenCall.Accepted ⟨registerAllCalls, (0, 0),
      ((TriggerRecorder.default.callOutcome .solidity registerUnknown (0, 0)).2.callOutcome
        .solidity registerAllCalls (0, 0)).1⟩ := by
    have hanswered := (hspec.2 _ hsees).1 _ (List.mem_append_right _ (List.mem_singleton_self _))
    exact hanswered.accepted_iff.mpr ⟨rfl, .allCalls, 7, rfl⟩
  refine ⟨_, hspec.1.mpr ⟨_, _, _, _, _, ⟨rfl, rfl, AList.lookup_insert _⟩, ⟨rfl, rfl⟩, hsees,
    ⟨_, List.mem_append_right _ (List.mem_singleton_self _), haccepted⟩, rfl, rfl⟩, ?_⟩
  exact ((hspec.2 _ hsees).2 .allCalls 7).mpr
    ⟨_, List.mem_append_right _ (List.mem_singleton_self _), haccepted, rfl⟩

end ContractExtractor

end AssertionExecution
