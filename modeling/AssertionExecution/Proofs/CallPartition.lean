import AssertionExecution.Proofs.RevertedViews

/-!
# The calls by target and selector

Every recorded call is handed out under one target and selector. Its calldata is the selector
and what is handed out as input, unless it is too short to have a selector.
-/

namespace AssertionExecution

open CallTracer

namespace CallTracer

def ShownUnder (target : Address) (selector : Selector) (call : CallInputs) : Prop :=
  call.targetAddress = target ∧
    (call.input.take 4 = toBytes 4 selector.toNat ∨ call.input.length < 4 ∧ selector = 0)

instance (target : Address) (selector : Selector) (call : CallInputs) :
    Decidable (ShownUnder target selector call) :=
  inferInstanceAs (Decidable (_ ∧ _))

lemma leadingSelector_eq_iff {input : Bytes} (h : 4 ≤ input.length) (selector : Selector) :
    leadingSelector input = selector ↔ input.take 4 = toBytes 4 selector.toNat := by
  have hlength : (input.take 4).length = 4 := by
    rw [List.length_take]
    omega
  unfold leadingSelector
  rw [if_pos h]
  constructor
  · rintro rfl
    have hlt := ofBytes_lt (input.take 4)
    have hbytes := toBytes_ofBytes (input.take 4)
    rw [hlength] at hlt hbytes
    have hmod : ofBytes (input.take 4) % 2 ^ 32 = ofBytes (input.take 4) := Nat.mod_eq_of_lt hlt
    rw [BitVec.toNat_ofNat, hmod, hbytes]
  · intro htake
    rw [htake]
    exact AbiArgs.ofNat_ofBytes_toBytes (by decide) selector

/-- The tracer files a call under its leading selector. -/
lemma shownUnder_iff (target : Address) (selector : Selector) (call : CallInputs) :
    ShownUnder target selector call ↔ Matches target selector call := by
  apply and_congr_right
  intro _
  by_cases h : 4 ≤ call.input.length
  · rw [leadingSelector_eq_iff h]
    exact or_iff_left fun hshort => absurd hshort.1 (Nat.not_lt.mpr h)
  · have hlong : call.input.take 4 ≠ toBytes 4 selector.toNat := by
      intro htake
      have hlength := congrArg List.length htake
      rw [length_toBytes, List.length_take] at hlength
      omega
    unfold leadingSelector
    rw [if_neg h, or_iff_right hlong, eq_comm]
    exact and_iff_right (Nat.not_le.mp h)

lemma shownUnder_cases {target : Address} {selector : Selector} {call : CallInputs}
    (h : ShownUnder target selector call) :
    (4 ≤ call.input.length ∧
        call.input = toBytes 4 selector.toNat ++ (solCallInput call).input) ∨
      (call.input.length < 4 ∧ selector = 0 ∧ (solCallInput call).input = []) := by
  unfold solCallInput
  by_cases hlong : 4 ≤ call.input.length
  · rcases h.2 with htake | ⟨hshort, -⟩
    · left
      rw [if_pos hlong, ← htake, List.take_append_drop]
      exact ⟨hlong, rfl⟩
    · omega
  · rcases (shownUnder_iff target selector call).mp h with ⟨-, hselector⟩
    right
    unfold leadingSelector at hselector
    rw [if_neg hlong] at hselector ⊢
    exact ⟨Nat.not_le.mp hlong, hselector.symm, rfl⟩

/-- The calldata has nothing after a selector. -/
def NoInput (call : CallInputs) : Prop :=
  call.input.length < 4 ∨ call.input = toBytes 4 0

/-- What is handed out for two calls tells their calldata apart, unless neither has input. -/
lemma input_eq_or_noInput {target : Address} {selector : Selector} {call call' : CallInputs}
    (h : ShownUnder target selector call) (h' : ShownUnder target selector call')
    (hinput : (solCallInput call).input = (solCallInput call').input) :
    call.input = call'.input ∨ selector = 0 ∧ NoInput call ∧ NoInput call' := by
  rcases shownUnder_cases h with ⟨-, hlong⟩ | ⟨hshort, hzero, hnil⟩
  · rcases shownUnder_cases h' with ⟨-, hlong'⟩ | ⟨hshort', hzero, hnil⟩
    · left
      rw [hlong, hlong', hinput]
    · right
      rw [hinput, hnil, hzero, List.append_nil] at hlong
      exact ⟨hzero, Or.inr hlong, Or.inl hshort'⟩
  · rcases shownUnder_cases h' with ⟨-, hlong'⟩ | ⟨hshort', -, -⟩
    · right
      rw [← hinput, hnil, hzero, List.append_nil] at hlong'
      exact ⟨hzero, Or.inl hshort, Or.inr hlong'⟩
    · exact Or.inr ⟨hzero, Or.inl hshort, Or.inl hshort'⟩

/-- `getCallInputs` hands out, in the order of recording, the calls that are shown under its
target and selector. Each call is shown under one pair, its calldata of at least four bytes is the
selector and the input that is handed out, and only calls without input are handed out alike with
different calldata. -/
theorem calls_partitioned (calls : List CallInputs) (journaledState : Option JournaledState) :
    (∀ abiEncode txLogs adopter target selector (inputs : CallInputs),
      getCallInputs abiEncode
          { inputs with input := getCallInputsCall.abiEncode (target, selector) }
          ⟨⟨txLogs, ofCalls calls journaledState⟩, adopter⟩ =
        .ok (abiEncode ((calls.filter (ShownUnder target selector)).map solCallInput))) ∧
    (∀ call ∈ calls, ∃! p : Address × Selector, ShownUnder p.1 p.2 call) ∧
    (∀ call ∈ calls, ∀ target selector, ShownUnder target selector call →
      4 ≤ call.input.length →
        call.input = toBytes 4 selector.toNat ++ (solCallInput call).input) ∧
    ∀ call ∈ calls, ∀ call' ∈ calls, ∀ target selector, ShownUnder target selector call →
      ShownUnder target selector call' → (solCallInput call).input = (solCallInput call').input →
        call.input = call'.input ∨ selector = 0 ∧ NoInput call ∧ NoInput call' := by
  refine ⟨?_, ?_, ?_, ?_⟩
  · intro abiEncode txLogs adopter target selector inputs
    have hshown : calls.filter (ShownUnder target selector) =
        calls.filter (Matches target selector) := by
      apply List.filter_congr
      intro call _
      exact decide_eq_decide.mpr (shownUnder_iff target selector call)
    have hdecode := ((SolCall.ofArgs_lawful 0x0fd7f2b5 (.pair .address .bytes4)).decode_iff
      (getCallInputsCall.abiEncode (target, selector)) (target, selector)).mpr rfl
    unfold getCallInputs
    rw [show getCallInputsCall.abiDecode _ = _ from hdecode, hshown, ← solCallInputs_ofCalls]
  · intro call _
    refine ⟨(call.targetAddress, leadingSelector call.input),
      (shownUnder_iff _ _ call).mpr ⟨rfl, rfl⟩, ?_⟩
    rintro ⟨target, selector⟩ hshown
    obtain ⟨rfl, rfl⟩ := (shownUnder_iff target selector call).mp hshown
    rfl
  · intro call _ target selector hshown hlong
    rcases shownUnder_cases hshown with ⟨-, hinput⟩ | ⟨hshort, -, -⟩
    · exact hinput
    · omega
  · intro call _ call' _ target selector hshown hshown' hinput
    exact input_eq_or_noInput hshown hshown' hinput

/-- A call without input and one with four zero bytes are handed out alike. -/
theorem plain_transfer_ambiguous :
    let transfer : CallInputs := ⟨[], 0, 1, 1, 0, 0⟩
    let zeroSelector : CallInputs := ⟨[0, 0, 0, 0], 0, 1, 1, 0, 0⟩
    let tracer := ofCalls [transfer, zeroSelector] none
    ¬∀ call ∈ tracer.recorded 1 0, ∀ call' ∈ tracer.recorded 1 0,
      solCallInput call = solCallInput call' → call.input = call'.input := by
  decide

end CallTracer

end AssertionExecution
