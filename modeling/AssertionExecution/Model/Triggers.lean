import AssertionExecution.Model.Primitives

/-!
# Triggers

`TriggerRecorder` collects what an assertion's `triggers()` registers, `CallTracer` what
a transaction did. The ABI encoding of the register functions is a parameter.
-/

namespace AssertionExecution

inductive TriggerType where
  | call (triggerSelector : Selector)
  | allCalls
  | balanceChange
  | storageChange (triggerSlot : B256)
  | allStorageChanges
deriving DecidableEq, Repr

/-- The ABI codec of one Solidity function. -/
structure SolCall (Args : Type) where
  selector : Selector
  abiEncode : Args → Bytes
  abiDecode : Bytes → Option Args

/-- Decoding with validation inverts encoding, and an encoding starts with its selector. -/
structure SolCall.Lawful {Args : Type} (call : SolCall Args) : Prop where
  decode_iff : ∀ input args, call.abiDecode input = some args ↔ input = call.abiEncode args
  encode_selector : ∀ args, leadingSelector (call.abiEncode args) = call.selector

structure ITriggerRecorder where
  registerCallTrigger_0 : SolCall Selector
  registerCallTrigger_1 : SolCall (Selector × Selector)
  registerStorageChangeTrigger_0 : SolCall Selector
  registerStorageChangeTrigger_1 : SolCall (Selector × B256)
  registerBalanceChangeTrigger : SolCall Selector

namespace ITriggerRecorder

def selectors (abi : ITriggerRecorder) : List Selector :=
  [abi.registerCallTrigger_0.selector, abi.registerCallTrigger_1.selector,
    abi.registerStorageChangeTrigger_0.selector, abi.registerStorageChangeTrigger_1.selector,
    abi.registerBalanceChangeTrigger.selector]

structure Lawful (abi : ITriggerRecorder) : Prop where
  registerCallTrigger_0 : abi.registerCallTrigger_0.Lawful
  registerCallTrigger_1 : abi.registerCallTrigger_1.Lawful
  registerStorageChangeTrigger_0 : abi.registerStorageChangeTrigger_0.Lawful
  registerStorageChangeTrigger_1 : abi.registerStorageChangeTrigger_1.Lawful
  registerBalanceChangeTrigger : abi.registerBalanceChangeTrigger.Lawful
  selectors_nodup : abi.selectors.Nodup

end ITriggerRecorder

inductive RecordError where
  | callDecodeError
  | fnSelectorNotFound
deriving DecidableEq, Repr

/-- Which assertion functions each trigger runs. -/
structure TriggerRecorder where
  triggers : HashMap TriggerType (HashSet Selector)
deriving DecidableEq

namespace TriggerRecorder

def default : TriggerRecorder := ⟨∅⟩

def addTrigger (r : TriggerRecorder) (triggerType : TriggerType) (fnSelector : Selector) :
    TriggerRecorder :=
  ⟨HashMap.insertInto r.triggers triggerType fnSelector⟩

/-- Decodes the arguments of a register call and adds the trigger they name. -/
def decodeAndAdd {Args : Type} (call : SolCall Args) (triggerType : Args → TriggerType)
    (fnSelector : Args → Selector) (r : TriggerRecorder) (input : Bytes) :
    Except RecordError Bytes × TriggerRecorder :=
  match call.abiDecode input with
  | none => (.error .callDecodeError, r)
  | some args => (.ok [], r.addTrigger (triggerType args) (fnSelector args))

/-- Records a call made to the trigger recorder address. -/
def recordTrigger (abi : ITriggerRecorder) (r : TriggerRecorder) (inputs : CallInputs) :
    Except RecordError Bytes × TriggerRecorder :=
  let selector := leadingSelector inputs.input
  if selector = abi.registerCallTrigger_0.selector then
    decodeAndAdd abi.registerCallTrigger_0 (fun _ => .allCalls) id r inputs.input
  else if selector = abi.registerCallTrigger_1.selector then
    decodeAndAdd abi.registerCallTrigger_1 (fun args => .call args.2) Prod.fst r inputs.input
  else if selector = abi.registerStorageChangeTrigger_0.selector then
    decodeAndAdd abi.registerStorageChangeTrigger_0 (fun _ => .allStorageChanges) id r inputs.input
  else if selector = abi.registerStorageChangeTrigger_1.selector then
    decodeAndAdd abi.registerStorageChangeTrigger_1 (fun args => .storageChange args.2) Prod.fst r
      inputs.input
  else if selector = abi.registerBalanceChangeTrigger.selector then
    decodeAndAdd abi.registerBalanceChangeTrigger (fun _ => .balanceChange) id r inputs.input
  else (.error .fnSelectorNotFound, r)

/-- The inspector's `call` hook: calls to other addresses are left to the EVM. -/
def call (abi : ITriggerRecorder) (r : TriggerRecorder) (inputs : CallInputs) :
    Option (Except RecordError Bytes) × TriggerRecorder :=
  if inputs.targetAddress = triggerRecorderAddress then
    let (result, r) := r.recordTrigger abi inputs
    (some result, r)
  else (none, r)

end TriggerRecorder

/-- What a transaction did: its calls by target and selector, and its final journaled state. -/
structure CallTracer where
  callInputs : HashMap (Address × Selector) (List CallInputs)
  journaledState : Option JournaledState

namespace CallTracer

def default : CallTracer := ⟨∅, none⟩

def recordCall (tracer : CallTracer) (inputs : CallInputs) : CallTracer :=
  { tracer with
    callInputs := HashMap.modifyOrDefault tracer.callInputs
      (inputs.targetAddress, leadingSelector inputs.input) [] (· ++ [inputs]) }

/-- `result.entry(addr).or_default().insert(trigger)` -/
def insertTrigger (result : HashMap Address (HashSet TriggerType)) (addr : Address)
    (trigger : TriggerType) : HashMap Address (HashSet TriggerType) :=
  HashMap.insertInto result addr trigger

def insertJournalTriggers (result : HashMap Address (HashSet TriggerType)) :
    JournalEntry → HashMap Address (HashSet TriggerType)
  | .balanceTransfer source target _ =>
    [source, target].foldl (fun result addr => insertTrigger result addr .balanceChange) result
  | .storageChanged address key _ => insertTrigger result address (.storageChange key)
  | _ => result

/-- The triggers of a transaction, by address. -/
def triggers (it : Iteration) (tracer : CallTracer) : HashMap Address (HashSet TriggerType) :=
  let result := (HashMap.iter it tracer.callInputs).foldl
    (fun result entry => insertTrigger result entry.1.1 (.call entry.1.2)) ∅
  match tracer.journaledState with
  | none => result
  | some journaledState => journaledState.journal.flatten.foldl insertJournalTriggers result

end CallTracer

end AssertionExecution
