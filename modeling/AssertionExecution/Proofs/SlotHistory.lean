import AssertionExecution.Proofs.RevertedViews

/-!
# The history of a slot

The journal has one list for each frame that was opened, also for those that have ended. Its
entries are still in the order of the writes that made them, since new entries go to the last
list, and a revert removes all lists from the checkpoint on.
-/

namespace AssertionExecution

open HashMap UndoLog

inductive JournalStep where
  | load (address : Address)
  | sload (address : Address) (key : U256)
  | sstore (address : Address) (key value : U256)
  | checkpoint
  | commit
  | revert

/-- The journaled state of a running transaction, with the checkpoints of the open frames, the
innermost first. -/
structure OpenJournal where
  journaled : JournaledState
  checkpoints : List JournalCheckpoint

structure SlotWrite where
  address : Address
  key : U256
  value : U256
deriving DecidableEq

namespace JournalStep

/-- Takes a step. It is abandoned where the database fails, the account has not been loaded or
no frame is open. -/
def run {DB E : Type} [DatabaseRef DB E] (db : DB) (s : OpenJournal) :
    JournalStep → Option OpenJournal
  | load address => (s.journaled.loadAccount db address).toOption.map fun js =>
    { s with journaled := js }
  | sload address key => (s.journaled.sload db address key).toOption.map fun r =>
    { s with journaled := r.2 }
  | sstore address key value => (s.journaled.sstore db address key value).toOption.map fun js =>
    { s with journaled := js }
  | checkpoint => some ⟨s.journaled.checkpoint.1, s.journaled.checkpoint.2 :: s.checkpoints⟩
  | commit =>
    match s.checkpoints with
    | [] => none
    | _ :: checkpoints => s.journaled.checkpointCommit.map fun js => ⟨js, checkpoints⟩
  | revert =>
    match s.checkpoints with
    | [] => none
    | entered :: checkpoints =>
      (s.journaled.checkpointRevert entered).map fun js => ⟨js, checkpoints⟩

/-- Keeps the writes of the open frames, the innermost first, and of the transaction around
them. A frame that is committed leaves its writes to the frame around it. -/
def keep : List (List SlotWrite) → JournalStep → List (List SlotWrite)
  | writes :: outer, sstore address key value => (writes ++ [⟨address, key, value⟩]) :: outer
  | writes, checkpoint => [] :: writes
  | writes :: around :: outer, commit => (around ++ writes) :: outer
  | _ :: around :: outer, revert => around :: outer
  | writes, _ => writes

end JournalStep

/-- The writes of some steps that are not reverted by them, in order. -/
def keptWrites (steps : List JournalStep) : List SlotWrite :=
  (steps.foldl JournalStep.keep [[]]).reverse.flatten

def writtenTo (a : Address) (key : U256) (writes : List SlotWrite) : List U256 :=
  writes.filterMap fun w => if w.address = a ∧ w.key = key then some w.value else none

/-- The values to which writes change a slot, given the value it has. -/
def changedValues : U256 → List U256 → List U256
  | _, [] => []
  | value, next :: values =>
    if value = next then changedValues value values else next :: changedValues next values

lemma destutter'_eq_changedValues (value : U256) (values : List U256) :
    values.destutter' (· ≠ ·) value = value :: changedValues value values := by
  induction values generalizing value with
  | nil => rfl
  | cons next values ih =>
    rw [List.destutter'_cons, changedValues]
    by_cases hvalue : value = next
    · rw [if_neg (not_not.mpr hvalue), if_pos hvalue, ih]
    · rw [if_pos hvalue, if_neg hvalue, ih]

def slotWrites (writes : List SlotWrite) (a : Address) : List (U256 × U256) :=
  writes.filterMap fun w => if w.address = a then some (w.key, w.value) else none

lemma slotWrites_append (writes writes' : List SlotWrite) :
    slotWrites (writes ++ writes') = fun a => slotWrites writes a ++ slotWrites writes' a := by
  funext a
  exact List.filterMap_append

lemma slotWrites_singleton (a : Address) (key value : U256) :
    slotWrites [⟨a, key, value⟩] = fun b => if a = b then [(key, value)] else [] := by
  funext b
  by_cases hb : a = b <;> simp [slotWrites, hb]

lemma writtenTo_eq (a : Address) (key : U256) (writes : List SlotWrite) :
    writtenTo a key writes =
      ((slotWrites writes a).filter fun w => w.1 = key).map Prod.snd := by
  unfold writtenTo slotWrites
  rw [List.filter_filterMap, List.map_filterMap]
  apply List.filterMap_congr
  intro w _
  by_cases ha : w.address = a <;> by_cases hkey : w.key = key <;> simp [ha, hkey]

lemma eq_ok_of_toOption {E α : Type} {r : Except E α} {x : α} (h : r.toOption = some x) :
    r = .ok x := by
  cases r with
  | error e => cases h
  | ok y =>
    cases h
    rfl

/-! ### Frame by frame -/

section

variable {DB E : Type} [DatabaseRef DB E] {db : DB} {start : JournaledState}

/-- The storage after the writes of all frames. -/
def memoryAfter (db : DB) (writes : List (List SlotWrite)) (a : Address) : U256 → U256 :=
  afterWrites (storedValue db a) (slotWrites writes.reverse.flatten a)

lemma memoryAfter_cons (writes : List SlotWrite) (outer : List (List SlotWrite)) :
    memoryAfter db (writes :: outer) =
      fun a => afterWrites (memoryAfter db outer a) (slotWrites writes a) := by
  funext a
  unfold memoryAfter
  rw [List.reverse_cons, List.flatten_append, List.flatten_singleton, slotWrites_append]
  exact List.foldl_append

/-- The journaled state that a frame has left open has the effect of the frame's writes on the
one in which it was entered, and so on outwards. -/
inductive FrameEffects (db : DB) (start : JournaledState) :
    OpenJournal → List (List SlotWrite) → Prop where
  | outermost {js : JournaledState} {writes : List SlotWrite}
      (h : Effect db (memoryAfter db []) (slotWrites writes) [] start js) :
      FrameEffects db start ⟨js, []⟩ [writes]
  | frame {entry : OpenJournal} {js : JournaledState} {writes : List SlotWrite}
      {outer : List (List SlotWrite)} (houter : FrameEffects db start entry outer)
      (h : Effect db (memoryAfter db outer) (slotWrites writes) []
        entry.journaled.checkpoint.1 js) :
      FrameEffects db start ⟨js, entry.journaled.checkpoint.2 :: entry.checkpoints⟩
        (writes :: outer)

variable {s s' : OpenJournal} {writes : List (List SlotWrite)}

lemma FrameEffects.effect (h : FrameEffects db start s writes) :
    Effect db (storedValue db) (slotWrites writes.reverse.flatten) [] start s.journaled := by
  induction h with
  | outermost h =>
    rw [List.reverse_singleton, List.flatten_singleton]
    exact h
  | frame houter h ih =>
    rw [List.reverse_cons, List.flatten_append, List.flatten_singleton, slotWrites_append]
    exact ih.trans h.opened

lemma FrameEffects.exists_cons (h : FrameEffects db start s writes) :
    ∃ inner outer, writes = inner :: outer := by
  cases h with
  | outermost h => exact ⟨_, _, rfl⟩
  | frame houter h => exact ⟨_, _, rfl⟩

/-- What happens in the innermost frame adds to its effect. -/
lemma FrameEffects.extend {inner more : List SlotWrite} {outer : List (List SlotWrite)}
    {js' : JournaledState} (h : FrameEffects db start s (inner :: outer))
    (hmore : Effect db (memoryAfter db (inner :: outer)) (slotWrites more) [] s.journaled js') :
    FrameEffects db start { s with journaled := js' } ((inner ++ more) :: outer) := by
  rw [memoryAfter_cons] at hmore
  cases h with
  | outermost h =>
    apply FrameEffects.outermost
    rw [slotWrites_append]
    exact h.trans hmore
  | frame houter h =>
    apply FrameEffects.frame houter
    rw [slotWrites_append]
    exact h.trans hmore

lemma FrameEffects.extend_nil {js' : JournaledState} (h : FrameEffects db start s writes)
    (hmore : Effect db (memoryAfter db writes) (fun _ => []) [] s.journaled js') :
    FrameEffects db start { s with journaled := js' } writes := by
  obtain ⟨inner, outer, rfl⟩ := h.exists_cons
  have hnone : Effect db (memoryAfter db (inner :: outer)) (slotWrites []) [] s.journaled js' :=
    hmore
  have hextended := h.extend hnone
  rwa [List.append_nil] at hextended

/-- A commit moves a frame's writes and their effect to the frame around it, a revert removes
both. -/
lemma FrameEffects.step (h : FrameEffects db start s writes) {step : JournalStep}
    (hrun : step.run db s = some s') : FrameEffects db start s' (step.keep writes) := by
  have hmemory : Remembers db (memoryAfter db writes) s.journaled := h.effect.memory
  have hplain := h.effect.plain
  have hpresent := h.effect.present
  obtain ⟨inner, outer, rfl⟩ := h.exists_cons
  cases step with
  | load a =>
    obtain ⟨js', hload, rfl⟩ := Option.map_eq_some_iff.mp hrun
    exact h.extend_nil (effect_loadAccount (eq_ok_of_toOption hload) hmemory hplain hpresent)
  | sload a key =>
    obtain ⟨r, hload, rfl⟩ := Option.map_eq_some_iff.mp hrun
    exact h.extend_nil (effect_sload (eq_ok_of_toOption hload) hmemory hplain hpresent)
  | sstore a key value =>
    obtain ⟨js', hstore, rfl⟩ := Option.map_eq_some_iff.mp hrun
    have heffect := effect_sstore (eq_ok_of_toOption hstore) hmemory hplain hpresent
    rw [← slotWrites_singleton] at heffect
    exact h.extend heffect
  | checkpoint =>
    cases hrun
    exact FrameEffects.frame h (Effect.refl hmemory
      (JournaledState.forall_entries_checkpoint hplain)
      (JournaledState.forall_entries_checkpoint hpresent))
  | commit =>
    cases h with
    | outermost h => cases hrun
    | frame houter h =>
      obtain ⟨js', hcommit, rfl⟩ := Option.map_eq_some_iff.mp hrun
      obtain ⟨around, outer, rfl⟩ := houter.exists_cons
      exact houter.extend (h.commit hcommit)
  | revert =>
    cases h with
    | outermost h => cases hrun
    | frame houter h =>
      obtain ⟨js', hrevert, rfl⟩ := Option.map_eq_some_iff.mp hrun
      obtain ⟨around, outer, rfl⟩ := houter.exists_cons
      exact houter.extend_nil (h.revert hrevert houter.effect.plain)

lemma frameEffects_of_run {steps : List JournalStep} (h : FrameEffects db start s writes)
    (hrun : steps.foldlM (JournalStep.run db) s = some s') :
    FrameEffects db start s' (steps.foldl JournalStep.keep writes) := by
  induction steps generalizing s writes with
  | nil =>
    cases hrun
    exact h
  | cons step steps ih =>
    rw [List.foldlM_cons] at hrun
    obtain ⟨s₁, hstep, hrest⟩ := Option.bind_eq_some_iff.mp hrun
    exact ih (h.step hstep) hrest

lemma depth_step (hdepth : s.journaled.depth = s.checkpoints.length) {step : JournalStep}
    (hrun : step.run db s = some s') : s'.journaled.depth = s'.checkpoints.length := by
  cases step with
  | load a =>
    obtain ⟨js', hload, rfl⟩ := Option.map_eq_some_iff.mp hrun
    rcases JournaledState.loadAccount_appends (eq_ok_of_toOption hload) with h | h
    · exact h.depth.trans hdepth
    · exact h.depth.trans hdepth
  | sload a key =>
    obtain ⟨r, hload, rfl⟩ := Option.map_eq_some_iff.mp hrun
    obtain ⟨warmed, h, -⟩ := JournaledState.sload_appends (eq_ok_of_toOption hload)
    exact h.depth.trans hdepth
  | sstore a key value =>
    obtain ⟨js', hstore, rfl⟩ := Option.map_eq_some_iff.mp hrun
    obtain ⟨present, js₁, hload, hwrite⟩ :=
      JournaledState.sstore_appends (eq_ok_of_toOption hstore)
    obtain ⟨warmed, h, -⟩ := JournaledState.sload_appends hload
    rcases hwrite with ⟨-, rfl⟩ | ⟨-, hwrite⟩
    · exact h.depth.trans hdepth
    · exact hwrite.depth.trans (h.depth.trans hdepth)
  | checkpoint =>
    cases hrun
    exact congrArg (· + 1) hdepth
  | commit =>
    obtain ⟨js, checkpoints⟩ := s
    cases checkpoints with
    | nil => cases hrun
    | cons entered checkpoints =>
      obtain ⟨js', hcommit, rfl⟩ := Option.map_eq_some_iff.mp hrun
      obtain ⟨-, rfl⟩ := JournaledState.checkpointCommit_cases hcommit
      exact Nat.sub_eq_of_eq_add hdepth
  | revert =>
    obtain ⟨js, checkpoints⟩ := s
    cases checkpoints with
    | nil => cases hrun
    | cons entered checkpoints =>
      obtain ⟨js', hrevert, rfl⟩ := Option.map_eq_some_iff.mp hrun
      obtain ⟨-, -, undone, -, rfl⟩ := JournaledState.checkpointRevert_cases hrevert
      exact Nat.sub_eq_of_eq_add hdepth

lemma depth_of_run {steps : List JournalStep}
    (hdepth : s.journaled.depth = s.checkpoints.length)
    (hrun : steps.foldlM (JournalStep.run db) s = some s') :
    s'.journaled.depth = s'.checkpoints.length := by
  induction steps generalizing s with
  | nil =>
    cases hrun
    exact hdepth
  | cons step steps ih =>
    rw [List.foldlM_cons] at hrun
    obtain ⟨s₁, hstep, hrest⟩ := Option.bind_eq_some_iff.mp hrun
    exact ih (depth_step hdepth hstep) hrest

lemma frameEffects_new {warm : List Address} {steps : List JournalStep}
    (hrun : steps.foldlM (JournalStep.run db) ⟨.new warm, []⟩ = some s) :
    FrameEffects db (.new warm) s (steps.foldl JournalStep.keep [[]]) := by
  obtain ⟨hmemory, hplain, hpresent⟩ := start_effect db warm
  exact frameEffects_of_run (FrameEffects.outermost (Effect.refl hmemory hplain hpresent)) hrun

/-- In every run, the frame that was opened last can be committed and can be reverted. -/
theorem open_frame_ends {warm : List Address} {steps : List JournalStep}
    (hrun : steps.foldlM (JournalStep.run db) ⟨.new warm, []⟩ = some s)
    (hopen : s.checkpoints ≠ []) :
    (JournalStep.commit.run db s).isSome ∧ (JournalStep.revert.run db s).isSome := by
  have hdepth : s.journaled.depth = s.checkpoints.length := depth_of_run rfl hrun
  have heffects := frameEffects_new hrun
  generalize steps.foldl JournalStep.keep [[]] = writes at heffects
  cases heffects with
  | outermost h => exact (hopen rfl).elim
  | @frame entry js inner outer houter h =>
    have hpos : js.depth ≠ 0 := hdepth.trans_ne (Nat.succ_ne_zero _)
    constructor
    · simp only [JournalStep.run, JournaledState.checkpointCommit, if_neg hpos]
      rfl
    · have hbounded : entry.journaled.checkpoint.2.journalI ≤ js.journal.length :=
        h.opened.length
      obtain ⟨js', hrevert, -⟩ :=
        JournaledState.checkpointRevert_covered hpos hbounded h.present
      simp only [JournalStep.run, hrevert]
      rfl

end

/-! ### The history -/

/-- The value that a slot has in a journaled state, if it was loaded. -/
def presentValue (js : JournaledState) (a : Address) (key : U256) : Option U256 :=
  (js.state.lookup a).bind fun account =>
    (account.storage.lookup key).map EvmStorageSlot.presentValue

/-- A history of changes is empty if there are none. Otherwise it starts with the value before
the first change and ends with the value in a journaled state. -/
structure IsHistory (initial : U256) (changes : List U256) (final : Option U256)
    (history : List U256) : Prop where
  unchanged : changes = [] → history = []
  changed : changes ≠ [] → history = initial :: changes
  final : history ≠ [] → history.getLast? = final
  neighbours : history.IsChain (· ≠ ·)

lemma isHistory_differences {initial : U256} {changes : List U256} {final : Option U256}
    (hchain : (initial :: changes).IsChain (· ≠ ·))
    (hfinal : differences (initial :: changes) ≠ [] →
      (differences (initial :: changes)).getLast? = final) :
    IsHistory initial changes final (differences (initial :: changes)) := by
  cases changes with
  | nil => exact ⟨fun _ => rfl, fun hne => (hne rfl).elim, hfinal, List.isChain_nil⟩
  | cons next changes =>
    have hdifferences : differences (initial :: next :: changes) = initial :: next :: changes :=
      if_neg (by simp)
    rw [hdifferences] at hfinal ⊢
    exact ⟨fun hnil => (List.cons_ne_nil _ _ hnil).elim, fun _ => rfl, hfinal, hchain⟩

lemma getLast?_differences {js : JournaledState} {a : Address} {key : U256} {history : List U256}
    (h : getDifferences js a key = .ok history) (hne : history ≠ []) :
    history.getLast? = presentValue js a key := by
  unfold getDifferences at h
  dsimp only at h
  split_ifs at h with hempty
  · cases h
    exact (hne (List.isEmpty_iff.mp hempty)).elim
  · unfold presentValue
    split at h
    · cases h
    · rename_i account haccount
      split at h
      · cases h
      · rename_i slot hslot
        cases h
        rw [haccount, Option.bind_some, hslot, Option.map_some, List.getLast?_concat]

/-- In every run of a transaction's steps, the state changes of a slot are its history: the value
it had before the transaction and the values that it was changed to by the writes that are not
reverted. -/
theorem state_changes_are_history {DB E : Type} [DatabaseRef DB E] (db : DB)
    (warm : List Address) (steps : List JournalStep) {s : OpenJournal}
    (hrun : steps.foldlM (JournalStep.run db) ⟨.new warm, []⟩ = some s) (a : Address)
    (key : U256) :
    ∃ history, getDifferences s.journaled a key = .ok history ∧
      IsHistory (storedValue db a key)
        (changedValues (storedValue db a key) (writtenTo a key (keptWrites steps)))
        (presentValue s.journaled a key) history ∧
      ∀ (inputs : CallInputs) (context : PhEvmContext),
        context.logsAndTraces.callTraces.journaledState = some s.journaled →
        getStateChangesCall.abiDecode inputs.input = some (a, key) →
        getStateChanges inputs context = .ok (abiEncodeWords history) := by
  have heffect := (frameEffects_new hrun).effect
  have hlog : (slotLog a s.journaled.journal).flatten =
      logged (storedValue db a) (slotWrites (keptWrites steps) a) :=
    heffect.logged a 0 Nat.zero_lt_one
  have hdifferences := getDifferences_eq heffect.present hlog (heffect.memory a) key
  have hvalues : slotValues (storedValue db a) (slotWrites (keptWrites steps) a) key =
      storedValue db a key ::
        changedValues (storedValue db a key) (writtenTo a key (keptWrites steps)) := by
    unfold slotValues
    rw [← writtenTo_eq, destutter'_eq_changedValues]
  rw [hvalues] at hdifferences
  refine ⟨_, hdifferences, isHistory_differences ?_ (getLast?_differences hdifferences), ?_⟩
  · rw [← destutter'_eq_changedValues]
    exact List.isChain_destutter' ..
  · intro inputs context hcaptured hdecode
    unfold getStateChanges
    rw [hdecode, hcaptured]
    dsimp only
    rw [hdifferences]
    rfl

def targetDb : ForkDb Unit :=
  { ForkDb.new () with
    storage := (∅ : HashMap Address ForkStorageMap).insert 2
      ⟨(∅ : HashMap U256 U256).insert 0 1, false⟩ }

/-- A frame calls the contract three times: it writes 5, writes 10 and reverts, and writes 15. -/
def triggeringSteps : List JournalStep :=
  [.load 2, .checkpoint, .checkpoint, .sstore 2 0 5, .commit, .checkpoint, .sstore 2 0 10, .revert,
    .checkpoint, .sstore 2 0 15, .commit, .commit]

/-- The value that was reverted is not in the history. -/
theorem state_changes_are_history_triggering :
    ∃ s, triggeringSteps.foldlM (JournalStep.run targetDb) ⟨.new [], []⟩ = some s ∧
      getDifferences s.journaled 2 0 = .ok [1, 5, 15] := by
  have hsome : (triggeringSteps.foldlM (JournalStep.run targetDb) ⟨.new [], []⟩).isSome = true := by
    decide
  obtain ⟨s, hrun⟩ := Option.isSome_iff_exists.mp hsome
  obtain ⟨history, hdifferences, hhistory, -⟩ :=
    state_changes_are_history targetDb [] triggeringSteps hrun 2 0
  have hvalues : history = [1, 5, 15] := (hhistory.changed (by decide)).trans (by decide)
  exact ⟨s, hrun, hdifferences.trans (congrArg Except.ok hvalues)⟩

end AssertionExecution
