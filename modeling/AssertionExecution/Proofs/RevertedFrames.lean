import AssertionExecution.Proofs.OpenFrames

/-!
# What a reverted frame leaves of the assertion contract

The storage of the assertion contract is handed over at every switch, but its journal
entries stay with the fork that was active when they were made. A revert undoes the entries
of one fork only.
-/

namespace AssertionExecution

open HashMap UndoLog

/-! ### The storage changes of an account -/

/-- The slot of the account that an entry restores. -/
def slotChange (a : Address) : JournalEntry → Option (U256 × U256)
  | .storageChanged b key hadValue => if b = a then some (key, hadValue) else none
  | _ => none

lemma slotChange_storageChanged (a b : Address) (key hadValue : U256) :
    slotChange a (.storageChanged b key hadValue) =
      if b = a then some (key, hadValue) else none :=
  rfl

def slotLog (a : Address) (journal : List (List JournalEntry)) : List (List (U256 × U256)) :=
  journal.map fun entries => entries.filterMap (slotChange a)

lemma slotLog_pushLast (a : Address) (e : JournalEntry) (journal : List (List JournalEntry)) :
    slotLog a (AssertionExecution.pushLast e journal) =
      match slotChange a e with
      | some change => UndoLog.pushLast change (slotLog a journal)
      | none => slotLog a journal := by
  unfold slotLog
  rw [pushLast_eq]
  fun_induction UndoLog.pushLast e journal with
  | case1 => cases slotChange a e <;> rfl
  | case2 l => cases hchange : slotChange a e <;> simp [hchange, UndoLog.pushLast]
  | case3 l ls hne ih =>
    rw [List.map_cons, ih]
    cases hchange : slotChange a e with
    | none => rfl
    | some change =>
      cases ls with
      | nil => exact (hne rfl).elim
      | cons l' ls => rfl

lemma slotLog_padJournal (a : Address) (length : Nat) (journal : List (List JournalEntry)) :
    slotLog a (padJournal length journal) =
      slotLog a journal ++ List.replicate (length - journal.length) [] := by
  unfold slotLog padJournal
  rw [List.map_append, List.map_replicate]
  rfl

lemma length_slotLog (a : Address) (journal : List (List JournalEntry)) :
    (slotLog a journal).length = journal.length :=
  List.length_map _

/-- The entries that loads, reads and writes make. -/
def Plain : JournalEntry → Prop
  | .accountWarmed _ => True
  | .storageWarmed _ _ => True
  | .storageChanged _ _ _ => True
  | _ => False

def contractMemory (deployed : U256 → U256) (js : JournaledState) : U256 → U256 :=
  match js.tracked assertionContractAddress with
  | none => deployed
  | some t => fun key => (t.readSlot (deployed key) key).presentValue

lemma Reads.eq_contractMemory {deployed memory : U256 → U256} {js : JournaledState}
    (h : Reads deployed memory (js.tracked assertionContractAddress)) :
    memory = contractMemory deployed js := by
  unfold contractMemory
  cases ht : js.tracked assertionContractAddress with
  | none =>
    rw [ht] at h
    exact h
  | some t =>
    rw [ht] at h
    funext key
    exact (h.2 key).symm

/-! ### Undoing -/

section

variable {a : Address} {deployed memory : U256 → U256} {js js' : JournaledState}

lemma Reads.modifySlot (h : Reads deployed memory (js.tracked a)) {b : Address} {key : U256}
    {f : EvmStorageSlot → EvmStorageSlot} (hrun : js.modifySlot b key f = some js') :
    ∃ slot, (a = b → slot.presentValue = memory key) ∧
      Reads deployed (if a = b then Function.update memory key (f slot).presentValue else memory)
        (js'.tracked a) := by
  unfold JournaledState.modifySlot at hrun
  cases haccount : js.state.lookup b with
  | none =>
    rw [haccount] at hrun
    cases hrun
  | some account =>
    rw [haccount] at hrun
    obtain ⟨slot, hslot, rfl⟩ := Option.map_eq_some_iff.mp hrun
    refine ⟨slot, ?_⟩
    rw [JournaledState.tracked_setAccount]
    by_cases ha : a = b
    · subst ha
      rw [JournaledState.tracked_eq_some haccount] at h
      rw [if_pos rfl, if_pos rfl]
      refine ⟨fun _ => ?_, h.1, fun key' => ?_⟩
      · have hread := h.2 key
        unfold TrackedAccount.readSlot at hread
        dsimp only at hread
        rw [hslot] at hread
        exact hread
      · rw [Function.update_apply]
        unfold TrackedAccount.readSlot
        dsimp only
        rw [lookup_insert_ite]
        by_cases hkey : key' = key
        · rw [if_pos hkey, if_pos hkey]
        · rw [if_neg hkey, if_neg hkey]
          exact h.2 key'
    · rw [if_neg ha, if_neg ha]
      exact ⟨fun hab => absurd hab ha, h⟩

/-- Undoing an entry restores the slot that it changed. -/
lemma Reads.undo (h : Reads deployed memory (js.tracked a))
    {e : JournalEntry} (he : Plain e) (hundo : js.undo e = some js') :
    Reads deployed (restore (slotChange a e).toList memory)
      (js'.tracked a) := by
  cases e with
  | accountWarmed b =>
    obtain ⟨account, haccount, rfl⟩ := Option.map_eq_some_iff.mp hundo
    rw [JournaledState.tracked_setAccount]
    by_cases ha : a = b
    · subst ha
      rw [JournaledState.tracked_eq_some haccount] at h
      rw [if_pos rfl]
      exact h
    · rw [if_neg ha]
      exact h
  | storageWarmed b key =>
    obtain ⟨slot, hpresent, hreads⟩ := h.modifySlot hundo
    by_cases ha : a = b
    · rw [if_pos ha, hpresent ha, Function.update_eq_self] at hreads
      exact hreads
    · rw [if_neg ha] at hreads
      exact hreads
  | storageChanged b key hadValue =>
    obtain ⟨slot, -, hreads⟩ := h.modifySlot hundo
    rw [slotChange_storageChanged]
    by_cases ha : a = b
    · rw [if_pos ha] at hreads
      rw [if_pos ha.symm]
      exact hreads
    · rw [if_neg ha] at hreads
      rw [if_neg (Ne.symm ha)]
      exact hreads
  | _ => exact he.elim

lemma Reads.journalRevert (h : Reads deployed memory (js.tracked a))
    {entries : List JournalEntry} (hplain : ∀ e ∈ entries, Plain e)
    (hrevert : js.journalRevert entries = some js') :
    Reads deployed (restore (entries.filterMap (slotChange a)) memory)
      (js'.tracked a) := by
  unfold JournaledState.journalRevert at hrevert
  induction entries generalizing js' with
  | nil =>
    cases hrevert
    exact h
  | cons e entries ih =>
    rw [List.reverse_cons, List.foldlM_append] at hrevert
    obtain ⟨js₁, hrest, hlast⟩ := Option.bind_eq_some_iff.mp hrevert
    have hundo : js₁.undo e = some js' := by simpa using hlast
    have hreads := (ih (fun e he => hplain e (List.mem_cons_of_mem _ he)) hrest).undo
      (hplain e (List.mem_cons_self ..)) hundo
    rw [← restore_append] at hreads
    rw [List.filterMap_cons]
    cases hchange : slotChange a e with
    | none => rwa [hchange] at hreads
    | some change => rwa [hchange] at hreads

/-- A revert restores what the entries of the active fork changed since the checkpoint. -/
lemma Reads.checkpointRevert (h : Reads deployed memory (js.tracked a))
    {checkpoint : JournalCheckpoint} (hplain : ∀ entries ∈ js.journal, ∀ e ∈ entries, Plain e)
    (hrevert : js.checkpointRevert checkpoint = some js') :
    Reads deployed (restore (since checkpoint.journalI (slotLog a js.journal)) memory)
      (js'.tracked a) := by
  have hlists : ∀ (lists : List (List JournalEntry)) (undone : JournaledState),
      (∀ entries ∈ lists, ∀ e ∈ entries, Plain e) →
      lists.reverse.foldlM JournaledState.journalRevert js = some undone →
      Reads deployed (restore (slotLog a lists).flatten memory)
        (undone.tracked a) := by
    intro lists
    induction lists with
    | nil =>
      intro undone _ hrun
      cases hrun
      exact h
    | cons entries lists ih =>
      intro undone hplain hrun
      rw [List.reverse_cons, List.foldlM_append] at hrun
      obtain ⟨js₁, hrest, hlast⟩ := Option.bind_eq_some_iff.mp hrun
      have hentries : js₁.journalRevert entries = some undone := by simpa using hlast
      have hreads := (ih js₁ (fun l hl => hplain l (List.mem_cons_of_mem _ hl)) hrest).journalRevert
        (hplain entries (List.mem_cons_self ..)) hentries
      rwa [← restore_append] at hreads
  obtain ⟨-, -, undone, hundone, rfl⟩ := JournaledState.checkpointRevert_cases hrevert
  have hreads := hlists _ undone (fun l hl => hplain l (List.mem_of_mem_drop hl)) hundone
  unfold slotLog at hreads
  rw [List.map_drop] at hreads
  exact hreads

end

/-! ### What an operation logs -/

section

variable {Active Err : Type} [DatabaseRef Active Err] {start : MultiForkDb (ForkDb Active)}
  {s : Running (ForkDb Active)} {deployed memory : U256 → U256} (warm : List Address)

omit [DatabaseRef Active Err] in
lemma slotLog_foldl (a : Address) (entries : List JournalEntry)
    (journal : List (List JournalEntry)) :
    slotLog a (entries.foldl (fun journal e => AssertionExecution.pushLast e journal) journal) =
      (entries.filterMap (slotChange a)).foldl (fun log change => UndoLog.pushLast change log)
        (slotLog a journal) := by
  induction entries generalizing journal with
  | nil => rfl
  | cons e entries ih =>
    rw [List.foldl_cons, ih, slotLog_pushLast, List.filterMap_cons]
    cases slotChange a e <;> rfl

omit [DatabaseRef Active Err] in
lemma slotChange_warmed (b : Address) {a : Address} {key : U256} {warmed : List JournalEntry}
    (h : warmed = [] ∨ warmed = [.storageWarmed a key]) :
    warmed.filterMap (slotChange b) = [] ∧ ∀ e ∈ warmed, Plain e := by
  rcases h with rfl | rfl
  · exact ⟨rfl, fun _ h => (List.not_mem_nil h).elim⟩
  · refine ⟨rfl, fun e he => ?_⟩
    rw [List.mem_singleton.mp he]
    trivial

omit [DatabaseRef Active Err] in
lemma Reads.sload_value {DB E : Type} [DatabaseRef DB E] {db : DB} {js js' : JournaledState}
    {a : Address} {key value : U256} (h : Reads deployed memory (js.tracked a))
    (hdeployed : storageRef db a key = .ok (deployed key))
    (hload : js.sload db a key = .ok (value, js')) : value = memory key := by
  cases ht : js.tracked a with
  | none =>
    rw [JournaledState.sload_untracked ht] at hload
    cases hload
  | some t =>
    obtain ⟨js', hrun, -⟩ := JournaledState.sload_tracked ht hdeployed
    rw [hrun] at hload
    cases hload
    rw [ht] at h
    exact h.2 key

/-- The log and the memory of the assertion contract move together: a write that changes a slot
logs the value it replaces. -/
lemma Shared.contract_step (h : Shared start s) (hhidden : HidesForks start)
    (hdeployed : ∀ key, storageRef s.db assertionContractAddress key = .ok (deployed key))
    (hreads : Reads deployed memory (s.journaled.tracked assertionContractAddress)) {op : ForkOp}
    (hop : op.isSwitch = false) {entries : List JournalEntry}
    (hadds : op.Adds (.new warm) s entries) :
    (∀ e ∈ entries, Plain e) ∧
      ∃ memory', Reads deployed memory'
          ((op.step (.new warm) s).journaled.tracked assertionContractAddress) ∧
        (entries.filterMap (slotChange assertionContractAddress) = [] ∧ memory' = memory ∨
          ∃ key value,
            entries.filterMap (slotChange assertionContractAddress) = [(key, memory key)] ∧
            memory' = Function.update memory key value) := by
  have hafter := h.reads_step warm hhidden hdeployed hreads op
  cases op with
  | switchFork id => exact (Bool.false_ne_true hop.symm).elim
  | load a =>
    refine ⟨?_, memory, hafter, Or.inl ⟨?_, rfl⟩⟩
    · rcases hadds with rfl | rfl <;> simp [Plain]
    · rcases hadds with rfl | rfl <;> rfl
  | sload a key =>
    obtain ⟨hnone, hplain⟩ := slotChange_warmed assertionContractAddress hadds
    exact ⟨hplain, memory, hafter, Or.inl ⟨hnone, rfl⟩⟩
  | setBalanceNonce a balance nonce =>
    obtain rfl : entries = [] := hadds
    exact ⟨fun _ h => (List.not_mem_nil h).elim, memory, hafter, Or.inl ⟨rfl, rfl⟩⟩
  | sstore a key value =>
    rcases hadds with ⟨hfails, rfl⟩ | ⟨hwrites, warmed, present, js, hwarmed, hload, rfl⟩
    · refine ⟨fun _ h => (List.not_mem_nil h).elim, memory, ?_, Or.inl ⟨rfl, rfl⟩⟩
      simpa [written, hfails, afterWrites] using hafter
    · obtain ⟨hnone, hplain⟩ := slotChange_warmed assertionContractAddress hwarmed
      refine ⟨?_, _, hafter, ?_⟩
      · intro e he
        rcases List.mem_append.mp he with he | he
        · exact hplain e he
        · split_ifs at he
          · exact (List.not_mem_nil he).elim
          · rw [List.mem_singleton.mp he]
            trivial
      · rw [List.filterMap_append, hnone, List.nil_append]
        by_cases ha : a = assertionContractAddress
        · subst ha
          have hpresent : present = memory key := hreads.sload_value (hdeployed key) hload
          subst hpresent
          have hmemory : afterWrites memory
              (written (.new warm) s [.sstore assertionContractAddress key value]) =
              Function.update memory key value := by
            simp [written, hwrites, afterWrites]
          rw [hmemory]
          by_cases hvalue : memory key = value
          · refine Or.inl ⟨by rw [if_pos hvalue]; rfl, ?_⟩
            rw [← hvalue, Function.update_eq_self]
          · refine Or.inr ⟨key, value, ?_, rfl⟩
            rw [if_neg hvalue]
            simp [slotChange]
        · refine Or.inl ⟨?_, ?_⟩
          · split_ifs
            · rfl
            · simp [slotChange, ha]
          · simp [written, ha, afterWrites]

/-! ### Both forks -/

def ForkId.other : ForkId → ForkId
  | .preTx => .postTx
  | .postTx => .preTx

/-- The journaled state of the fork that is not active, or the one it will start with. -/
def inactiveJournaled (init : JournaledState) (s : Running (ForkDb Active)) : JournaledState :=
  ((s.db.inactiveForks.lookup s.db.activeForkId.other).bind (·.journaledState)).getD init

/-- Since the checkpoint, no slot of the assertion contract has been changed in the fork that is
not active. -/
def OtherForkUnchanged (init : JournaledState) (s : Running (ForkDb Active))
    (checkpoint : JournalCheckpoint) : Prop :=
  ∀ entries ∈ (inactiveJournaled init s).journal.drop checkpoint.journalI, ∀ key hadValue,
    .storageChanged assertionContractAddress key hadValue ∉ entries

lemma ForkId.eq_other {id active : ForkId} (h : id ≠ active) : id = active.other := by
  cases id <;> cases active <;> first | rfl | exact (h rfl).elim

lemma ForkId.other_other (id : ForkId) : id.other.other = id := by
  cases id <;> rfl

omit [DatabaseRef Active Err] in
lemma OtherForkUnchanged.since_eq_nil {init : JournaledState} {checkpoint : JournalCheckpoint}
    (h : OtherForkUnchanged init s checkpoint) :
    since checkpoint.journalI
      (slotLog assertionContractAddress (inactiveJournaled init s).journal) = [] := by
  unfold since slotLog
  rw [← List.map_drop, List.flatten_eq_nil_iff]
  intro log hlog
  obtain ⟨entries, hentries, rfl⟩ := List.mem_map.mp hlog
  rw [List.filterMap_eq_nil_iff]
  intro e he
  cases e with
  | storageChanged a key hadValue =>
    rw [slotChange_storageChanged, if_neg]
    rintro rfl
    exact h entries hentries key hadValue he
  | _ => rfl

omit [DatabaseRef Active Err] in
lemma switchFork_exchanges {id : ForkId} {init js : JournaledState}
    {db : MultiForkDb (ForkDb Active)} (hid : id ≠ s.db.activeForkId)
    (h : s.db.switchFork id s.journaled init = .ok (db, js)) :
    js = updateJournaledState defaultPersistentAccounts s.journaled (inactiveJournaled init s) ∧
      inactiveJournaled init ⟨db, js⟩ = s.journaled := by
  unfold MultiForkDb.switchFork at h
  rw [if_neg hid] at h
  split at h
  · cases h
  · rename_i fork hfork
    cases h
    rw [ForkId.eq_other hid] at hfork ⊢
    constructor
    · unfold inactiveJournaled
      rw [hfork, Option.bind_some]
    · unfold inactiveJournaled
      dsimp only
      rw [ForkId.other_other, AList.lookup_insert]
      rfl

omit [DatabaseRef Active Err] in
lemma since_nil_of_le {n m : Nat} (h : n ≤ m) {log : List (List (U256 × U256))}
    (hn : since n log = []) : since m log = [] := by
  rw [← since_take_append h log, List.append_eq_nil_iff] at hn
  exact hn.2

/-- An open frame as a frame over the logs of the assertion contract. -/
def OpenFrame.toUndo (deployed : U256 → U256) (frame : OpenFrame Active) : Frame U256 U256 :=
  ⟨frame.checkpoint.journalI, contractMemory deployed frame.entry.journaled⟩

/-- What a run keeps as long as no frame is reverted away from the fork that wrote in it. -/
structure Restorable (start : MultiForkDb (ForkDb Active)) (warm : List Address)
    (deployed : U256 → U256) (s : Running (ForkDb Active)) (frames : List (OpenFrame Active)) :
    Prop where
  shared : Shared start s
  revertible : Revertible s frames
  reads : Reads deployed (contractMemory deployed s.journaled)
    (s.journaled.tracked assertionContractAddress)
  plain : ∀ entries ∈ s.journaled.journal, ∀ e ∈ entries, Plain e
  plainOther : ∀ entries ∈ (inactiveJournaled (.new warm) s).journal, ∀ e ∈ entries, Plain e
  settled : since s.journaled.journal.length
    (slotLog assertionContractAddress (inactiveJournaled (.new warm) s).journal) = []
  nested : Nested (slotLog assertionContractAddress s.journaled.journal)
    (slotLog assertionContractAddress (inactiveJournaled (.new warm) s).journal)
    (contractMemory deployed s.journaled)
    (frames.map (OpenFrame.toUndo deployed))
  entries : ∀ frame ∈ frames, Shared start frame.entry ∧
    Reads deployed (contractMemory deployed frame.entry.journaled)
      (frame.entry.journaled.tracked assertionContractAddress)

variable {warm} {frame : OpenFrame Active} {frames : List (OpenFrame Active)}

omit [DatabaseRef Active Err] in
lemma Restorable.starts_lt (h : Restorable start warm deployed s frames) :
    ∀ f ∈ frames.map (OpenFrame.toUndo deployed),
      f.start < (slotLog assertionContractAddress s.journaled.journal).length := by
  intro f hf
  obtain ⟨frame, hframe, rfl⟩ := List.mem_map.mp hf
  rw [length_slotLog]
  exact h.revertible.bounded frame hframe

omit [DatabaseRef Active Err] in
lemma Restorable.outer_le (h : Restorable start warm deployed s (frame :: frames)) :
    ∀ f ∈ frames.map (OpenFrame.toUndo deployed), f.start ≤ frame.checkpoint.journalI := by
  intro f hf
  obtain ⟨outer, houter, rfl⟩ := List.mem_map.mp hf
  exact Nat.le_of_lt ((List.pairwise_cons.mp h.revertible.nested).1 outer houter)

lemma Restorable.plainOp (h : Restorable start warm deployed s frames) (hhidden : HidesForks start)
    (hdeployed : ∀ s, Shared start s →
      ∀ key, storageRef s.db assertionContractAddress key = .ok (deployed key)) {op : ForkOp}
    (hop : op.isSwitch = false) :
    Restorable start warm deployed (op.step (.new warm) s) frames := by
  obtain ⟨entries, happends, hadds⟩ := ForkOp.step_appends (.new warm) s hop
  obtain ⟨hplain, memory, hreads, hlog⟩ :=
    h.shared.contract_step warm hhidden (hdeployed s h.shared) h.reads hop hadds
  have hmemory := hreads.eq_contractMemory
  subst hmemory
  have hdb : (op.step (.new warm) s).db = s.db := ForkOp.step_db hop
  have hother : inactiveJournaled (.new warm) (op.step (.new warm) s) =
      inactiveJournaled (.new warm) s := by
    unfold inactiveJournaled
    rw [hdb]
  refine ⟨(h.shared.step warm hhidden op).1, h.revertible.op (entriesPresent_new warm) op, hreads,
    happends.forall_entries h.plain hplain, ?_, ?_, ?_, h.entries⟩
  · rw [hother]
    exact h.plainOther
  · rw [hother, happends.length]
    exact h.settled
  · rw [hother, happends.journal, slotLog_foldl]
    rcases hlog with ⟨hnone, hsame⟩ | ⟨key, value, hchange, hwrite⟩
    · rw [hnone, hsame]
      exact h.nested
    · rw [hchange, hwrite]
      exact h.nested.write h.starts_lt key value

lemma Restorable.switchFork (h : Restorable start warm deployed s frames)
    (hhidden : HidesForks start) (id : ForkId) :
    Restorable start warm deployed (ForkOp.step (.new warm) s (.switchFork id)) frames := by
  have hshared := (h.shared.step warm hhidden (.switchFork id)).1
  have hrevertible := h.revertible.op (entriesPresent_new warm) (.switchFork id)
  obtain ⟨db, js, hrun, -, hsame⟩ := h.shared.switchFork warm id
  rw [ForkOp.step_of_switchFork hrun] at hshared hrevertible ⊢
  by_cases hid : id = s.db.activeForkId
  · rw [MultiForkDb.switchFork, if_pos hid] at hrun
    cases hrun
    exact h
  · obtain ⟨htarget, hother⟩ := switchFork_exchanges hid hrun
    have htracked := hsame assertionContractAddress (by decide)
    have hmemory : contractMemory deployed js = contractMemory deployed s.journaled := by
      unfold contractMemory
      rw [htracked]
    have hjournal : js.journal = padJournal s.journaled.journal.length
        (inactiveJournaled (.new warm) s).journal := by
      rw [htarget, updateJournaledState_journal]
    refine ⟨hshared, hrevertible, ?_, ?_, ?_, ?_, ?_, h.entries⟩
    · dsimp only
      rw [hmemory, htracked]
      exact h.reads
    · intro entries hentries e he
      rw [hjournal] at hentries
      rcases mem_padJournal hentries with hentries | rfl
      · exact h.plainOther entries hentries e he
      · exact (List.not_mem_nil he).elim
    · rw [hother]
      exact h.plain
    · rw [hother]
      dsimp only
      have hlength : (slotLog assertionContractAddress s.journaled.journal).length ≤
          js.journal.length := by
        rw [hjournal, length_padJournal, length_slotLog]
        exact Nat.le_max_left _ _
      unfold since
      rw [List.drop_eq_nil_of_le hlength]
      rfl
    · rw [hother]
      dsimp only
      rw [hjournal, slotLog_padJournal, hmemory]
      exact h.nested.symm.pad _

lemma Restorable.op (h : Restorable start warm deployed s frames) (hhidden : HidesForks start)
    (hdeployed : ∀ s, Shared start s →
      ∀ key, storageRef s.db assertionContractAddress key = .ok (deployed key)) (op : ForkOp) :
    Restorable start warm deployed (op.step (.new warm) s) frames := by
  cases hop : op.isSwitch with
  | false => exact h.plainOp hhidden hdeployed hop
  | true =>
    cases op with
    | switchFork id => exact h.switchFork hhidden id
    | _ => exact (Bool.false_ne_true hop).elim

omit [DatabaseRef Active Err] in
lemma Restorable.checkpoint (h : Restorable start warm deployed s frames) :
    Restorable start warm deployed ⟨s.db, s.journaled.checkpoint.1⟩
      (⟨s.journaled.checkpoint.2, s⟩ :: frames) := by
  have hjournal : s.journaled.checkpoint.1.journal = s.journaled.journal ++ [[]] := rfl
  refine ⟨⟨h.shared.basic, h.shared.storage, h.shared.inactive⟩, h.revertible.checkpoint, h.reads,
    JournaledState.forall_entries_checkpoint h.plain, h.plainOther, ?_, ?_, ?_⟩
  · refine since_nil_of_le ?_ h.settled
    dsimp only
    rw [hjournal, List.length_append]
    exact Nat.le_add_right _ _
  · have hlog : slotLog assertionContractAddress s.journaled.checkpoint.1.journal =
        slotLog assertionContractAddress s.journaled.journal ++ [[]] := List.map_append
    have hsettled := h.settled
    rw [← length_slotLog] at hsettled
    have hnested := h.nested.enter hsettled fun f hf => Nat.le_of_lt (h.starts_lt f hf)
    rw [length_slotLog, ← hlog] at hnested
    exact hnested
  · intro f hf
    rcases List.mem_cons.mp hf with rfl | hf
    · exact ⟨h.shared, h.reads⟩
    · exact h.entries f hf

omit [DatabaseRef Active Err] in
lemma Restorable.commit (h : Restorable start warm deployed s (frame :: frames))
    {journaled : JournaledState} (hcommit : s.journaled.checkpointCommit = some journaled) :
    Restorable start warm deployed ⟨s.db, journaled⟩ frames := by
  have hrevertible := h.revertible.commit hcommit
  obtain ⟨-, rfl⟩ := JournaledState.checkpointCommit_cases hcommit
  exact ⟨⟨h.shared.basic, h.shared.storage, h.shared.inactive⟩, hrevertible, h.reads, h.plain,
    h.plainOther, h.settled, h.nested.leave h.outer_le,
    fun f hf => h.entries f (List.mem_cons_of_mem _ hf)⟩

omit [DatabaseRef Active Err] in
/-- The innermost frame is undone where the other fork has changed nothing since. -/
lemma Restorable.revert (h : Restorable start warm deployed s (frame :: frames))
    (hother : OtherForkUnchanged (.new warm) s frame.checkpoint) {journaled : JournaledState}
    (hrevert : s.journaled.checkpointRevert frame.checkpoint = some journaled) :
    contractMemory deployed journaled = contractMemory deployed frame.entry.journaled ∧
      Restorable start warm deployed ⟨s.db, journaled⟩ frames := by
  obtain ⟨js, hrun, hcovered, -, hjournal⟩ := h.revertible.exists_revert
  rw [hrun] at hrevert
  cases hrevert
  have hreads := h.reads.checkpointRevert h.plain hrun
  obtain ⟨hmemory, hnested⟩ := h.nested.undo hother.since_eq_nil h.outer_le
  have hrestored : contractMemory deployed journaled =
      contractMemory deployed frame.entry.journaled :=
    hreads.eq_contractMemory.symm.trans hmemory
  refine ⟨hrestored, ⟨h.shared.basic, h.shared.storage, ?_⟩, h.revertible.revert hrun, ?_, ?_,
    h.plainOther, ?_, ?_, fun f hf => h.entries f (List.mem_cons_of_mem _ hf)⟩
  · intro id hid
    obtain ⟨fork, hfork, hcovers⟩ := h.shared.inactive id hid
    exact ⟨fork, hfork, fun js hjs a ha => (hcovers js hjs a ha).trans (hcovered a)⟩
  · have hafter := hreads
    rw [hreads.eq_contractMemory] at hafter
    exact hafter
  · intro entries hentries e he
    dsimp only at hentries
    rw [hjournal] at hentries
    exact h.plain entries (List.mem_of_mem_take hentries) e he
  · have hbounded := h.revertible.bounded frame (List.mem_cons_self ..)
    dsimp only
    rw [hjournal, List.length_take, Nat.min_eq_left (Nat.le_of_lt hbounded)]
    exact hother.since_eq_nil
  · have hlog : slotLog assertionContractAddress journaled.journal =
        (slotLog assertionContractAddress s.journaled.journal).take frame.checkpoint.journalI := by
      unfold slotLog
      rw [hjournal, List.map_take]
    dsimp only
    rw [hlog, hrestored]
    exact hnested

variable {it : Iteration} {contract : AssertionContract} {preTxDb postTxDb : ForkDb Active}
  {warm' : List Address}

/-- Reads of the assertion contract return the deployed values, in every state over the
installed layer. -/
lemma Shared.contract_value (h : Shared (installed it contract preTxDb postTxDb) s) (key : U256) :
    storageRef s.db assertionContractAddress key = .ok (deployedValue contract key) := by
  obtain ⟨m, hm, hhide, hvalue⟩ := installed_contract_storage it contract preTxDb postTxDb
  rw [h.storageRef_eq hm hhide, hvalue]

lemma restorable_of_run
    (h : FrameRun (OtherForkUnchanged (.new warm))
      ⟨installed it contract preTxDb postTxDb, .new warm'⟩ (.new warm) s frames) :
    Restorable (installed it contract preTxDb postTxDb) warm (deployedValue contract) s frames := by
  induction h with
  | start =>
    refine ⟨⟨rfl, rfl, fun id hid => ?_⟩, ⟨rfl, fun f hf => (List.not_mem_nil hf).elim,
      List.Pairwise.nil, entriesPresent_new warm', fun id fork js hfork hjs => ?_⟩, rfl,
      JournaledState.forall_entries_new warm', JournaledState.forall_entries_new warm, rfl, trivial,
      fun f hf => (List.not_mem_nil hf).elim⟩
    · cases id with
      | preTx => exact ⟨⟨preTxDb, none⟩, rfl, fun js hjs => (Option.some_ne_none js hjs.symm).elim⟩
      | postTx => exact (hid rfl).elim
    · cases id with
      | preTx =>
        cases hfork
        exact (Option.some_ne_none js hjs.symm).elim
      | postTx => exact (Option.some_ne_none fork hfork.symm).elim
  | op h op ih =>
    exact ih.op (installed_hidden it contract preTxDb postTxDb) (fun s hs => hs.contract_value) op
  | checkpoint h ih => exact ih.checkpoint
  | commit h hcommit ih => exact ih.commit hcommit
  | revert h hpermitted hrevert ih => exact (ih.revert hpermitted hrevert).2

def storageValue (s : Running (ForkDb Active)) (a : Address) (key : U256) : Except Err U256 :=
  match s.journaled.state.lookup a with
  | none => storageRef s.db a key
  | some account =>
    match account.storage.lookup key with
    | some slot => .ok slot.presentValue
    | none => if account.isCreated then .ok 0 else storageRef s.db a key

lemma storageValue_eq (hshared : Shared (installed it contract preTxDb postTxDb) s)
    (hreads : Reads (deployedValue contract) memory
      (s.journaled.tracked assertionContractAddress)) (key : U256) :
    storageValue s assertionContractAddress key = .ok (memory key) := by
  unfold storageValue
  cases haccount : s.journaled.state.lookup assertionContractAddress with
  | none =>
    rw [JournaledState.tracked_eq_none haccount] at hreads
    rw [show memory = deployedValue contract from hreads]
    exact hshared.contract_value key
  | some account =>
    rw [JournaledState.tracked_eq_some haccount] at hreads
    rw [← hreads.2 key]
    unfold TrackedAccount.readSlot
    dsimp only
    cases account.storage.lookup key with
    | some slot => rfl
    | none =>
      dsimp only
      rw [Account.isCreated, show account.status.created = false from hreads.1]
      exact hshared.contract_value key

/-- If no frame is ever reverted away from the fork in which it changed the assertion contract,
then a revert gives every slot of the contract the value it had when the frame's checkpoint was
taken. -/
theorem reverted_frame_restores (it : Iteration) (contract : AssertionContract)
    (preTxDb postTxDb : ForkDb Active) (warm warm' : List Address)
    (h : FrameRun (OtherForkUnchanged (.new warm))
      ⟨installed it contract preTxDb postTxDb, .new warm'⟩ (.new warm) s (frame :: frames))
    (hother : OtherForkUnchanged (.new warm) s frame.checkpoint) {journaled : JournaledState}
    (hrevert : s.journaled.checkpointRevert frame.checkpoint = some journaled) (key : U256) :
    storageValue ⟨s.db, journaled⟩ assertionContractAddress key =
      storageValue frame.entry assertionContractAddress key := by
  have hs := restorable_of_run h
  obtain ⟨hmemory, hafter⟩ := hs.revert hother hrevert
  obtain ⟨hshared, hreads⟩ := hs.entries frame (List.mem_cons_self ..)
  rw [storageValue_eq hshared hreads, storageValue_eq hafter.shared hafter.reads]
  exact congrArg Except.ok (congrFun hmemory key)

end

/-- The frame has switched back to the fork after the transaction. -/
def writtenAfter : Running (ForkDb Unit) :=
  ForkOp.step (.new []) writtenBefore (.switchFork .postTx)

/-- A write is undone in the fork it was made in. -/
theorem reverted_frame_restores_write :
    ∃ journaled, writtenAfter.journaled.checkpointRevert
        loadedContract.journaled.checkpoint.2 = some journaled ∧
      storageValue ⟨writtenAfter.db, journaled⟩ assertionContractAddress 0 = .ok 0 := by
  have hsome : (writtenAfter.journaled.checkpointRevert
      loadedContract.journaled.checkpoint.2).isSome = true := by decide
  obtain ⟨journaled, hrevert⟩ := Option.isSome_iff_exists.mp hsome
  have hother : OtherForkUnchanged (.new []) writtenAfter
      loadedContract.journaled.checkpoint.2 := by
    intro entries hentries key hadValue
    have hempty : (inactiveJournaled (.new []) writtenAfter).journal.drop
        loadedContract.journaled.checkpoint.2.journalI = [[]] := by decide
    rw [hempty, List.mem_singleton] at hentries
    rw [hentries]
    exact List.not_mem_nil
  exact ⟨journaled, hrevert, (reverted_frame_restores .buckets ⟨9, [], 0, ∅, { touched := true }⟩
    (.new ()) (.new ()) [] [] ((writtenBefore_run _).op (.switchFork .postTx)) hother hrevert
    0).trans (by decide)⟩

/-- It stays where the frame is reverted in the other fork. -/
theorem reverted_write_stays :
    ¬∀ (s : Running (ForkDb Unit)) (frame : OpenFrame Unit) (frames : List (OpenFrame Unit))
      (journaled : JournaledState),
      FrameRun (fun _ _ => True) emptyForks (.new []) s (frame :: frames) →
      s.journaled.checkpointRevert frame.checkpoint = some journaled →
      ∀ key, storageValue ⟨s.db, journaled⟩ assertionContractAddress key =
        storageValue frame.entry assertionContractAddress key := by
  intro h
  have hsome : (writtenBefore.journaled.checkpointRevert
      loadedContract.journaled.checkpoint.2).isSome = true := by decide
  obtain ⟨journaled, hrevert⟩ := Option.isSome_iff_exists.mp hsome
  have hsame := h _ _ _ journaled (writtenBefore_run _) hrevert 0
  have hstays : (writtenBefore.journaled.checkpointRevert
      loadedContract.journaled.checkpoint.2).map (fun journaled =>
        storageValue ⟨writtenBefore.db, journaled⟩ assertionContractAddress 0) =
      some (.ok 5) := by decide
  rw [hrevert, Option.map_some, hsame] at hstays
  exact absurd hstays (by decide)

end AssertionExecution
