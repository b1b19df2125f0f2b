import AssertionExecution.Library.UndoLog
import AssertionExecution.Model.Checkpoints
import AssertionExecution.Proofs.PersistentAccounts

/-!
# Open call frames across fork switches

Each fork keeps its own journal, which is truncated only while the fork is active. A switch
pads the journal of the fork it activates, so the frames that are open stay revertible.
-/

namespace AssertionExecution

open HashMap

namespace JournaledState

def CoveredBy (js js' : JournaledState) : Prop := ∀ a, Covers (js.tracked a) (js'.tracked a)

lemma CoveredBy.refl (js : JournaledState) : js.CoveredBy js := fun a => Covers.refl (js.tracked a)

lemma CoveredBy.trans {js js' js'' : JournaledState} (h : js.CoveredBy js')
    (h' : js'.CoveredBy js'') : js.CoveredBy js'' :=
  fun a => (h a).trans (h' a)

def HasAccount (js : JournaledState) (a : Address) : Prop := (js.tracked a).isSome

def HasSlot (js : JournaledState) (a : Address) (key : U256) : Prop :=
  ∃ t, js.tracked a = some t ∧ (t.slots key).isSome

/-- The accounts and slots that an entry names are tracked. -/
def Names (js : JournaledState) : JournalEntry → Prop
  | .accountWarmed a => js.HasAccount a
  | .accountDestroyed a target _ _ => js.HasAccount a ∧ js.HasAccount target
  | .accountTouched a => js.HasAccount a
  | .balanceTransfer source target _ => js.HasAccount source ∧ js.HasAccount target
  | .nonceChange a => js.HasAccount a
  | .accountCreated a => js.HasAccount a
  | .storageChanged a key _ => js.HasSlot a key
  | .storageWarmed a key => js.HasSlot a key
  | .transientStorageChange _ _ _ => True
  | .codeChange a => js.HasAccount a

def EntriesPresent (js : JournaledState) : Prop :=
  ∀ entries ∈ js.journal, ∀ e ∈ entries, js.Names e

variable {js js' : JournaledState}

lemma forall_entries_new {P : JournalEntry → Prop} (warm : List Address) :
    ∀ entries ∈ (JournaledState.new warm).journal, ∀ e ∈ entries, P e := by
  intro entries hentries e he
  rw [List.mem_singleton.mp hentries] at he
  exact (List.not_mem_nil he).elim

lemma forall_entries_checkpoint {P : JournalEntry → Prop}
    (h : ∀ entries ∈ js.journal, ∀ e ∈ entries, P e) :
    ∀ entries ∈ js.checkpoint.1.journal, ∀ e ∈ entries, P e := by
  intro entries hentries e he
  rcases List.mem_append.mp hentries with hentries | hentries
  · exact h entries hentries e he
  · rw [List.mem_singleton.mp hentries] at he
    exact (List.not_mem_nil he).elim

lemma CoveredBy.hasAccount (h : js.CoveredBy js') {a : Address} (ha : js.HasAccount a) :
    js'.HasAccount a := by
  obtain ⟨t, ht⟩ := Option.isSome_iff_exists.mp ha
  obtain ⟨t', ht', -⟩ := h a t ht
  exact Option.isSome_iff_exists.mpr ⟨t', ht'⟩

lemma CoveredBy.hasSlot (h : js.CoveredBy js') {a : Address} {key : U256}
    (ha : js.HasSlot a key) : js'.HasSlot a key := by
  obtain ⟨t, ht, hkey⟩ := ha
  obtain ⟨t', ht', hslots⟩ := h a t ht
  exact ⟨t', ht', hslots key hkey⟩

lemma CoveredBy.names (h : js.CoveredBy js') {e : JournalEntry} (he : js.Names e) :
    js'.Names e := by
  cases e with
  | accountDestroyed a target _ _ => exact ⟨h.hasAccount he.1, h.hasAccount he.2⟩
  | balanceTransfer source target _ => exact ⟨h.hasAccount he.1, h.hasAccount he.2⟩
  | storageChanged a key _ => exact h.hasSlot he
  | storageWarmed a key => exact h.hasSlot he
  | transientStorageChange _ _ _ => trivial
  | _ => exact h.hasAccount he

/-! ### Undoing -/

lemma coveredBy_setAccount {a : Address} {account account' : Account}
    (ha : js.state.lookup a = some account)
    (hslots : ∀ key, (account.storage.lookup key).isSome → (account'.storage.lookup key).isSome) :
    js.CoveredBy (js.setAccount a account') := by
  intro b t ht
  rw [tracked_setAccount]
  by_cases hb : b = a
  · subst hb
    rw [tracked_eq_some ha] at ht
    cases ht
    exact ⟨_, if_pos rfl, hslots⟩
  · rw [if_neg hb]
    exact ⟨t, ht, fun _ h => h⟩

lemma modifyAccount_covered {a : Address} (ha : js.HasAccount a) {f : Account → Account}
    (hf : ∀ account key, (account.storage.lookup key).isSome →
      ((f account).storage.lookup key).isSome) :
    ∃ js', js.modifyAccount a f = some js' ∧ js.CoveredBy js' := by
  obtain ⟨t, ht⟩ := Option.isSome_iff_exists.mp ha
  obtain ⟨account, haccount, -⟩ := Option.map_eq_some_iff.mp ht
  refine ⟨_, by rw [modifyAccount, haccount, Option.map_some], ?_⟩
  exact coveredBy_setAccount haccount (hf account)

lemma modifySlot_covered {a : Address} {key : U256} (ha : js.HasSlot a key)
    (f : EvmStorageSlot → EvmStorageSlot) :
    ∃ js', js.modifySlot a key f = some js' ∧ js.CoveredBy js' := by
  obtain ⟨t, ht, hkey⟩ := ha
  obtain ⟨account, haccount, rfl⟩ := Option.map_eq_some_iff.mp ht
  obtain ⟨slot, hslot⟩ := Option.isSome_iff_exists.mp hkey
  dsimp only at hslot
  refine ⟨_, by rw [modifySlot, haccount]; dsimp only; rw [hslot, Option.map_some], ?_⟩
  apply coveredBy_setAccount haccount
  intro key' hkey'
  rw [lookup_insert_ite]
  split_ifs
  · rfl
  · exact hkey'

lemma undo_covered {e : JournalEntry} (he : js.Names e) :
    ∃ js', js.undo e = some js' ∧ js.CoveredBy js' := by
  cases e with
  | accountWarmed a => exact modifyAccount_covered he fun _ _ h => h
  | accountTouched a =>
    simp only [undo]
    split_ifs
    · exact ⟨js, rfl, CoveredBy.refl js⟩
    · exact modifyAccount_covered he fun _ _ h => h
  | accountDestroyed a target wasDestroyed hadBalance =>
    obtain ⟨js₁, hfirst, hcovered⟩ := modifyAccount_covered (f := fun account =>
      { account with
        status := { account.status with selfDestructed := wasDestroyed }
        info := { account.info with balance := account.info.balance + hadBalance } })
      he.1 fun _ _ h => h
    simp only [undo, hfirst, Option.bind_some]
    split_ifs
    · exact ⟨js₁, rfl, hcovered⟩
    · obtain ⟨js₂, hsecond, hcovered'⟩ := modifyAccount_covered (hcovered.hasAccount he.2)
        (f := fun account => { account with
          info := { account.info with balance := account.info.balance - hadBalance } })
        fun _ _ h => h
      exact ⟨js₂, hsecond, hcovered.trans hcovered'⟩
  | balanceTransfer source target balance =>
    obtain ⟨js₁, hfirst, hcovered⟩ := modifyAccount_covered (f := fun account =>
      { account with info := { account.info with balance := account.info.balance + balance } })
      he.1 fun _ _ h => h
    obtain ⟨js₂, hsecond, hcovered'⟩ := modifyAccount_covered (hcovered.hasAccount he.2)
      (f := fun account =>
        { account with info := { account.info with balance := account.info.balance - balance } })
      fun _ _ h => h
    simp only [undo, hfirst, Option.bind_some]
    exact ⟨js₂, hsecond, hcovered.trans hcovered'⟩
  | nonceChange a => exact modifyAccount_covered he fun _ _ h => h
  | accountCreated a =>
    apply modifyAccount_covered he
    intro account key hkey
    rwa [lookup_mapValues, Option.isSome_map]
  | storageChanged a key hadValue => exact modifySlot_covered he _
  | storageWarmed a key => exact modifySlot_covered he _
  | transientStorageChange a key hadValue => exact ⟨_, rfl, CoveredBy.refl js⟩
  | codeChange a => exact modifyAccount_covered he fun _ _ h => h

/-- Steps that each need something which tracking keeps succeed one after the other. -/
lemma foldlM_covered {α : Type} {step : JournaledState → α → Option JournaledState}
    {P : JournaledState → α → Prop}
    (hkeep : ∀ {js js' : JournaledState} {x : α}, js.CoveredBy js' → P js x → P js' x)
    (hstep : ∀ {js : JournaledState} {x : α}, P js x →
      ∃ js', step js x = some js' ∧ js.CoveredBy js') {l : List α} (h : ∀ x ∈ l, P js x) :
    ∃ js', l.foldlM step js = some js' ∧ js.CoveredBy js' := by
  induction l generalizing js with
  | nil => exact ⟨js, rfl, CoveredBy.refl js⟩
  | cons x l ih =>
    obtain ⟨js₁, hfirst, hcovered⟩ := hstep (h x (List.mem_cons_self ..))
    obtain ⟨js₂, hrest, hcovered'⟩ := ih fun y hy =>
      hkeep hcovered (h y (List.mem_cons_of_mem _ hy))
    refine ⟨js₂, ?_, hcovered.trans hcovered'⟩
    rw [List.foldlM_cons, hfirst]
    exact hrest

lemma journalRevert_covered {entries : List JournalEntry} (h : ∀ e ∈ entries, js.Names e) :
    ∃ js', js.journalRevert entries = some js' ∧ js.CoveredBy js' := by
  have hnames : ∀ e ∈ entries.reverse, js.Names e := fun e he => h e (List.mem_reverse.mp he)
  unfold journalRevert
  apply foldlM_covered (P := Names) (fun hcovered => hcovered.names) _ hnames
  exact undo_covered

lemma checkpointCommit_cases (h : js.checkpointCommit = some js') :
    js.depth ≠ 0 ∧ js' = { js with depth := js.depth - 1 } := by
  unfold checkpointCommit at h
  split_ifs at h with hdepth
  cases h
  exact ⟨hdepth, rfl⟩

lemma checkpointRevert_cases {checkpoint : JournalCheckpoint}
    (h : js.checkpointRevert checkpoint = some js') :
    js.depth ≠ 0 ∧ checkpoint.journalI ≤ js.journal.length ∧
      ∃ undone, (js.journal.drop checkpoint.journalI).reverse.foldlM journalRevert js =
          some undone ∧
        js' = { undone with
          depth := js.depth - 1
          logs := js.logs.take checkpoint.logI
          journal := js.journal.take checkpoint.journalI } := by
  unfold checkpointRevert at h
  split_ifs at h with hfails
  rw [not_or, Nat.not_lt] at hfails
  obtain ⟨undone, hundone, rfl⟩ := Option.map_eq_some_iff.mp h
  exact ⟨hfails.1, hfails.2, undone, hundone, rfl⟩

lemma checkpointRevert_covered {checkpoint : JournalCheckpoint} (hdepth : js.depth ≠ 0)
    (hbounded : checkpoint.journalI ≤ js.journal.length) (hpresent : js.EntriesPresent) :
    ∃ js', js.checkpointRevert checkpoint = some js' ∧ js.CoveredBy js' ∧
      js'.depth = js.depth - 1 ∧ js'.journal = js.journal.take checkpoint.journalI := by
  have hnames : ∀ entries ∈ (js.journal.drop checkpoint.journalI).reverse,
      ∀ e ∈ entries, js.Names e := fun entries hentries =>
    hpresent entries (List.mem_of_mem_drop (List.mem_reverse.mp hentries))
  obtain ⟨undone, hundone, hcovered⟩ := foldlM_covered
    (P := fun js entries => ∀ e ∈ entries, js.Names e)
    (fun hcovered hnames e he => hcovered.names (hnames e he)) journalRevert_covered hnames
  refine ⟨{ undone with
    depth := js.depth - 1
    logs := js.logs.take checkpoint.logI
    journal := js.journal.take checkpoint.journalI }, ?_, hcovered, rfl, rfl⟩
  rw [checkpointRevert, if_neg (by omega), hundone, Option.map_some]

lemma EntriesPresent.take (h : js.EntriesPresent) {n : Nat} (hcovered : js.CoveredBy js')
    (hjournal : js'.journal = js.journal.take n) : js'.EntriesPresent := by
  intro entries hentries e he
  rw [hjournal] at hentries
  exact hcovered.names (h entries (List.mem_of_mem_take hentries) e he)

/-! ### What an operation adds -/

/-- The journal gains entries whose accounts and slots are tracked. -/
structure Appends (js js' : JournaledState) (entries : List JournalEntry) : Prop where
  journal : js'.journal = entries.foldl (fun journal e => AssertionExecution.pushLast e journal)
    js.journal
  depth : js'.depth = js.depth
  covered : js.CoveredBy js'
  names : ∀ e ∈ entries, js'.Names e

lemma Appends.refl (js : JournaledState) : Appends js js [] :=
  ⟨rfl, rfl, CoveredBy.refl js, fun _ h => (List.not_mem_nil h).elim⟩

lemma Appends.trans {js'' : JournaledState} {entries entries' : List JournalEntry}
    (h : Appends js js' entries) (h' : Appends js' js'' entries') :
    Appends js js'' (entries ++ entries') where
  journal := by rw [h'.journal, h.journal, List.foldl_append]
  depth := h'.depth.trans h.depth
  covered := h.covered.trans h'.covered
  names e he := by
    rcases List.mem_append.mp he with he | he
    · exact h'.covered.names (h.names e he)
    · exact h'.names e he

lemma Appends.push (h : Appends js js' []) {e : JournalEntry} (he : js'.Names e) :
    Appends js (js'.push e) [e] where
  journal := congrArg (AssertionExecution.pushLast e) h.journal
  depth := h.depth
  covered := h.covered
  names e' he' := by
    obtain rfl := List.mem_singleton.mp he'
    have hsame : js'.CoveredBy (js'.push e') := fun a => Covers.refl (js'.tracked a)
    exact hsame.names he

lemma Appends.setAccount {a : Address} {account account' : Account}
    (ha : js.state.lookup a = some account)
    (hslots : ∀ key, (account.storage.lookup key).isSome → (account'.storage.lookup key).isSome) :
    Appends js (js.setAccount a account') [] :=
  ⟨rfl, rfl, coveredBy_setAccount ha hslots, fun _ h => (List.not_mem_nil h).elim⟩

lemma hasAccount_setAccount (js : JournaledState) (a : Address) (account : Account) :
    (js.setAccount a account).HasAccount a := by
  rw [HasAccount, tracked_setAccount, if_pos rfl]
  rfl

lemma hasSlot_setAccount (js : JournaledState) (a : Address) {account : Account} {key : U256}
    (h : (account.storage.lookup key).isSome) : (js.setAccount a account).HasSlot a key := by
  refine ⟨⟨account.info, account.status, fun key => account.storage.lookup key⟩, ?_, h⟩
  rw [tracked_setAccount, if_pos rfl]

lemma isSome_lookup_insert (storage : EvmStorage) (key key' : U256) (slot : EvmStorageSlot)
    (h : (storage.lookup key').isSome) : ((storage.insert key slot).lookup key').isSome := by
  rw [lookup_insert_ite]
  split_ifs
  · rfl
  · exact h

variable {D E : Type} [DatabaseRef D E] {db : D} {a : Address}

lemma loadAccount_appends (h : js.loadAccount db a = .ok js') :
    Appends js js' [] ∨ Appends js js' [.accountWarmed a] := by
  unfold loadAccount at h
  cases hlookup : js.state.lookup a with
  | some account =>
    rw [hlookup] at h
    have happends : Appends js (js.setAccount a
        { account with status := { account.status with cold := false } }) [] :=
      Appends.setAccount hlookup fun _ h => h
    dsimp only at h
    split_ifs at h
    · cases h
      exact Or.inr (happends.push (hasAccount_setAccount _ _ _))
    · cases h
      exact Or.inl happends
  | none =>
    rw [hlookup] at h
    dsimp only at h
    split at h
    · cases h
    · rename_i info hbasic
      have happends : ∀ account, Appends js (js.setAccount a account) [] := by
        intro account
        refine ⟨rfl, rfl, fun b t ht => ?_, fun _ h => (List.not_mem_nil h).elim⟩
        have hb : b ≠ a := by
          rintro rfl
          rw [tracked_eq_none hlookup] at ht
          exact Option.some_ne_none t ht.symm
        rw [tracked_setAccount, if_neg hb]
        exact ⟨t, ht, fun _ h => h⟩
      split_ifs at h
      · cases h
        exact Or.inl (happends _)
      · cases h
        exact Or.inr ((happends _).push (hasAccount_setAccount _ _ _))

lemma sload_appends {key value : U256} (h : js.sload db a key = .ok (value, js')) :
    ∃ warmed, Appends js js' warmed ∧ (warmed = [] ∨ warmed = [.storageWarmed a key]) := by
  unfold sload at h
  cases hlookup : js.state.lookup a with
  | none =>
    rw [hlookup] at h
    cases h
  | some account =>
    rw [hlookup] at h
    have happends : ∀ slot, Appends js (js.setAccount a
        { account with storage := account.storage.insert key slot }) [] :=
      fun slot => Appends.setAccount hlookup fun key' => isSome_lookup_insert _ _ _ _
    have hslot : ∀ slot, (js.setAccount a
        { account with storage := account.storage.insert key slot }).HasSlot a key := by
      intro slot
      apply hasSlot_setAccount
      rw [AList.lookup_insert]
      rfl
    dsimp only at h
    split at h
    · split_ifs at h
      · cases h
        exact ⟨_, (happends _).push (hslot _), Or.inr rfl⟩
      · cases h
        exact ⟨_, happends _, Or.inl rfl⟩
    · split at h
      · cases h
      · cases h
        exact ⟨_, (happends _).push (hslot _), Or.inr rfl⟩

/-- A write reads the slot, and logs the value it replaces if that is another one. -/
lemma sstore_appends {key value : U256} (h : js.sstore db a key value = .ok js') :
    ∃ present js₁, js.sload db a key = .ok (present, js₁) ∧
      (present = value ∧ js' = js₁ ∨
        present ≠ value ∧ Appends js₁ js' [.storageChanged a key present]) := by
  unfold sstore at h
  cases hload : js.sload db a key with
  | error e =>
    rw [hload] at h
    cases h
  | ok r =>
    obtain ⟨present, js₁⟩ := r
    refine ⟨present, js₁, rfl, ?_⟩
    rw [hload] at h
    dsimp only at h
    cases hlookup : js₁.state.lookup a with
    | none =>
      rw [hlookup] at h
      cases h
    | some account =>
      rw [hlookup] at h
      dsimp only at h
      split at h
      · cases h
      · by_cases hvalue : present = value
        · rw [if_pos hvalue] at h
          cases h
          exact Or.inl ⟨hvalue, rfl⟩
        · rw [if_neg hvalue] at h
          cases h
          refine Or.inr ⟨hvalue, rfl, rfl, ?_, ?_⟩
          · exact coveredBy_setAccount hlookup
              fun key' => isSome_lookup_insert _ _ _ _
          · intro e he
            obtain rfl := List.mem_singleton.mp he
            apply hasSlot_setAccount
            rw [AList.lookup_insert]
            rfl

lemma setBalanceNonce_appends {balance : U256} {nonce : Nat}
    (h : js.setBalanceNonce (E := E) a balance nonce = .ok js') : Appends js js' [] := by
  unfold setBalanceNonce at h
  cases hlookup : js.state.lookup a with
  | none =>
    rw [hlookup] at h
    cases h
  | some account =>
    rw [hlookup] at h
    cases h
    exact Appends.setAccount hlookup fun _ h => h

end JournaledState

/-! ### Runs with call frames -/

section

variable {Active Err : Type} [DatabaseRef Active Err]

/-- The entries that an operation adds to the journal of the active fork. -/
def ForkOp.Adds (init : JournaledState) (s : Running (ForkDb Active))
    (entries : List JournalEntry) : ForkOp → Prop
  | switchFork _ => entries = []
  | load a => entries = [] ∨ entries = [.accountWarmed a]
  | sload a key => entries = [] ∨ entries = [.storageWarmed a key]
  | sstore a key value =>
    (step? init s (sstore a key value)).isSome = false ∧ entries = [] ∨
    (step? init s (sstore a key value)).isSome = true ∧
      ∃ warmed present js, (warmed = [] ∨ warmed = [.storageWarmed a key]) ∧
        s.journaled.sload s.db a key = .ok (present, js) ∧
        entries = warmed ++ if present = value then [] else [.storageChanged a key present]
  | setBalanceNonce _ _ _ => entries = []

lemma ForkOp.step_appends (init : JournaledState) (s : Running (ForkDb Active)) {op : ForkOp}
    (hop : op.isSwitch = false) :
    ∃ entries, JournaledState.Appends s.journaled (op.step init s).journaled entries ∧
      op.Adds init s entries := by
  have hrefl := JournaledState.Appends.refl s.journaled
  cases op with
  | switchFork id => exact (Bool.false_ne_true hop.symm).elim
  | load a =>
    simp only [step, step?]
    cases hrun : s.journaled.loadAccount s.db a with
    | error e => exact ⟨[], hrefl, Or.inl rfl⟩
    | ok js =>
      rcases JournaledState.loadAccount_appends hrun with h | h
      · exact ⟨_, h, Or.inl rfl⟩
      · exact ⟨_, h, Or.inr rfl⟩
  | sload a key =>
    simp only [step, step?]
    cases hrun : s.journaled.sload s.db a key with
    | error e => exact ⟨[], hrefl, Or.inl rfl⟩
    | ok r =>
      exact JournaledState.sload_appends hrun
  | sstore a key value =>
    simp only [step, step?, Adds]
    cases hrun : s.journaled.sstore s.db a key value with
    | error e => exact ⟨[], hrefl, Or.inl ⟨rfl, rfl⟩⟩
    | ok js =>
      obtain ⟨present, js₁, hload, hwrite⟩ := JournaledState.sstore_appends hrun
      obtain ⟨warmed, hread, hwarmed⟩ := JournaledState.sload_appends hload
      rcases hwrite with ⟨hvalue, rfl⟩ | ⟨hvalue, hwrite⟩
      · refine ⟨_, hread, Or.inr ⟨rfl, warmed, present, js, hwarmed, hload, ?_⟩⟩
        rw [if_pos hvalue, List.append_nil]
      · refine ⟨_, hread.trans hwrite, Or.inr ⟨rfl, warmed, present, js₁, hwarmed, hload, ?_⟩⟩
        rw [if_neg hvalue]
  | setBalanceNonce a balance nonce =>
    simp only [step, step?]
    cases hrun : s.journaled.setBalanceNonce (E := Err) a balance nonce with
    | error e => exact ⟨[], hrefl, rfl⟩
    | ok js => exact ⟨_, JournaledState.setBalanceNonce_appends hrun, rfl⟩

/-- A call frame that is open: its checkpoint, and the state it was taken in. -/
structure OpenFrame (Active : Type) where
  checkpoint : JournalCheckpoint
  entry : Running (ForkDb Active)

/-- Runs of operations in nested call frames, with the frames that are open, the innermost
first. A frame may be reverted where the state and its checkpoint permit it. -/
inductive FrameRun (permitted : Running (ForkDb Active) → JournalCheckpoint → Prop)
    (start : Running (ForkDb Active)) (init : JournaledState) :
    Running (ForkDb Active) → List (OpenFrame Active) → Prop where
  | start : FrameRun permitted start init start []
  | op {s : Running (ForkDb Active)} {frames : List (OpenFrame Active)}
      (h : FrameRun permitted start init s frames) (op : ForkOp) :
      FrameRun permitted start init (op.step init s) frames
  | checkpoint {s : Running (ForkDb Active)} {frames : List (OpenFrame Active)}
      (h : FrameRun permitted start init s frames) :
      FrameRun permitted start init ⟨s.db, s.journaled.checkpoint.1⟩
        (⟨s.journaled.checkpoint.2, s⟩ :: frames)
  | commit {s : Running (ForkDb Active)} {frame : OpenFrame Active}
      {frames : List (OpenFrame Active)} (h : FrameRun permitted start init s (frame :: frames))
      {journaled : JournaledState} (hcommit : s.journaled.checkpointCommit = some journaled) :
      FrameRun permitted start init ⟨s.db, journaled⟩ frames
  | revert {s : Running (ForkDb Active)} {frame : OpenFrame Active}
      {frames : List (OpenFrame Active)} (h : FrameRun permitted start init s (frame :: frames))
      (hpermitted : permitted s frame.checkpoint) {journaled : JournaledState}
      (hrevert : s.journaled.checkpointRevert frame.checkpoint = some journaled) :
      FrameRun permitted start init ⟨s.db, journaled⟩ frames

omit [DatabaseRef Active Err] in
/-- A switch does nothing, or hands out the target's state with the persistent accounts merged
and keeps the active one for the fork it leaves. -/
lemma switchFork_cases {s : Running (ForkDb Active)} {id : ForkId} {init js : JournaledState}
    {db : MultiForkDb (ForkDb Active)}
    (h : s.db.switchFork id s.journaled init = .ok (db, js)) :
    ⟨db, js⟩ = s ∨ ∃ fork, s.db.inactiveForks.lookup id = some fork ∧
      js = updateJournaledState defaultPersistentAccounts s.journaled
        (fork.journaledState.getD init) ∧
      ∀ id' fork', db.inactiveForks.lookup id' = some fork' →
        fork'.journaledState = some s.journaled ∨ s.db.inactiveForks.lookup id' = some fork' := by
  unfold MultiForkDb.switchFork at h
  split at h
  · cases h
    exact Or.inl rfl
  · split at h
    · cases h
    · rename_i fork hfork
      cases h
      refine Or.inr ⟨fork, hfork, rfl, fun id' fork' hfork' => ?_⟩
      dsimp only at hfork'
      rw [lookup_insert_ite] at hfork'
      split_ifs at hfork'
      · cases hfork'
        exact Or.inl rfl
      · by_cases hid : id' = id
        · rw [hid, AList.lookup_erase] at hfork'
          exact (Option.some_ne_none _ hfork'.symm).elim
        · rw [AList.lookup_erase_ne hid] at hfork'
          exact Or.inr hfork'

lemma coveredBy_updateJournaledState (active target : JournaledState) :
    target.CoveredBy (updateJournaledState defaultPersistentAccounts active target) := by
  intro a
  by_cases ha : a ∈ defaultPersistentAccounts
  · rw [tracked_updateJournaledState ha]
    intro t ht
    rw [ht]
    cases active.tracked a with
    | none => exact ⟨t, rfl, fun _ h => h⟩
    | some u =>
      refine ⟨_, rfl, fun key hkey => ?_⟩
      rw [Option.isSome_or, hkey, Bool.or_true]
  · unfold JournaledState.tracked
    rw [lookup_updateJournaledState active target ha]
    exact Covers.refl _

lemma updateJournaledState_journal (accounts : List Address) (active target : JournaledState) :
    (updateJournaledState accounts active target).journal =
      padJournal active.journal.length target.journal := by
  have hmerge := view_foldl_mergeJournaledStateData JournaledState.journal (fun _ _ => rfl)
    accounts active target
  unfold updateJournaledState
  dsimp only
  rw [hmerge]

lemma mem_padJournal {length : Nat} {journal : List (List JournalEntry)}
    {entries : List JournalEntry} (h : entries ∈ padJournal length journal) :
    entries ∈ journal ∨ entries = [] := by
  rcases List.mem_append.mp h with h | h
  · exact Or.inl h
  · exact Or.inr (List.eq_of_mem_replicate h)

lemma length_padJournal (length : Nat) (journal : List (List JournalEntry)) :
    (padJournal length journal).length = max length journal.length := by
  unfold padJournal
  rw [List.length_append, List.length_replicate]
  omega

/-- The last list of a journal is the last list of a log. -/
lemma pushLast_eq (e : JournalEntry) (journal : List (List JournalEntry)) :
    pushLast e journal = UndoLog.pushLast e journal := by
  fun_induction pushLast e journal with
  | case1 => rfl
  | case2 l => rfl
  | case3 l ls hne ih =>
    cases ls with
    | nil => exact (hne rfl).elim
    | cons l' ls => rw [ih, UndoLog.pushLast_cons]

namespace JournaledState

variable {js js' : JournaledState} {entries : List JournalEntry}

lemma Appends.length (h : Appends js js' entries) : js'.journal.length = js.journal.length := by
  have hfold : ∀ journal : List (List JournalEntry), (entries.foldl
      (fun journal e => AssertionExecution.pushLast e journal) journal).length =
      journal.length := by
    clear h
    induction entries with
    | nil => exact fun _ => rfl
    | cons e entries ih =>
      intro journal
      rw [List.foldl_cons, ih, pushLast_eq, UndoLog.length_pushLast]
  rw [h.journal, hfold]

lemma Appends.forall_entries {P : JournalEntry → Prop} (h : Appends js js' entries)
    (hjournal : ∀ l ∈ js.journal, ∀ e ∈ l, P e) (hentries : ∀ e ∈ entries, P e) :
    ∀ l ∈ js'.journal, ∀ e ∈ l, P e := by
  rw [h.journal]
  generalize js.journal = journal at hjournal
  clear h
  induction entries generalizing journal with
  | nil => exact hjournal
  | cons e entries ih =>
    apply ih (fun e' he' => hentries e' (List.mem_cons_of_mem _ he'))
    intro l hl e' he'
    dsimp only at hl
    rw [pushLast_eq] at hl
    rcases UndoLog.mem_pushLast hl with hl | ⟨l', hl', rfl⟩
    · exact hjournal l hl e' he'
    · rcases List.mem_append.mp he' with he' | he'
      · exact hjournal l' hl' e' he'
      · rw [List.mem_singleton.mp he']
        exact hentries e (List.mem_cons_self ..)

lemma Appends.entriesPresent (h : Appends js js' entries) (hpresent : js.EntriesPresent) :
    js'.EntriesPresent :=
  h.forall_entries (fun l hl e he => h.covered.names (hpresent l hl e he)) h.names

end JournaledState

/-- What every run with call frames keeps. -/
structure Revertible (s : Running (ForkDb Active)) (frames : List (OpenFrame Active)) : Prop where
  depth : s.journaled.depth = frames.length
  bounded : ∀ frame ∈ frames, frame.checkpoint.journalI < s.journaled.journal.length
  nested : frames.Pairwise fun frame outer => outer.checkpoint.journalI < frame.checkpoint.journalI
  present : s.journaled.EntriesPresent
  inactive : ∀ id fork js, s.db.inactiveForks.lookup id = some fork →
    fork.journaledState = some js → js.EntriesPresent

variable {permitted : Running (ForkDb Active) → JournalCheckpoint → Prop}
  {start s : Running (ForkDb Active)} {init : JournaledState} {frame : OpenFrame Active}
  {frames : List (OpenFrame Active)}

lemma Revertible.op (h : Revertible s frames) (hinit : init.EntriesPresent) (op : ForkOp) :
    Revertible (op.step init s) frames := by
  cases hop : op.isSwitch with
  | false =>
    obtain ⟨entries, happends, -⟩ := ForkOp.step_appends init s hop
    refine ⟨?_, ?_, h.nested, happends.entriesPresent h.present, ?_⟩
    · rw [happends.depth, h.depth]
    · rw [happends.length]
      exact h.bounded
    · rw [ForkOp.step_db hop]
      exact h.inactive
  | true =>
    cases op with
    | switchFork id =>
      simp only [ForkOp.step, ForkOp.step?]
      cases hrun : s.db.switchFork id s.journaled init with
      | error e => exact h
      | ok r =>
        obtain ⟨db, js⟩ := r
        change Revertible ⟨db, js⟩ frames
        rcases switchFork_cases hrun with hsame | ⟨fork, hfork, htarget, hinactive⟩
        · rw [hsame]
          exact h
        · have htargetPresent : (fork.journaledState.getD init).EntriesPresent := by
            cases hjs : fork.journaledState with
            | none => exact hinit
            | some js => exact h.inactive id fork js hfork hjs
          refine ⟨?_, ?_, h.nested, ?_, ?_⟩
          · rw [htarget]
            exact h.depth
          · intro frame hframe
            have hlt := h.bounded frame hframe
            rw [htarget, updateJournaledState_journal, length_padJournal]
            omega
          · intro entries hentries e he
            rw [htarget] at hentries ⊢
            rw [updateJournaledState_journal] at hentries
            rcases mem_padJournal hentries with hentries | rfl
            · exact (coveredBy_updateJournaledState _ _).names
                (htargetPresent entries hentries e he)
            · exact (List.not_mem_nil he).elim
          · intro id' fork' js hfork' hjs
            rcases hinactive id' fork' hfork' with hleft | hkept
            · rw [hleft] at hjs
              cases hjs
              exact h.present
            · exact h.inactive id' fork' js hkept hjs
    | _ => exact (Bool.false_ne_true hop).elim

omit [DatabaseRef Active Err] in
lemma Revertible.checkpoint (h : Revertible s frames) :
    Revertible ⟨s.db, s.journaled.checkpoint.1⟩ (⟨s.journaled.checkpoint.2, s⟩ :: frames) where
  depth := congrArg (· + 1) h.depth
  bounded frame hframe := by
    have hlength : s.journaled.checkpoint.1.journal.length = s.journaled.journal.length + 1 :=
      List.length_append
    rw [hlength]
    rcases List.mem_cons.mp hframe with rfl | hframe
    · exact Nat.lt_succ_self _
    · exact Nat.lt_succ_of_lt (h.bounded frame hframe)
  nested := List.pairwise_cons.mpr ⟨h.bounded, h.nested⟩
  present := JournaledState.forall_entries_checkpoint h.present
  inactive := h.inactive

omit [DatabaseRef Active Err] in
lemma Revertible.commit (h : Revertible s (frame :: frames)) {journaled : JournaledState}
    (hcommit : s.journaled.checkpointCommit = some journaled) :
    Revertible ⟨s.db, journaled⟩ frames := by
  have hdepth : s.journaled.depth = frames.length + 1 := h.depth
  obtain ⟨-, rfl⟩ := JournaledState.checkpointCommit_cases hcommit
  refine ⟨?_, ?_, (List.pairwise_cons.mp h.nested).2, h.present, h.inactive⟩
  · exact Nat.sub_eq_of_eq_add hdepth
  · exact fun f hf => h.bounded f (List.mem_cons_of_mem _ hf)

omit [DatabaseRef Active Err] in
lemma Revertible.exists_revert (h : Revertible s (frame :: frames)) :
    ∃ js, s.journaled.checkpointRevert frame.checkpoint = some js ∧
      s.journaled.CoveredBy js ∧ js.depth = s.journaled.depth - 1 ∧
      js.journal = s.journaled.journal.take frame.checkpoint.journalI := by
  have hdepth : s.journaled.depth = frames.length + 1 := h.depth
  exact JournaledState.checkpointRevert_covered (by omega)
    (Nat.le_of_lt (h.bounded frame (List.mem_cons_self ..))) h.present

omit [DatabaseRef Active Err] in
lemma Revertible.revert (h : Revertible s (frame :: frames)) {journaled : JournaledState}
    (hrevert : s.journaled.checkpointRevert frame.checkpoint = some journaled) :
    Revertible ⟨s.db, journaled⟩ frames := by
  obtain ⟨js, hrun, hcovered, hdepth, hjournal⟩ := h.exists_revert
  rw [hrun] at hrevert
  cases hrevert
  obtain ⟨houter, hnested⟩ := List.pairwise_cons.mp h.nested
  refine ⟨?_, ?_, hnested, h.present.take hcovered hjournal, h.inactive⟩
  · have hopen : s.journaled.depth = frames.length + 1 := h.depth
    dsimp only
    omega
  · intro f hf
    have hlt := houter f hf
    have hbound := h.bounded frame (List.mem_cons_self ..)
    dsimp only
    rw [hjournal, List.length_take]
    omega

lemma revertible_of_run (hstart : Revertible start []) (hinit : init.EntriesPresent)
    (h : FrameRun permitted start init s frames) : Revertible s frames := by
  induction h with
  | start => exact hstart
  | op h op ih => exact ih.op hinit op
  | checkpoint h ih => exact ih.checkpoint
  | commit h hcommit ih => exact ih.commit hcommit
  | revert h hpermitted hrevert ih => exact ih.revert hrevert

/-- In every state of a run of operations in nested call frames, the checkpoints of the open
frames lie within the active journal, the depth counts the open frames, the entries of the
journal name accounts and slots that are there, and the innermost frame can be reverted. -/
theorem open_frames_revertible (it : Iteration) (contract : AssertionContract)
    (preTxDb postTxDb : ForkDb Active) {init journaled : JournaledState}
    (hinit : init.EntriesPresent) (hpresent : journaled.EntriesPresent)
    (hdepth : journaled.depth = 0)
    (h : FrameRun (fun _ _ => True) ⟨installed it contract preTxDb postTxDb, journaled⟩ init s
      frames) :
    (∀ frame ∈ frames, frame.checkpoint.journalI ≤ s.journaled.journal.length) ∧
    s.journaled.depth = frames.length ∧
    s.journaled.EntriesPresent ∧
    ∀ frame outer, frames = frame :: outer →
      ∃ js, s.journaled.checkpointRevert frame.checkpoint = some js := by
  have hstart : Revertible (⟨installed it contract preTxDb postTxDb, journaled⟩ :
      Running (ForkDb Active)) [] := by
    refine ⟨hdepth, fun frame hframe => (List.not_mem_nil hframe).elim, List.Pairwise.nil,
      hpresent, fun id fork js hfork hjs => ?_⟩
    rw [(installed_forks it contract preTxDb postTxDb).2.2] at hfork
    cases id with
    | preTx =>
      cases hfork
      exact (Option.some_ne_none js hjs.symm).elim
    | postTx => exact (Option.some_ne_none fork hfork.symm).elim
  have hs := revertible_of_run hstart hinit h
  refine ⟨fun frame hframe => Nat.le_of_lt (hs.bounded frame hframe), hs.depth, hs.present, ?_⟩
  rintro frame outer rfl
  obtain ⟨js, hrun, -⟩ := hs.exists_revert
  exact ⟨js, hrun⟩

end

lemma entriesPresent_new (warm : List Address) : (JournaledState.new warm).EntriesPresent :=
  JournaledState.forall_entries_new warm

def emptyForks : Running (ForkDb Unit) :=
  ⟨installed .buckets ⟨9, [], 0, ∅, { touched := true }⟩ (.new ()) (.new ()), .new []⟩

def loadedContract : Running (ForkDb Unit) :=
  ForkOp.step (.new []) emptyForks (.load assertionContractAddress)

/-- A frame has written to a slot of the contract and switched to the fork before the
transaction. -/
def writtenBefore : Running (ForkDb Unit) :=
  ForkOp.runAll (.new []) ⟨loadedContract.db, loadedContract.journaled.checkpoint.1⟩
    [.sstore assertionContractAddress 0 5, .switchFork .preTx]

lemma writtenBefore_run (permitted : Running (ForkDb Unit) → JournalCheckpoint → Prop) :
    FrameRun permitted emptyForks (.new []) writtenBefore
      [⟨loadedContract.journaled.checkpoint.2, loadedContract⟩] :=
  (((FrameRun.start.op (.load assertionContractAddress)).checkpoint).op
    (.sstore assertionContractAddress 0 5)).op (.switchFork .preTx)

/-- A frame that is entered after the transaction and writes there can be reverted before it,
where it has written too. -/
theorem open_frames_revertible_switched :
    ∃ js, (ForkOp.step (.new []) writtenBefore
      (.sstore assertionContractAddress 0 6)).journaled.checkpointRevert
        loadedContract.journaled.checkpoint.2 = some js :=
  (open_frames_revertible .buckets ⟨9, [], 0, ∅, { touched := true }⟩ (.new ()) (.new ())
    (entriesPresent_new []) (entriesPresent_new []) rfl
    ((writtenBefore_run _).op (.sstore assertionContractAddress 0 6))).2.2.2 _ _ rfl

end AssertionExecution
