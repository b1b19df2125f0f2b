import Mathlib.Data.List.Destutter
import AssertionExecution.Model.CallTree
import AssertionExecution.Model.TransactionViews
import AssertionExecution.Proofs.RevertedFrames
import AssertionExecution.Proofs.TriggerSelection

/-!
# The views of a transaction and its reverted frames

Logs and storage changes are read from the journaled state, which forgets reverted frames.
Calls are read from the tracer, which does not.
-/

namespace AssertionExecution

open HashMap UndoLog CallTracer

/-! ### What is in a call tree -/

namespace CallTree

def calls : CallTree → List CallInputs
  | done => []
  | load _ rest => rest.calls
  | sload _ _ rest => rest.calls
  | sstore _ _ _ rest => rest.calls
  | log _ rest => rest.calls
  | frame inputs body _ rest => inputs.toList ++ body.calls ++ rest.calls

/-- The calls that are neither reverted nor inside a reverted frame. -/
def liveCalls : CallTree → List CallInputs
  | done => []
  | load _ rest => rest.liveCalls
  | sload _ _ rest => rest.liveCalls
  | sstore _ _ _ rest => rest.liveCalls
  | log _ rest => rest.liveCalls
  | frame inputs body reverts rest =>
    (if reverts then [] else inputs.toList ++ body.liveCalls) ++ rest.liveCalls

def revertedCalls : CallTree → List CallInputs
  | done => []
  | load _ rest => rest.revertedCalls
  | sload _ _ rest => rest.revertedCalls
  | sstore _ _ _ rest => rest.revertedCalls
  | log _ rest => rest.revertedCalls
  | frame inputs body reverts rest =>
    (if reverts then inputs.toList ++ body.calls else body.revertedCalls) ++ rest.revertedCalls

/-- The logs outside reverted frames. -/
def liveLogs : CallTree → List EvmLog
  | done => []
  | load _ rest => rest.liveLogs
  | sload _ _ rest => rest.liveLogs
  | sstore _ _ _ rest => rest.liveLogs
  | log entry rest => entry :: rest.liveLogs
  | frame _ body reverts rest => (if reverts then [] else body.liveLogs) ++ rest.liveLogs

/-- The writes to the slots of an account outside reverted frames. -/
def liveWrites (a : Address) : CallTree → List (U256 × U256)
  | done => []
  | load _ rest => rest.liveWrites a
  | sload _ _ rest => rest.liveWrites a
  | sstore b key value rest => (if b = a then [(key, value)] else []) ++ rest.liveWrites a
  | log _ rest => rest.liveWrites a
  | frame _ body reverts rest => (if reverts then [] else body.liveWrites a) ++ rest.liveWrites a

lemma countP_calls (p : CallInputs → Bool) (t : CallTree) :
    t.calls.countP p = t.liveCalls.countP p + t.revertedCalls.countP p := by
  induction t with
  | done => rfl
  | frame inputs body reverts rest ihbody ihrest =>
    unfold calls liveCalls revertedCalls
    cases reverts with
    | true =>
      simp only [if_true, List.countP_append, List.countP_nil]
      omega
    | false =>
      simp only [Bool.false_eq_true, if_false, List.countP_append]
      omega
  | _ => assumption

lemma calls_eq_liveCalls {t : CallTree} (h : t.revertedCalls = []) : t.calls = t.liveCalls := by
  induction t with
  | done => rfl
  | frame inputs body reverts rest ihbody ihrest =>
    unfold revertedCalls at h
    obtain ⟨hframe, hrest⟩ := List.append_eq_nil_iff.mp h
    unfold calls liveCalls
    rw [ihrest hrest]
    cases reverts with
    | true =>
      rw [if_pos rfl] at hframe
      rw [if_pos rfl, hframe]
    | false =>
      rw [if_neg Bool.false_ne_true] at hframe
      rw [if_neg Bool.false_ne_true, ihbody hframe]
  | load a rest ih => exact ih h
  | sload a key rest ih => exact ih h
  | sstore a key value rest ih => exact ih h
  | log entry rest ih => exact ih h

end CallTree

/-! ### Writes and the entries they log -/

/-- The entries that writes to a memory log: the values they change. -/
def logged (memory : U256 → U256) : List (U256 × U256) → List (U256 × U256)
  | [] => []
  | (key, value) :: writes =>
    (if memory key = value then [] else [(key, memory key)]) ++
      logged (Function.update memory key value) writes

lemma logged_append (memory : U256 → U256) (writes writes' : List (U256 × U256)) :
    logged memory (writes ++ writes') =
      logged memory writes ++ logged (afterWrites memory writes) writes' := by
  induction writes generalizing memory with
  | nil => rfl
  | cons w writes ih =>
    rw [List.cons_append, logged, logged, ih, List.append_assoc]
    rfl

/-- Undoing the entries of some writes gives the memory before them. -/
lemma restore_logged (memory : U256 → U256) (writes : List (U256 × U256)) :
    restore (logged memory writes) (afterWrites memory writes) = memory := by
  induction writes generalizing memory with
  | nil => rfl
  | cons w writes ih =>
    rw [logged, restore_append]
    change restore _ (restore _ (afterWrites (Function.update memory w.1 w.2) writes)) = _
    rw [ih]
    split_ifs with hvalue
    · rw [← hvalue]
      exact Function.update_eq_self _ _
    · simp [restore]

/-! ### Single operations -/

/-- A database whose failures read as nothing. -/
structure Completed (DB : Type) where
  db : DB

instance {DB E : Type} [DatabaseRef DB E] : DatabaseRef (Completed DB) Empty where
  basicRef d a := .ok ((DatabaseRef.basicRef d.db a).toOption.getD none)
  storageRef d a key := .ok ((DatabaseRef.storageRef d.db a key).toOption.getD 0)
  codeByHashRef d hash := .ok ((DatabaseRef.codeByHashRef d.db hash).toOption.getD [])
  blockHashRef d number := .ok ((DatabaseRef.blockHashRef d.db number).toOption.getD 0)

section

variable {DB E : Type} [DatabaseRef DB E] {db : DB} {js js' : JournaledState} {a : Address}

def storedValue (db : DB) (a : Address) (key : U256) : U256 :=
  (DatabaseRef.storageRef db a key).toOption.getD 0

/-- Reads of every account see the memory. -/
def Remembers (db : DB) (memory : Address → U256 → U256) (js : JournaledState) : Prop :=
  ∀ a, Reads (storedValue db a) (memory a) (js.tracked a)

variable {memory : Address → U256 → U256}

lemma sload_completed {key value : U256} (h : js.sload db a key = .ok (value, js')) :
    js.sload (Completed.mk db) a key = .ok (value, js') := by
  unfold JournaledState.sload at h ⊢
  cases haccount : js.state.lookup a with
  | none =>
    rw [haccount] at h
    cases h
  | some account =>
    rw [haccount] at h
    dsimp only at h ⊢
    cases hslot : account.storage.lookup key with
    | some slot =>
      rw [hslot] at h
      cases h
      rfl
    | none =>
      rw [hslot] at h
      dsimp only at h ⊢
      by_cases hcreated : account.isCreated = true
      · rw [if_pos hcreated] at h ⊢
        cases h
        rfl
      · rw [if_neg hcreated] at h ⊢
        cases hdb : DatabaseRef.storageRef db a key with
        | error e =>
          rw [hdb] at h
          cases h
        | ok stored =>
          rw [hdb] at h
          cases h
          simp only [DatabaseRef.storageRef, hdb, Except.toOption, Option.getD_some]

lemma sstore_completed {key value : U256} (h : js.sstore db a key value = .ok js') :
    js.sstore (Completed.mk db) a key value = .ok js' := by
  unfold JournaledState.sstore at h ⊢
  cases hload : js.sload db a key with
  | error e =>
    rw [hload] at h
    cases h
  | ok r =>
    rw [hload] at h
    rw [sload_completed hload]
    dsimp only at h ⊢
    cases haccount : r.2.state.lookup a with
    | none =>
      rw [haccount] at h
      cases h
    | some account =>
      rw [haccount] at h
      dsimp only at h ⊢
      cases hslot : account.storage.lookup key with
      | none =>
        rw [hslot] at h
        cases h
      | some slot =>
        rw [hslot] at h
        by_cases hvalue : r.1 = value
        · dsimp only at h ⊢
          rw [if_pos hvalue] at h ⊢
          cases h
          rfl
        · dsimp only at h ⊢
          rw [if_neg hvalue] at h ⊢
          cases h
          rfl

lemma Remembers.loadAccount (h : Remembers db memory js) (hrun : js.loadAccount db a = .ok js') :
    Remembers db memory js' := by
  intro b
  by_cases hb : b = a
  · subst hb
    have hreads := h b
    cases ht : js.tracked b with
    | some t =>
      obtain ⟨js₁, hrun', htracks⟩ := JournaledState.loadAccount_tracked db ht
      rw [hrun'] at hrun
      cases hrun
      rw [ht] at hreads
      rw [htracks b, if_pos rfl]
      exact hreads
    | none =>
      rw [ht] at hreads
      rcases JournaledState.loadAccount_untracked db ht with
        ⟨e, -, hrun'⟩ | ⟨info, js₁, -, hrun', htracks⟩
      · rw [hrun'] at hrun
        cases hrun
      · rw [hrun'] at hrun
        cases hrun
        rw [htracks b, if_pos rfl]
        cases info <;> exact ⟨rfl, fun key => (congrFun hreads key).symm⟩
  · rw [JournaledState.loadAccount_frame hb hrun]
    exact h b

lemma Remembers.sload (h : Remembers db memory js) {key value : U256}
    (hrun : js.sload db a key = .ok (value, js')) :
    value = memory a key ∧ Remembers db memory js' := by
  have hreads := h a
  cases ht : js.tracked a with
  | none =>
    rw [JournaledState.sload_untracked ht] at hrun
    cases hrun
  | some t =>
    rw [ht] at hreads
    obtain ⟨js₁, hrun', htracks⟩ := JournaledState.sload_tracked ht
      (show DatabaseRef.storageRef (Completed.mk db) a key = .ok (storedValue db a key) from rfl)
    rw [sload_completed hrun] at hrun'
    cases hrun'
    refine ⟨hreads.2 key, fun b => ?_⟩
    rw [htracks b]
    split_ifs with hb
    · rw [hb]
      exact hreads.sload key
    · exact h b

lemma Remembers.sstore (h : Remembers db memory js) {key value : U256}
    (hrun : js.sstore db a key value = .ok js') :
    Remembers db (fun b => afterWrites (memory b) (if a = b then [(key, value)] else [])) js' := by
  have hreads := h a
  cases ht : js.tracked a with
  | none =>
    rw [JournaledState.sstore_untracked ht] at hrun
    cases hrun
  | some t =>
    rw [ht] at hreads
    obtain ⟨js₁, hrun', htracks⟩ := JournaledState.sstore_tracked ht
      (show DatabaseRef.storageRef (Completed.mk db) a key = .ok (storedValue db a key) from rfl)
      value
    rw [sstore_completed hrun] at hrun'
    cases hrun'
    intro b
    rw [htracks b]
    by_cases hb : b = a
    · subst hb
      rw [if_pos rfl]
      dsimp only
      rw [if_pos rfl]
      exact hreads.sstore key value
    · rw [if_neg hb]
      dsimp only
      rw [if_neg (Ne.symm hb)]
      exact h b

/-! ### Whole trees -/

def PlainJournal (js : JournaledState) : Prop := ∀ entries ∈ js.journal, ∀ e ∈ entries, Plain e

/-- What a part of a tree does to the journaled state: the lists of the journal that were open
before gain the entries of its writes, the memory is written, and the logs are appended. -/
structure Effect (db : DB) (memory : Address → U256 → U256)
    (writes : Address → List (U256 × U256)) (logs : List EvmLog) (js js' : JournaledState) :
    Prop where
  length : js.journal.length ≤ js'.journal.length
  take : ∀ n, n < js.journal.length → js'.journal.take n = js.journal.take n
  logged : ∀ a n, n < js.journal.length → since n (slotLog a js'.journal) =
    since n (slotLog a js.journal) ++ logged (memory a) (writes a)
  memory : Remembers db (fun a => afterWrites (memory a) (writes a)) js'
  logs : js'.logs = js.logs ++ logs
  plain : PlainJournal js'
  present : js'.EntriesPresent

lemma Effect.refl (hmemory : Remembers db memory js) (hplain : PlainJournal js)
    (hpresent : js.EntriesPresent) : Effect db memory (fun _ => []) [] js js where
  length := le_refl _
  take _ _ := rfl
  logged _ _ _ := (List.append_nil _).symm
  memory := hmemory
  logs := (List.append_nil _).symm
  plain := hplain
  present := hpresent

lemma Effect.trans {writes writes' : Address → List (U256 × U256)} {logs logs' : List EvmLog}
    {js'' : JournaledState} (h : Effect db memory writes logs js js')
    (h' : Effect db (fun a => afterWrites (memory a) (writes a)) writes' logs' js' js'') :
    Effect db memory (fun a => writes a ++ writes' a) (logs ++ logs') js js'' where
  length := h.length.trans h'.length
  take n hn := (h'.take n (hn.trans_le h.length)).trans (h.take n hn)
  logged a n hn := by
    rw [h'.logged a n (hn.trans_le h.length), h.logged a n hn, logged_append, List.append_assoc]
  memory := by
    have hmemory : (fun a => afterWrites (memory a) (writes a ++ writes' a)) =
        fun a => afterWrites (afterWrites (memory a) (writes a)) (writes' a) := by
      funext a
      exact List.foldl_append
    rw [hmemory]
    exact h'.memory
  logs := by rw [h'.logs, h.logs, List.append_assoc]
  plain := h'.plain
  present := h'.present

/-- An operation that appends its entries to the last list has the effect of its writes. -/
lemma Effect.of_appends {entries : List JournalEntry} {writes : Address → List (U256 × U256)}
    (h : js.Appends js' entries) (hlogs : js'.logs = js.logs)
    (hentries : ∀ a, entries.filterMap (slotChange a) = AssertionExecution.logged (memory a)
      (writes a))
    (hplainEntries : ∀ e ∈ entries, Plain e)
    (hmemory : Remembers db (fun a => afterWrites (memory a) (writes a)) js')
    (hplain : PlainJournal js) (hpresent : js.EntriesPresent) :
    Effect db memory writes [] js js' where
  length := h.length.ge
  take n hn := by
    have hfold : ∀ journal : List (List JournalEntry), n < journal.length →
        (entries.foldl (fun journal e => AssertionExecution.pushLast e journal) journal).take n =
          journal.take n := by
      clear hentries hplainEntries h
      induction entries with
      | nil => exact fun _ _ => rfl
      | cons e entries ih =>
        intro journal hn
        rw [List.foldl_cons, pushLast_eq, ih _ (by rwa [UndoLog.length_pushLast]),
          take_pushLast _ hn]
    rw [h.journal, hfold _ hn]
  logged a n hn := by
    have hfold : ∀ (changes : List (U256 × U256)) (log : List (List (U256 × U256))),
        n < log.length →
        since n (changes.foldl (fun log change => UndoLog.pushLast change log) log) =
          since n log ++ changes := by
      intro changes
      induction changes with
      | nil => exact fun log _ => (List.append_nil _).symm
      | cons change changes ih =>
        intro log hn
        rw [List.foldl_cons, ih _ (by rwa [UndoLog.length_pushLast]), since_pushLast _ hn,
          List.append_assoc]
        rfl
    rw [h.journal, slotLog_foldl, hfold _ _ (by rwa [length_slotLog]), hentries]
  memory := hmemory
  logs := by rw [hlogs, List.append_nil]
  plain := h.forall_entries hplain hplainEntries
  present := h.entriesPresent hpresent

lemma logs_loadAccount (h : js.loadAccount db a = .ok js') : js'.logs = js.logs := by
  unfold JournaledState.loadAccount at h
  split at h
  · cases h
    split_ifs <;> rfl
  · split at h
    · cases h
    · cases h
      split_ifs <;> rfl

lemma logs_sload {key value : U256} (h : js.sload db a key = .ok (value, js')) :
    js'.logs = js.logs := by
  unfold JournaledState.sload at h
  split at h
  · cases h
  · split at h
    · cases h
      split_ifs <;> rfl
    · split at h
      · cases h
      · cases h
        rfl

lemma logs_sstore {key value : U256} (h : js.sstore db a key value = .ok js') :
    js'.logs = js.logs := by
  unfold JournaledState.sstore at h
  split at h
  · cases h
  · rename_i present js₁ hload
    rw [← logs_sload hload]
    split at h
    · cases h
    · split at h
      · cases h
      · split_ifs at h <;> cases h <;> rfl

lemma effect_loadAccount (h : js.loadAccount db a = .ok js') (hmemory : Remembers db memory js)
    (hplain : PlainJournal js) (hpresent : js.EntriesPresent) :
    Effect db memory (fun _ => []) [] js js' := by
  rcases JournaledState.loadAccount_appends h with happends | happends
  · exact Effect.of_appends happends (logs_loadAccount h) (fun _ => rfl)
      (fun _ he => (List.not_mem_nil he).elim) (hmemory.loadAccount h) hplain hpresent
  · refine Effect.of_appends happends (logs_loadAccount h) (fun _ => rfl) ?_
      (hmemory.loadAccount h) hplain hpresent
    intro e he
    rw [List.mem_singleton.mp he]
    trivial

lemma effect_sload {key value : U256} (h : js.sload db a key = .ok (value, js'))
    (hmemory : Remembers db memory js) (hplain : PlainJournal js)
    (hpresent : js.EntriesPresent) : Effect db memory (fun _ => []) [] js js' := by
  obtain ⟨warmed, happends, hwarmed⟩ := JournaledState.sload_appends h
  exact Effect.of_appends happends (logs_sload h) (fun b => (slotChange_warmed b hwarmed).1)
    (slotChange_warmed a hwarmed).2 (hmemory.sload h).2 hplain hpresent

lemma effect_sstore {key value : U256} (h : js.sstore db a key value = .ok js')
    (hmemory : Remembers db memory js) (hplain : PlainJournal js)
    (hpresent : js.EntriesPresent) :
    Effect db memory (fun b => if a = b then [(key, value)] else []) [] js js' := by
  obtain ⟨present, js₁, hload, hwrite⟩ := JournaledState.sstore_appends h
  obtain ⟨warmed, hread, hwarmed⟩ := JournaledState.sload_appends hload
  obtain ⟨rfl, -⟩ := hmemory.sload hload
  have hafter := hmemory.sstore h
  have hnone := fun b => (slotChange_warmed b hwarmed).1
  have hplainWarmed := (slotChange_warmed a hwarmed).2
  rcases hwrite with ⟨hvalue, rfl⟩ | ⟨hvalue, hwrite⟩
  · refine Effect.of_appends hread (logs_sstore h) (fun b => ?_) hplainWarmed hafter hplain hpresent
    rw [hnone]
    split_ifs with hb
    · subst hb
      simp [logged, hvalue]
    · rfl
  · refine Effect.of_appends (hread.trans hwrite) (logs_sstore h) (fun b => ?_) ?_ hafter hplain
      hpresent
    · rw [List.filterMap_append, hnone, List.nil_append]
      by_cases hb : a = b
      · subst hb
        simp [logged, hvalue, slotChange]
      · simp [logged, slotChange, hb]
    · intro e he
      rcases List.mem_append.mp he with he | he
      · exact hplainWarmed e he
      · rw [List.mem_singleton.mp he]
        trivial

/-- What happens after a list is opened happens to the lists before it. -/
lemma Effect.opened {writes : Address → List (U256 × U256)} {logs : List EvmLog}
    (h : Effect db memory writes logs js.checkpoint.1 js') :
    Effect db memory writes logs js js' := by
  have hlength : js.checkpoint.1.journal.length = js.journal.length + 1 := List.length_append
  have hlog : ∀ a, slotLog a js.checkpoint.1.journal = slotLog a js.journal ++ [[]] :=
    fun a => List.map_append
  refine ⟨?_, fun n hn => ?_, fun a n hn => ?_, h.memory, h.logs, h.plain, h.present⟩
  · exact (Nat.le_succ _).trans (hlength.symm.le.trans h.length)
  · refine (h.take n (by omega)).trans ?_
    exact List.take_append_of_le_length hn.le
  · refine (h.logged a n (by omega)).trans ?_
    rw [hlog]
    exact congrArg (· ++ _) (since_append_replicate n 1 _)

lemma Effect.commit {writes : Address → List (U256 × U256)} {logs : List EvmLog}
    {js'' : JournaledState} (h : Effect db memory writes logs js.checkpoint.1 js')
    (hcommit : js'.checkpointCommit = some js'') : Effect db memory writes logs js js'' := by
  have heffect := h.opened
  obtain ⟨-, rfl⟩ := JournaledState.checkpointCommit_cases hcommit
  exact ⟨heffect.length, heffect.take, heffect.logged, heffect.memory, heffect.logs,
    heffect.plain, heffect.present⟩

/-- A frame that is reverted has no effect. -/
lemma Effect.revert {writes : Address → List (U256 × U256)} {logs : List EvmLog}
    {js'' : JournaledState} (h : Effect db memory writes logs js.checkpoint.1 js')
    (hrevert : js'.checkpointRevert js.checkpoint.2 = some js'') (hplain : PlainJournal js) :
    Effect db memory (fun _ => []) [] js js'' := by
  have hlength : js.checkpoint.1.journal.length = js.journal.length + 1 := List.length_append
  have hreads : Remembers db memory js'' := by
    intro a
    have hundone := (h.memory a).checkpointRevert h.plain hrevert
    have hempty : since js.journal.length (slotLog a js.checkpoint.1.journal) = [] := by
      have hlog : slotLog a js.checkpoint.1.journal = slotLog a js.journal ++ [[]] :=
        List.map_append
      unfold since
      rw [hlog, ← length_slotLog a js.journal, List.drop_left]
      rfl
    have hlogged := h.logged a js.journal.length (by omega)
    rw [hempty, List.nil_append] at hlogged
    change Reads _ (restore (since js.journal.length (slotLog a js'.journal)) _) _ at hundone
    rwa [hlogged, restore_logged] at hundone
  obtain ⟨hdepth, hbounded, undone, hundone, hafter⟩ :=
    JournaledState.checkpointRevert_cases hrevert
  have hjournal : js''.journal = js.journal := by
    have htake : js'.journal.take js.journal.length = js.journal := by
      rw [h.take _ (by omega)]
      exact List.take_left
    rw [hafter]
    exact htake
  have hlogs : js''.logs = js.logs := by
    rw [hafter]
    change js'.logs.take js.logs.length = js.logs
    rw [h.logs]
    exact List.take_left
  have hpresent : js''.EntriesPresent := by
    obtain ⟨js₁, hrun, hcovered, -, htake⟩ :=
      JournaledState.checkpointRevert_covered hdepth hbounded h.present
    rw [hrun] at hrevert
    cases hrevert
    exact h.present.take hcovered htake
  refine ⟨?_, fun n hn => ?_, fun a n hn => ?_, hreads, ?_, ?_, hpresent⟩
  · rw [hjournal]
  · rw [hjournal]
  · rw [hjournal]
    exact (List.append_nil _).symm
  · rw [hlogs, List.append_nil]
  · intro entries hentries
    rw [hjournal] at hentries
    exact hplain entries hentries

lemma CallTree.run_frame (db : DB) (inputs : Option CallInputs) (body rest : CallTree)
    (reverts : Bool) (tracer : CallTracer) (js : JournaledState) :
    (frame inputs body reverts rest).run db tracer js =
      (body.run db (inputs.toList.foldl CallTracer.recordCall tracer) js.checkpoint.1).bind
        fun r => (if reverts then r.2.checkpointRevert js.checkpoint.2
          else r.2.checkpointCommit).bind (rest.run db r.1) := by
  cases inputs <;>
  · rw [run]
    dsimp only [Option.toList, List.foldl]
    split
    · rename_i hbody
      rw [hbody]
      rfl
    · rename_i tracer₁ js₁ hbody
      rw [hbody]
      dsimp only [Option.bind_some]
      split <;> rename_i hend <;> rw [hend] <;> rfl

/-- A tree that runs leaves the writes and logs outside its reverted frames in the journaled
state, and all of its calls in the tracer. -/
lemma CallTree.run_effect (t : CallTree) {tracer tracer' : CallTracer}
    (hmemory : Remembers db memory js) (hplain : PlainJournal js) (hpresent : js.EntriesPresent)
    (h : t.run db tracer js = some (tracer', js')) :
    tracer' = t.calls.foldl CallTracer.recordCall tracer ∧
      Effect db memory (fun a => t.liveWrites a) t.liveLogs js js' := by
  induction t generalizing tracer tracer' js js' memory with
  | done =>
    cases h
    exact ⟨rfl, Effect.refl hmemory hplain hpresent⟩
  | load a rest ih =>
    unfold run at h
    cases hload : js.loadAccount db a with
    | error e =>
      rw [hload] at h
      cases h
    | ok js₁ =>
      rw [hload] at h
      have hstep := effect_loadAccount hload hmemory hplain hpresent
      obtain ⟨htracer, hrest⟩ := ih hstep.memory hstep.plain hstep.present h
      exact ⟨htracer, hstep.trans hrest⟩
  | sload a key rest ih =>
    unfold run at h
    cases hload : js.sload db a key with
    | error e =>
      rw [hload] at h
      cases h
    | ok r =>
      rw [hload] at h
      have hstep := effect_sload hload hmemory hplain hpresent
      obtain ⟨htracer, hrest⟩ := ih hstep.memory hstep.plain hstep.present h
      exact ⟨htracer, hstep.trans hrest⟩
  | sstore a key value rest ih =>
    unfold run at h
    cases hstore : js.sstore db a key value with
    | error e =>
      rw [hstore] at h
      cases h
    | ok js₁ =>
      rw [hstore] at h
      have hstep := effect_sstore hstore hmemory hplain hpresent
      obtain ⟨htracer, hrest⟩ := ih hstep.memory hstep.plain hstep.present h
      exact ⟨htracer, hstep.trans hrest⟩
  | log entry rest ih =>
    have hstep : Effect db memory (fun _ => []) [entry] js { js with logs := js.logs ++ [entry] } :=
      ⟨le_refl _, fun _ _ => rfl, fun _ _ _ => (List.append_nil _).symm, hmemory, rfl, hplain,
        hpresent⟩
    obtain ⟨htracer, hrest⟩ := ih hstep.memory hstep.plain hstep.present h
    exact ⟨htracer, hstep.trans hrest⟩
  | frame inputs body reverts rest ihbody ihrest =>
    have hopenPlain : PlainJournal js.checkpoint.1 :=
      JournaledState.forall_entries_checkpoint hplain
    have hopenPresent : js.checkpoint.1.EntriesPresent :=
      JournaledState.forall_entries_checkpoint hpresent
    rw [run_frame] at h
    obtain ⟨⟨tracer₁, js₁⟩, hbody, h⟩ := Option.bind_eq_some_iff.mp h
    obtain ⟨js₂, hend, hrun⟩ := Option.bind_eq_some_iff.mp h
    obtain ⟨htracer, hinner⟩ := @ihbody js.checkpoint.1 _ memory _ _ hmemory hopenPlain
      hopenPresent hbody
    have heffect : Effect db memory (fun a => if reverts then [] else body.liveWrites a)
        (if reverts then [] else body.liveLogs) js js₂ := by
      cases reverts with
      | true => exact hinner.revert hend hplain
      | false => exact hinner.commit hend
    obtain ⟨htracer', hrest⟩ := ihrest heffect.memory heffect.plain heffect.present hrun
    refine ⟨?_, heffect.trans hrest⟩
    rw [htracer', htracer, calls, List.foldl_append, List.foldl_append]

end

/-! ### The calls that are recorded -/

namespace CallTracer

def recorded (tracer : CallTracer) (target : Address) (selector : Selector) : List CallInputs :=
  (tracer.callInputs.lookup (target, selector)).getD []

def Matches (target : Address) (selector : Selector) (call : CallInputs) : Prop :=
  call.targetAddress = target ∧ leadingSelector call.input = selector

instance (target : Address) (selector : Selector) (call : CallInputs) :
    Decidable (Matches target selector call) :=
  inferInstanceAs (Decidable (_ ∧ _))

lemma recorded_recordCall (tracer : CallTracer) (call : CallInputs) (target : Address)
    (selector : Selector) :
    (tracer.recordCall call).recorded target selector = tracer.recorded target selector ++
      if Matches target selector call then [call] else [] := by
  unfold recorded recordCall modifyOrDefault
  rw [lookup_insert_ite]
  by_cases hkey : Matches target selector call
  · rw [if_pos hkey, if_pos (Prod.ext hkey.1.symm hkey.2.symm)]
    obtain ⟨rfl, rfl⟩ := hkey
    rfl
  · rw [if_neg hkey, List.append_nil, if_neg]
    intro h
    rw [Prod.mk.injEq] at h
    exact hkey ⟨h.1.symm, h.2.symm⟩

lemma recorded_foldl (calls : List CallInputs) (tracer : CallTracer) (target : Address)
    (selector : Selector) :
    (calls.foldl recordCall tracer).recorded target selector =
      tracer.recorded target selector ++ calls.filter (Matches target selector) := by
  induction calls generalizing tracer with
  | nil => exact (List.append_nil _).symm
  | cons call calls ih =>
    rw [List.foldl_cons, ih, recorded_recordCall, List.append_assoc, List.filter_cons]
    congr 1
    simp only [decide_eq_true_eq]
    split_ifs <;> rfl

/-- The journaled state is captured after the calls. -/
lemma foldl_recordCall (calls : List CallInputs) (tracer : CallTracer)
    (journaledState : Option JournaledState) :
    { calls.foldl recordCall tracer with journaledState := journaledState } =
      calls.foldl recordCall { tracer with journaledState := journaledState } := by
  induction calls generalizing tracer with
  | nil => rfl
  | cons call calls ih => exact ih _

lemma recorded_ofCalls (calls : List CallInputs) (journaledState : Option JournaledState)
    (target : Address) (selector : Selector) :
    (ofCalls calls journaledState).recorded target selector =
      calls.filter (Matches target selector) :=
  recorded_foldl calls _ target selector

lemma journaledState_ofCalls (calls : List CallInputs) (journaledState : Option JournaledState) :
    (ofCalls calls journaledState).journaledState = journaledState :=
  (ofCalls_spec calls ⟨∅, journaledState⟩ 0 0).1

lemma journalEntries_ofCalls (calls : List CallInputs) (js : JournaledState) :
    (ofCalls calls (some js)).journalEntries = js.journal.flatten := by
  unfold journalEntries
  rw [journaledState_ofCalls]
  rfl

lemma setsOff_call (calls : List CallInputs) (journal : List JournalEntry) (target : Address)
    (selector : Selector) : SetsOff calls journal target (.call selector) ↔
      ∃ call ∈ calls, Matches target selector call := by
  constructor
  · rintro (⟨call, hcall, htarget, hselector⟩ | ⟨e, -, he⟩)
    · cases hselector
      exact ⟨call, hcall, htarget, rfl⟩
    · cases e with
      | balanceTransfer source target balance => cases he.2
      | storageChanged b key hadValue => cases he.2
      | _ => exact he.elim
  · rintro ⟨call, hcall, htarget, rfl⟩
    exact Or.inl ⟨call, hcall, htarget, rfl⟩

lemma setsOff_storageChange (calls : List CallInputs) (journal : List JournalEntry) (a : Address)
    (key : U256) : SetsOff calls journal a (.storageChange key) ↔
      ∃ hadValue, JournalEntry.storageChanged a key hadValue ∈ journal := by
  constructor
  · rintro (⟨call, -, -, hcall⟩ | ⟨e, he, htriggers⟩)
    · cases hcall
    · cases e with
      | storageChanged b key' hadValue =>
        obtain ⟨rfl, hkey⟩ := htriggers
        cases hkey
        exact ⟨hadValue, he⟩
      | balanceTransfer source target balance => cases htriggers.2
      | _ => exact htriggers.elim
  · rintro ⟨hadValue, he⟩
    exact Or.inr ⟨_, he, rfl, rfl⟩

lemma solCallInputs_ofCalls (calls : List CallInputs) (journaledState : Option JournaledState)
    (target : Address) (selector : Selector) :
    solCallInputs (ofCalls calls journaledState) target selector =
      (calls.filter (Matches target selector)).map solCallInput :=
  congrArg (List.map solCallInput) (recorded_ofCalls calls journaledState target selector)

end CallTracer

/-! ### The values of a slot -/

/-- The values that a slot goes through as the writes are made, from the one it has. -/
def slotValues (memory : U256 → U256) (writes : List (U256 × U256)) (key : U256) : List U256 :=
  ((writes.filter fun w => w.1 = key).map Prod.snd).destutter' (· ≠ ·) (memory key)

/-- The entries of the writes hold all of them but the last. -/
lemma slotValues_eq (memory : U256 → U256) (writes : List (U256 × U256)) (key : U256) :
    slotValues memory writes key =
      ((logged memory writes).filter fun e => e.1 = key).map Prod.snd ++
        [afterWrites memory writes key] := by
  induction writes generalizing memory with
  | nil => rfl
  | cons w writes ih =>
    obtain ⟨key', value⟩ := w
    have hrest := ih (Function.update memory key' value)
    unfold slotValues at hrest ⊢
    have hafter : afterWrites memory ((key', value) :: writes) =
        afterWrites (Function.update memory key' value) writes := rfl
    rw [logged, List.filter_append, List.map_append, List.append_assoc, hafter, ← hrest]
    by_cases hkey : key' = key
    · subst hkey
      rw [List.filter_cons, if_pos (decide_eq_true rfl), List.map_cons, List.destutter'_cons,
        Function.update_self]
      by_cases hvalue : memory key' = value
      · rw [if_neg (not_not.mpr hvalue), if_pos hvalue, hvalue]
        rfl
      · rw [if_pos hvalue, if_neg hvalue, List.filter_cons, if_pos (decide_eq_true rfl)]
        rfl
    · rw [List.filter_cons, if_neg (by simpa using hkey), Function.update_of_ne (Ne.symm hkey)]
      split_ifs
      · rfl
      · rw [List.filter_cons, if_neg (by simpa using hkey)]
        rfl

lemma flatten_slotLog (a : Address) (journal : List (List JournalEntry)) :
    (slotLog a journal).flatten = journal.flatten.filterMap (slotChange a) := by
  unfold slotLog
  rw [List.filterMap_flatten]

lemma filterMap_slotChanges (a : Address) (key : U256) {f : JournalEntry → Option U256}
    (journal : List (List JournalEntry))
    (hf : ∀ e, f e = ((slotChange a e).filter fun change => change.1 = key).map Prod.snd) :
    journal.flatten.filterMap f =
      ((slotLog a journal).flatten.filter fun change => change.1 = key).map Prod.snd := by
  rw [flatten_slotLog, List.filter_filterMap, List.map_filterMap]
  exact List.filterMap_congr fun e _ => hf e

lemma mem_slotChanges {a : Address} {key hadValue : U256} {journal : List (List JournalEntry)} :
    (key, hadValue) ∈ (slotLog a journal).flatten ↔
      JournalEntry.storageChanged a key hadValue ∈ journal.flatten := by
  rw [flatten_slotLog, List.mem_filterMap]
  constructor
  · rintro ⟨e, he, hchange⟩
    cases e with
    | storageChanged b key' hadValue' =>
      rw [slotChange_storageChanged] at hchange
      split_ifs at hchange with hb
      cases hchange
      rwa [← hb]
    | _ => cases hchange
  · intro h
    exact ⟨_, h, by rw [slotChange_storageChanged, if_pos rfl]⟩

/-! ### The views of a transaction -/

lemma start_effect {DB E : Type} [DatabaseRef DB E] (db : DB) (warm : List Address) :
    Remembers db (storedValue db) (.new warm) ∧ PlainJournal (.new warm) ∧
      (JournaledState.new warm).EntriesPresent :=
  ⟨fun _ => rfl, JournaledState.forall_entries_new warm, entriesPresent_new warm⟩

section

variable {DB E : Type} [DatabaseRef DB E] {db : DB} {warm : List Address} {t : CallTree}
  {tracer : CallTracer} {logs : List EvmLog}

lemma CallTree.transact_effect (h : t.transact db warm = some (tracer, logs)) :
    ∃ js, tracer = ofCalls t.calls (some js) ∧ logs = t.liveLogs ∧ js.EntriesPresent ∧
      ∀ a, (slotLog a js.journal).flatten = logged (storedValue db a) (t.liveWrites a) ∧
        Reads (storedValue db a) (afterWrites (storedValue db a) (t.liveWrites a))
          (js.tracked a) := by
  obtain ⟨⟨tracer₁, js⟩, hrun, hresult⟩ := Option.map_eq_some_iff.mp h
  cases hresult
  obtain ⟨hmemory, hplain, hpresent⟩ := start_effect db warm
  obtain ⟨htracer, heffect⟩ := t.run_effect hmemory hplain hpresent hrun
  refine ⟨js, ?_, heffect.logs, heffect.present, fun a => ⟨?_, heffect.memory a⟩⟩
  · rw [htracer]
    exact foldl_recordCall t.calls .default (some js)
  · exact heffect.logged a 0 Nat.zero_lt_one

/-- A slot has differences if its value ever changed. -/
def differences (values : List U256) : List U256 := if values.length ≤ 1 then [] else values

lemma differences_ne_nil (memory : U256 → U256) (writes : List (U256 × U256)) (key : U256) :
    differences (slotValues memory writes key) ≠ [] ↔
      ∃ hadValue, (key, hadValue) ∈ logged memory writes := by
  rw [slotValues_eq]
  unfold differences
  rw [List.length_append, List.length_map, List.length_singleton]
  constructor
  · intro h
    split_ifs at h with hlength
    · exact (h rfl).elim
    · obtain ⟨⟨key', hadValue⟩, hchange⟩ := List.exists_mem_of_length_pos
        (show 0 < ((logged memory writes).filter fun e => e.1 = key).length by omega)
      obtain ⟨hmem, hkey⟩ := List.mem_filter.mp hchange
      have hkey' : key' = key := of_decide_eq_true hkey
      exact ⟨hadValue, hkey' ▸ hmem⟩
  · rintro ⟨hadValue, hmem⟩
    have hlength := List.length_pos_of_mem (List.mem_filter.mpr ⟨hmem, decide_eq_true rfl⟩ :
      (key, hadValue) ∈ (logged memory writes).filter fun e => e.1 = key)
    rw [if_neg (by omega)]
    exact List.append_ne_nil_of_right_ne_nil _ (List.cons_ne_nil _ _)

/-- The entries of a slot of an account, and the value the slot has in the end. -/
lemma getDifferences_eq {js : JournaledState} {a : Address} (hpresent : js.EntriesPresent)
    {deployed : U256 → U256} {writes : List (U256 × U256)}
    (hlog : (slotLog a js.journal).flatten = logged deployed writes)
    (hreads : Reads deployed (afterWrites deployed writes) (js.tracked a)) (key : U256) :
    getDifferences js a key = .ok (differences (slotValues deployed writes key)) := by
  unfold getDifferences
  rw [filterMap_slotChanges a key, slotValues_eq, ← hlog]
  · cases hhad : ((slotLog a js.journal).flatten.filter fun change => change.1 = key).map
        Prod.snd with
    | nil => rfl
    | cons hadValue hadValues =>
      have hentry : (key, hadValue) ∈ (slotLog a js.journal).flatten := by
        obtain ⟨change, hchange, rfl⟩ := List.mem_map.mp
          (hhad.symm ▸ List.mem_cons_self .. : hadValue ∈ _)
        obtain ⟨hmem, hkey⟩ := List.mem_filter.mp hchange
        rwa [← of_decide_eq_true hkey]
      obtain ⟨entries, hentries, he⟩ := List.mem_flatten.mp (mem_slotChanges.mp hentry)
      obtain ⟨tracked, htracked, hslot⟩ := hpresent entries hentries _ he
      obtain ⟨slot, hslot⟩ := Option.isSome_iff_exists.mp hslot
      obtain ⟨account, haccount, rfl⟩ := Option.map_eq_some_iff.mp htracked
      rw [htracked] at hreads
      have hvalue := hreads.2 key
      unfold TrackedAccount.readSlot at hvalue
      rw [hslot] at hvalue
      have hchanged : ¬(hadValue :: hadValues ++ [afterWrites deployed writes key]).length ≤ 1 := by
        simp
      rw [haccount, differences, if_neg hchanged]
      dsimp only
      rw [show account.storage.lookup key = some slot from hslot, ← hvalue]
      rfl
  · intro e
    cases e with
    | storageChanged b key' hadValue =>
      simp only [slotChange_storageChanged]
      by_cases hb : b = a <;> by_cases hkey : key' = key <;> simp [hb, hkey]
    | _ => rfl

/-- The views show what lies outside the reverted frames of the transaction, and only that. -/
structure ViewsAgree (db : DB) (t : CallTree) (tracer : CallTracer) (logs : List EvmLog) :
    Prop where
  callInputs : ∀ target selector, solCallInputs tracer target selector =
    (t.liveCalls.filter (Matches target selector)).map solCallInput
  logs : logs = t.liveLogs
  stateChanges : ∀ a key, tracer.journaledState.map (getDifferences · a key) =
    some (.ok (differences (slotValues (storedValue db a) (t.liveWrites a) key)))
  callTriggers : ∀ it target selector, Holds (tracer.triggers it) target (.call selector) ↔
    ∃ call ∈ t.liveCalls, Matches target selector call
  storageTriggers : ∀ it a key, Holds (tracer.triggers it) a (.storageChange key) ↔
    differences (slotValues (storedValue db a) (t.liveWrites a) key) ≠ []

/-- The views of a transaction agree on its reverted frames exactly if no call is in one. -/
theorem views_agree_iff (db : DB) (warm : List Address) (t : CallTree) {tracer : CallTracer}
    {logs : List EvmLog} (h : t.transact db warm = some (tracer, logs)) :
    ViewsAgree db t tracer logs ↔ t.revertedCalls = [] := by
  obtain ⟨js, rfl, rfl, hpresent, hstorage⟩ := t.transact_effect h
  constructor
  · intro hagree
    apply List.eq_nil_iff_forall_not_mem.mpr
    intro call hcall
    have hviews := congrArg List.length
      (hagree.callInputs call.targetAddress (leadingSelector call.input))
    rw [solCallInputs_ofCalls, List.length_map, List.length_map, ← List.countP_eq_length_filter,
      ← List.countP_eq_length_filter, CallTree.countP_calls] at hviews
    have hcounted : 0 < t.revertedCalls.countP
        (Matches call.targetAddress (leadingSelector call.input)) :=
      List.countP_pos_iff.mpr ⟨call, hcall, decide_eq_true ⟨rfl, rfl⟩⟩
    omega
  · intro hnone
    have hcalls := CallTree.calls_eq_liveCalls hnone
    refine ⟨fun target selector => ?_, rfl, fun a key => ?_, fun it target selector => ?_,
      fun it a key => ?_⟩
    · rw [solCallInputs_ofCalls, hcalls]
    · obtain ⟨hlog, hreads⟩ := hstorage a
      rw [journaledState_ofCalls]
      exact congrArg some (getDifferences_eq hpresent hlog hreads key)
    · rw [holds_triggers_ofCalls, setsOff_call, hcalls]
    · rw [holds_triggers_ofCalls, setsOff_storageChange, journalEntries_ofCalls,
        differences_ne_nil, ← (hstorage a).1]
      exact exists_congr fun _ => mem_slotChanges.symm

end

/-- A call of contract 1, in which a call of contract 2 writes to its storage, logs and fails. -/
def failedInnerCall : CallTree :=
  .load 1 (.frame (some ⟨[], 0, 1, 1, 0, 0⟩)
    (.load 2 (.frame (some ⟨[], 0, 2, 2, 1, 0⟩) (.sstore 2 0 5 (.log ⟨2, [], []⟩ .done)) true
      .done)) false .done)

/-- The same calls, neither of which fails. -/
def innerCall : CallTree :=
  .load 1 (.frame (some ⟨[], 0, 1, 1, 0, 0⟩)
    (.load 2 (.frame (some ⟨[], 0, 2, 2, 1, 0⟩) (.sstore 2 0 5 (.log ⟨2, [], []⟩ .done)) false
      .done)) false .done)

/-- The views of a transaction without reverted frames agree. -/
theorem views_agree_iff_innerCall :
    ∃ tracer logs, innerCall.transact () [] = some (tracer, logs) ∧
      (ViewsAgree () innerCall tracer logs ↔ innerCall.revertedCalls = []) := by
  have hsome : (innerCall.transact () []).isSome = true := by decide
  obtain ⟨⟨tracer, logs⟩, h⟩ := Option.isSome_iff_exists.mp hsome
  exact ⟨tracer, logs, h, views_agree_iff () [] innerCall h⟩

/-- The call of contract 2 is shown and sets off triggers, unlike its log and its write. -/
theorem failed_call_is_shown :
    ∃ tracer logs, failedInnerCall.transact () [] = some (tracer, logs) ∧
      ¬ViewsAgree () failedInnerCall tracer logs ∧
      solCallInputs tracer 2 0 = [⟨[], 0, 2, 2, 1, 0⟩] ∧ logs = [] ∧
      tracer.journaledState.map (getDifferences · 2 0) = some (.ok []) := by
  have hrun : (failedInnerCall.transact () []).map (fun views =>
      (solCallInputs views.1 2 0, views.2, views.1.journaledState.map (getDifferences · 2 0))) =
      some ([⟨[], 0, 2, 2, 1, 0⟩], [], some (.ok [])) := by decide
  obtain ⟨⟨tracer, logs⟩, h, hviews⟩ := Option.map_eq_some_iff.mp hrun
  rw [Prod.mk.injEq, Prod.mk.injEq] at hviews
  obtain ⟨hcalls, hlogs, hchanges⟩ := hviews
  refine ⟨tracer, logs, h, fun hagree => ?_, hcalls, hlogs, hchanges⟩
  have hshown := hagree.callInputs 2 0
  rw [hcalls] at hshown
  exact absurd hshown (by decide)

end AssertionExecution
