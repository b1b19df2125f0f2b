import AssertionExecution.Model.TransientStorage
import AssertionExecution.Proofs.PersistentAccounts

/-!
# Transient storage across forks

A switch hands the persistent accounts over, but not their transient storage: each fork has the
transient storage of all accounts to itself.
-/

namespace AssertionExecution

open HashMap

/-- What a running assertion does, transient writes included. -/
inductive TransientOp where
  | tstore (a : Address) (key value : U256)
  | forkOp (op : ForkOp)

namespace TransientOp

variable {Active Err : Type} [DatabaseRef Active Err] (init : JournaledState)

def step (s : Running (ForkDb Active)) : TransientOp → Running (ForkDb Active)
  | tstore a key value => ⟨s.db, s.journaled.tstore a key value⟩
  | forkOp op => op.step init s

def runAll (s : Running (ForkDb Active)) (ops : List TransientOp) : Running (ForkDb Active) :=
  ops.foldl (step init) s

end TransientOp

/-! ### Transient memories -/

abbrev TransientMemory := Address → U256 → U256

def TransientMemory.write (memory : TransientMemory) (a : Address) (key value : U256) :
    TransientMemory :=
  fun b k => if b = a ∧ k = key then value else memory b k

/-- The memory of a run without forks. -/
def flatMemory (ops : List TransientOp) : TransientMemory :=
  ops.foldl (fun memory op => match op with
    | .tstore a key value => memory.write a key value
    | .forkOp _ => memory) fun _ _ => 0

/-- A memory for each fork, and the fork that is active. -/
structure ForkMemories where
  active : ForkId
  memory : ForkId → TransientMemory

namespace ForkMemories

def step (m : ForkMemories) : TransientOp → ForkMemories
  | .tstore a key value => { m with
      memory := fun id => if id = m.active then (m.memory id).write a key value else m.memory id }
  | .forkOp (.switchFork id) => { m with active := id }
  | .forkOp _ => m

lemma memory_step_tstore (m : ForkMemories) (a : Address) (key value : U256) :
    (m.step (.tstore a key value)).memory m.active = (m.memory m.active).write a key value :=
  if_pos rfl

def after (ops : List TransientOp) : ForkMemories :=
  ops.foldl step ⟨.postTx, fun _ _ _ => 0⟩

@[simp] lemma after_append_singleton (ops : List TransientOp) (op : TransientOp) :
    after (ops ++ [op]) = (after ops).step op :=
  List.foldl_append

end ForkMemories

/-! ### What the operations do -/

namespace JournaledState

variable {js js' : JournaledState}

lemma tload_congr (h : js'.transientStorage = js.transientStorage) : js'.tload = js.tload := by
  unfold tload
  rw [h]

lemma tload_tstore (js : JournaledState) (a : Address) (key value : U256) :
    (js.tstore a key value).tload = TransientMemory.write js.tload a key value := by
  funext b k
  have hstorage : (js.tstore a key value).transientStorage =
      if value = 0 then js.transientStorage.erase (a, key)
      else js.transientStorage.insert (a, key) value := by
    unfold tstore
    dsimp only
    split <;> rfl
  unfold tload TransientMemory.write
  rw [hstorage]
  by_cases hslot : b = a ∧ k = key
  · rw [if_pos hslot, hslot.1, hslot.2]
    by_cases hvalue : value = 0
    · rw [if_pos hvalue, AList.lookup_erase, hvalue]
      rfl
    · rw [if_neg hvalue, AList.lookup_insert]
      rfl
  · have hne : (b, k) ≠ (a, key) := fun h => hslot (Prod.mk.inj h)
    rw [if_neg hslot]
    by_cases hvalue : value = 0
    · rw [if_pos hvalue, AList.lookup_erase_ne hne]
    · rw [if_neg hvalue, AList.lookup_insert_ne hne]

variable {Db Err : Type} [DatabaseRef Db Err] {db : Db} {a : Address}

lemma transientStorage_loadAccount (h : js.loadAccount db a = .ok js') :
    js'.transientStorage = js.transientStorage := by
  unfold loadAccount at h
  split at h
  · cases h
    split_ifs <;> rfl
  · split at h
    · cases h
    · cases h
      split_ifs <;> rfl

lemma transientStorage_sload {key value : U256} (h : js.sload db a key = .ok (value, js')) :
    js'.transientStorage = js.transientStorage := by
  unfold sload at h
  split at h
  · cases h
  · split at h
    · cases h
      split_ifs <;> rfl
    · split at h
      · cases h
      · cases h
        rfl

lemma transientStorage_sstore {key value : U256} (h : js.sstore db a key value = .ok js') :
    js'.transientStorage = js.transientStorage := by
  unfold sstore at h
  split at h
  · cases h
  · rename_i present js₁ hload
    rw [← transientStorage_sload hload]
    split at h
    · cases h
    · split at h
      · cases h
      · split_ifs at h <;> cases h <;> rfl

lemma transientStorage_setBalanceNonce {balance : U256} {nonce : Nat}
    (h : js.setBalanceNonce (E := Err) a balance nonce = .ok js') :
    js'.transientStorage = js.transientStorage := by
  unfold setBalanceNonce at h
  split at h
  · cases h
  · cases h
    rfl

end JournaledState

/-- A switch hands over none of the transient storage. -/
lemma transientStorage_updateJournaledState (accounts : List Address)
    (active target : JournaledState) :
    (updateJournaledState accounts active target).transientStorage = target.transientStorage :=
  view_foldl_mergeJournaledStateData JournaledState.transientStorage (fun _ _ => rfl) accounts
    active target

/-! ### Whole runs -/

section

variable {Active Err : Type} [DatabaseRef Active Err] {init : JournaledState}
  {s : Running (ForkDb Active)} {m : ForkMemories}

lemma ForkOp.transientStorage_step {op : ForkOp} (hop : op.isSwitch = false) :
    (op.step init s).journaled.transientStorage = s.journaled.transientStorage := by
  cases op with
  | switchFork id => exact (Bool.false_ne_true hop.symm).elim
  | load a =>
    simp only [step, step?]
    cases hrun : s.journaled.loadAccount s.db a with
    | error e => rfl
    | ok js => exact JournaledState.transientStorage_loadAccount hrun
  | sload a key =>
    simp only [step, step?]
    cases hrun : s.journaled.sload s.db a key with
    | error e => rfl
    | ok r => exact JournaledState.transientStorage_sload hrun
  | sstore a key value =>
    simp only [step, step?]
    cases hrun : s.journaled.sstore s.db a key value with
    | error e => rfl
    | ok js => exact JournaledState.transientStorage_sstore hrun
  | setBalanceNonce a balance nonce =>
    simp only [step, step?]
    cases hrun : s.journaled.setBalanceNonce (E := Err) a balance nonce with
    | error e => rfl
    | ok js => exact JournaledState.transientStorage_setBalanceNonce hrun

/-- Each fork reads its own memory. -/
structure HasMemories (init : JournaledState) (s : Running (ForkDb Active)) (m : ForkMemories) :
    Prop where
  activeForkId : s.db.activeForkId = m.active
  active : s.journaled.tload = m.memory m.active
  inactive : ∀ id, id ≠ m.active → ∃ fork, s.db.inactiveForks.lookup id = some fork ∧
    (fork.journaledState.getD init).tload = m.memory id

lemma HasMemories.switchFork (h : HasMemories init s m) (id : ForkId) :
    HasMemories init ((ForkOp.switchFork id).step init s) { m with active := id } := by
  by_cases hid : id = m.active
  · rw [ForkOp.step_switchFork_same (hid.trans h.activeForkId.symm)]
    subst hid
    exact h
  · obtain ⟨fork, hfork, hmemory⟩ := h.inactive id hid
    have hne : id ≠ s.db.activeForkId := fun heq => hid (heq.trans h.activeForkId)
    rw [ForkOp.step_switchFork_other hne hfork]
    refine ⟨rfl, ?_, fun id' hid' => ?_⟩
    · rw [← hmemory]
      exact JournaledState.tload_congr (transientStorage_updateJournaledState _ _ _)
    · have hprev : id' = s.db.activeForkId := forkId_eq_of_ne (Ne.symm hne) hid'
      rw [hprev]
      refine ⟨_, AList.lookup_insert _, ?_⟩
      rw [h.activeForkId]
      exact h.active

lemma HasMemories.step (h : HasMemories init s m) (op : TransientOp) :
    HasMemories init (op.step init s) (m.step op) := by
  cases op with
  | tstore a key value =>
    refine ⟨h.activeForkId, ?_, fun id hid => ?_⟩
    · change (s.journaled.tstore a key value).tload =
        (m.step (.tstore a key value)).memory m.active
      rw [ForkMemories.memory_step_tstore, JournaledState.tload_tstore, h.active]
    · obtain ⟨fork, hfork, hmemory⟩ := h.inactive id hid
      refine ⟨fork, hfork, hmemory.trans ?_⟩
      exact (if_neg hid).symm
  | forkOp op =>
    cases hop : op.isSwitch with
    | true =>
      cases op with
      | switchFork id => exact h.switchFork id
      | _ => exact (Bool.false_ne_true hop).elim
    | false =>
      have hm : m.step (.forkOp op) = m := by
        cases op with
        | switchFork id => exact (Bool.false_ne_true hop.symm).elim
        | _ => rfl
      have hdb : (op.step init s).db = s.db := ForkOp.step_db hop
      rw [hm]
      change HasMemories init (op.step init s) m
      refine ⟨by rw [hdb]; exact h.activeForkId, ?_, by rw [hdb]; exact h.inactive⟩
      rw [← h.active]
      exact JournaledState.tload_congr (ForkOp.transientStorage_step hop)

lemma hasMemories_runAll (it : Iteration) (contract : AssertionContract)
    (preTxDb postTxDb : ForkDb Active) (warm warm' : List Address) (ops : List TransientOp) :
    HasMemories (.new warm)
      (TransientOp.runAll (.new warm) ⟨installed it contract preTxDb postTxDb, .new warm'⟩ ops)
      (ForkMemories.after ops) := by
  unfold TransientOp.runAll
  induction ops using List.reverseRecOn with
  | nil =>
    refine ⟨rfl, rfl, fun id hid => ?_⟩
    cases id with
    | preTx => exact ⟨⟨preTxDb, none⟩, rfl, rfl⟩
    | postTx => exact (hid rfl).elim
  | append_singleton ops op ih =>
    rw [List.foldl_append, ForkMemories.after_append_singleton]
    exact ih.step op

/-- The accounts that write transient storage for an assertion. -/
def assertionAccounts : List Address := [assertionContractAddress, callerAddress]

/-- Wherever the run switches to the other fork, the slots of the assertion's accounts were last
written there with the values that they were last written with in the run. -/
def SwitchesAgree (ops : List TransientOp) : Prop :=
  ∀ before id, before ++ [.forkOp (.switchFork id)] <+: ops →
    id ≠ (ForkMemories.after before).active → ∀ a ∈ assertionAccounts, ∀ key,
      (ForkMemories.after before).memory id a key = flatMemory before a key

lemma flatMemory_append_singleton (ops : List TransientOp) (op : TransientOp) :
    flatMemory (ops ++ [op]) = match op with
      | .tstore a key value => (flatMemory ops).write a key value
      | .forkOp _ => flatMemory ops :=
  List.foldl_append

lemma activeMemory_of_switchesAgree {ops : List TransientOp} (h : SwitchesAgree ops) :
    ∀ a ∈ assertionAccounts, ∀ key,
      (ForkMemories.after ops).memory (ForkMemories.after ops).active a key =
        flatMemory ops a key := by
  induction ops using List.reverseRecOn with
  | nil => exact fun a _ key => rfl
  | append_singleton ops op ih =>
    have hops : SwitchesAgree ops := fun before id hbefore =>
      h before id (hbefore.trans (List.prefix_append ops [op]))
    intro a ha key
    rw [ForkMemories.after_append_singleton, flatMemory_append_singleton]
    cases op with
    | tstore b k value =>
      change ((ForkMemories.after ops).step (.tstore b k value)).memory
        (ForkMemories.after ops).active a key = (flatMemory ops).write b k value a key
      rw [ForkMemories.memory_step_tstore]
      unfold TransientMemory.write
      rw [ih hops a ha key]
    | forkOp op =>
      cases op with
      | switchFork id =>
        change (ForkMemories.after ops).memory id a key = flatMemory ops a key
        by_cases hid : id = (ForkMemories.after ops).active
        · rw [hid]
          exact ih hops a ha key
        · exact h ops id (List.prefix_refl _) hid a ha key
      | _ => exact ih hops a ha key

/-- In every state of a run the assertion contract and the caller read the transient values that
the run last wrote, exactly if the run never switches to a fork that holds another value. -/
theorem transient_storage_follows_iff (it : Iteration) (contract : AssertionContract)
    (preTxDb postTxDb : ForkDb Active) (warm warm' : List Address) (ops : List TransientOp) :
    (∀ before, before <+: ops → ∀ a ∈ assertionAccounts, ∀ key,
      (TransientOp.runAll (.new warm) ⟨installed it contract preTxDb postTxDb, .new warm'⟩
        before).journaled.tload a key = flatMemory before a key) ↔ SwitchesAgree ops := by
  have hread : ∀ before, (TransientOp.runAll (.new warm)
      ⟨installed it contract preTxDb postTxDb, .new warm'⟩ before).journaled.tload =
        (ForkMemories.after before).memory (ForkMemories.after before).active :=
    fun before => (hasMemories_runAll it contract preTxDb postTxDb warm warm' before).active
  simp only [hread]
  constructor
  · intro h before id hbefore _ a ha key
    have hswitched := h _ hbefore a ha key
    rw [ForkMemories.after_append_singleton, flatMemory_append_singleton] at hswitched
    exact hswitched
  · intro h before hbefore
    apply activeMemory_of_switchesAgree
    intro earlier id hearlier
    exact h earlier id (hearlier.trans hbefore)

end

/-- A value that the assertion contract writes is gone after a switch. -/
theorem transient_write_lost :
    let ops : List TransientOp :=
      [.tstore assertionContractAddress 0 5, .forkOp (.switchFork .preTx)]
    let s := TransientOp.runAll (.new [])
      ⟨installed .buckets ⟨9, [], 0, ∅, {}⟩ (.new ()) (.new ()), .new []⟩ ops
    flatMemory ops assertionContractAddress 0 = 5 ∧
      ¬s.journaled.tload assertionContractAddress 0 =
        flatMemory ops assertionContractAddress 0 := by
  intro ops s
  have hflat : flatMemory ops assertionContractAddress 0 = 5 := rfl
  have hread : s.journaled.tload assertionContractAddress 0 = 0 := rfl
  refine ⟨hflat, ?_⟩
  rw [hread, hflat]
  decide

end AssertionExecution
