import AssertionExecution.Proofs.RevertedFrames

/-!
# Loads beside the journal

The load precompile reads the database of the active fork. An `SLOAD` reads the journaled state
above it, where each write of the run to a slot that the fork sees takes the place of the last.
-/

namespace AssertionExecution

open HashMap

section

variable {Active Err : Type} [DatabaseRef Active Err] {s s' : Running (ForkDb Active)}

/-! ### What one operation does to a slot -/

lemma storageValue_congr {a : Address} {key : U256}
    (hlookup : s'.journaled.state.lookup a = s.journaled.state.lookup a)
    (hstored : storageRef s'.db a key = storageRef s.db a key) :
    storageValue s' a key = storageValue s a key := by
  unfold storageValue
  rw [hlookup, hstored]

lemma storageValue_tracked {a : Address} {key : U256}
    (htracked : s'.journaled.tracked a = s.journaled.tracked a)
    (hstored : storageRef s'.db a key = storageRef s.db a key) :
    storageValue s' a key = storageValue s a key := by
  unfold storageValue
  rw [hstored]
  cases haccount : s.journaled.state.lookup a with
  | none =>
    rw [JournaledState.tracked_eq_none haccount] at htracked
    rw [Option.map_eq_none_iff.mp htracked]
  | some account =>
    rw [JournaledState.tracked_eq_some haccount] at htracked
    obtain ⟨account', haccount', hentry⟩ := Option.map_eq_some_iff.mp htracked
    have hslot : account'.storage.lookup key = account.storage.lookup key :=
      congrFun (congrArg TrackedAccount.slots hentry) key
    have hstatus : account'.status = account.status := congrArg TrackedAccount.status hentry
    rw [haccount']
    dsimp only
    rw [hslot, Account.isCreated, Account.isCreated, hstatus]

def Account.slotOr (account : Account) (key : U256) (stored : Except Err U256) : Except Err U256 :=
  match account.storage.lookup key with
  | some slot => .ok slot.presentValue
  | none => if account.isCreated then .ok 0 else stored

lemma Account.slotOr_insert (account : Account) (k key : U256) (slot : EvmStorageSlot)
    (stored : Except Err U256) :
    ({ account with storage := account.storage.insert k slot } : Account).slotOr key stored =
      if key = k then .ok slot.presentValue else account.slotOr key stored := by
  unfold slotOr
  rw [lookup_insert_ite]
  by_cases h : key = k
  · rw [if_pos h, if_pos h]
  · rw [if_neg h, if_neg h]
    rfl

lemma storageValue_of_some {a : Address} {account : Account}
    (h : s.journaled.state.lookup a = some account) (key : U256) :
    storageValue s a key = account.slotOr key (storageRef s.db a key) := by
  unfold storageValue
  rw [h]
  rfl

lemma storageValue_of_none {a : Address} (h : s.journaled.state.lookup a = none) (key : U256) :
    storageValue s a key = storageRef s.db a key := by
  unfold storageValue
  rw [h]

variable {db : MultiForkDb (ForkDb Active)} {js js' : JournaledState} {b : Address}

lemma storageValue_setAccount (account : Account) (a : Address) (key : U256) :
    storageValue ⟨db, js.setAccount b account⟩ a key =
      if a = b then account.slotOr key (storageRef db a key) else storageValue ⟨db, js⟩ a key := by
  have hlookup : (js.setAccount b account).state.lookup a =
      if a = b then some account else js.state.lookup a := lookup_insert_ite _ _ _ _
  by_cases h : a = b
  · rw [if_pos h] at hlookup ⊢
    exact storageValue_of_some hlookup key
  · rw [if_neg h] at hlookup ⊢
    exact storageValue_congr hlookup rfl

lemma storageValue_push (entry : JournalEntry) (a : Address) (key : U256) :
    storageValue ⟨db, js.push entry⟩ a key = storageValue ⟨db, js⟩ a key :=
  storageValue_congr rfl rfl

lemma storageValue_loadAccount (h : js.loadAccount db b = .ok js') (a : Address) (key : U256) :
    storageValue ⟨db, js'⟩ a key = storageValue ⟨db, js⟩ a key := by
  unfold JournaledState.loadAccount at h
  cases haccount : js.state.lookup b with
  | some account =>
    rw [haccount] at h
    have hwarmed : storageValue ⟨db, js.setAccount b
        { account with status := { account.status with cold := false } }⟩ a key =
          storageValue ⟨db, js⟩ a key := by
      rw [storageValue_setAccount]
      by_cases ha : a = b
      · subst ha
        rw [if_pos rfl, storageValue_of_some haccount]
        rfl
      · rw [if_neg ha]
    dsimp only at h
    split_ifs at h
    · cases h
      rw [storageValue_push, hwarmed]
    · cases h
      exact hwarmed
  | none =>
    rw [haccount] at h
    dsimp only at h
    cases hinfo : basicRef db b with
    | error e =>
      rw [hinfo] at h
      cases h
    | ok info =>
      rw [hinfo] at h
      have hloaded : ∀ account : Account, account.storage = ∅ → account.isCreated = false →
          storageValue ⟨db, js.setAccount b account⟩ a key = storageValue ⟨db, js⟩ a key := by
        intro account hstorage hcreated
        rw [storageValue_setAccount]
        by_cases ha : a = b
        · subst ha
          rw [if_pos rfl, storageValue_of_none haccount, Account.slotOr, hstorage,
            AList.lookup_empty, hcreated]
          rfl
        · rw [if_neg ha]
      dsimp only at h
      split_ifs at h
      · cases h
        cases info <;> exact hloaded _ rfl rfl
      · cases h
        rw [storageValue_push]
        cases info <;> exact hloaded _ rfl rfl

lemma storageValue_sload {k value : U256} (h : js.sload db b k = .ok (value, js')) :
    storageValue ⟨db, js⟩ b k = .ok value ∧
      ∀ a key, storageValue ⟨db, js'⟩ a key = storageValue ⟨db, js⟩ a key := by
  unfold JournaledState.sload at h
  cases haccount : js.state.lookup b with
  | none =>
    rw [haccount] at h
    cases h
  | some account =>
    rw [haccount] at h
    have hbefore := storageValue_of_some (s := ⟨db, js⟩) haccount
    -- The slot is put in its account with the value that reads of it returned before.
    have htracked : ∀ slot : EvmStorageSlot, storageValue ⟨db, js⟩ b k = .ok slot.presentValue →
        ∀ a key, storageValue ⟨db, js.setAccount b
          { account with storage := account.storage.insert k slot }⟩ a key =
            storageValue ⟨db, js⟩ a key := by
      intro slot hslot a key
      rw [storageValue_setAccount]
      by_cases ha : a = b
      · subst ha
        rw [if_pos rfl, Account.slotOr_insert]
        by_cases hkey : key = k
        · rw [if_pos hkey, hkey, hslot]
        · rw [if_neg hkey, hbefore]
      · rw [if_neg ha]
    dsimp only at h
    cases hslot : account.storage.lookup k with
    | some slot =>
      have hvalue : storageValue ⟨db, js⟩ b k = .ok slot.presentValue := by
        rw [hbefore, Account.slotOr, hslot]
      rw [hslot] at h
      dsimp only at h
      split_ifs at h
      · cases h
        refine ⟨hvalue, fun a key => ?_⟩
        rw [storageValue_push]
        exact htracked { slot with isCold := false } hvalue a key
      · cases h
        exact ⟨hvalue, htracked { slot with isCold := false } hvalue⟩
    | none =>
      rw [hslot] at h
      dsimp only at h
      have hvalue : storageValue ⟨db, js⟩ b k =
          if account.isCreated then .ok 0 else storageRef db b k := by
        rw [hbefore, Account.slotOr, hslot]
      cases hstored : (if account.isCreated then Except.ok 0 else storageRef db b k) with
      | error e =>
        rw [hstored] at h
        cases h
      | ok stored =>
        rw [hstored] at h hvalue
        cases h
        refine ⟨hvalue, fun a key => ?_⟩
        rw [storageValue_push]
        exact htracked (.new value) hvalue a key

lemma storageValue_sstore {k value : U256} (h : js.sstore db b k value = .ok js') (a : Address)
    (key : U256) :
    storageValue ⟨db, js'⟩ a key =
      if a = b ∧ key = k then .ok value else storageValue ⟨db, js⟩ a key := by
  unfold JournaledState.sstore at h
  cases hload : js.sload db b k with
  | error e =>
    rw [hload] at h
    cases h
  | ok r =>
    obtain ⟨present, js₁⟩ := r
    obtain ⟨hpresent, hsame⟩ := storageValue_sload hload
    rw [hload] at h
    dsimp only at h
    cases haccount : js₁.state.lookup b with
    | none =>
      rw [haccount] at h
      cases h
    | some account =>
      rw [haccount] at h
      dsimp only at h
      cases hslot : account.storage.lookup k with
      | none =>
        rw [hslot] at h
        cases h
      | some slot =>
        rw [hslot] at h
        dsimp only at h
        by_cases hvalue : present = value
        · rw [if_pos hvalue] at h
          cases h
          rw [hsame]
          by_cases hab : a = b ∧ key = k
          · rw [if_pos hab, hab.1, hab.2, hpresent, hvalue]
          · rw [if_neg hab]
        · rw [if_neg hvalue] at h
          cases h
          rw [storageValue_setAccount]
          by_cases ha : a = b
          · subst ha
            rw [if_pos rfl, Account.slotOr_insert]
            by_cases hkey : key = k
            · rw [if_pos hkey, if_pos ⟨rfl, hkey⟩]
            · have hab : ¬(a = a ∧ key = k) := fun hab => hkey hab.2
              rw [if_neg hkey, if_neg hab, ← hsame, storageValue_of_some haccount]
          · rw [if_neg ha, if_neg fun hab => ha hab.1, storageValue_push, hsame]

lemma storageValue_setBalanceNonce {balance : U256} {nonce : Nat}
    (h : js.setBalanceNonce (E := Err) b balance nonce = .ok js') (a : Address) (key : U256) :
    storageValue ⟨db, js'⟩ a key = storageValue ⟨db, js⟩ a key := by
  unfold JournaledState.setBalanceNonce at h
  cases haccount : js.state.lookup b with
  | none =>
    rw [haccount] at h
    cases h
  | some account =>
    rw [haccount] at h
    cases h
    rw [storageValue_setAccount]
    by_cases ha : a = b
    · subst ha
      rw [if_pos rfl, storageValue_of_some haccount]
      rfl
    · rw [if_neg ha]

end

/-! ### The writes of a run -/

/-- A write that succeeded, and the fork that was active. -/
structure ForkWrite where
  fork : ForkId
  address : Address
  key : U256
  value : U256
deriving DecidableEq, Repr

/-- A fork sees its own writes and those to the persistent accounts. -/
def ForkWrite.SeenBy (fork : ForkId) (a : Address) (key : U256) (w : ForkWrite) : Prop :=
  w.address = a ∧ w.key = key ∧ (a ∈ defaultPersistentAccounts ∨ w.fork = fork)

instance (fork : ForkId) (a : Address) (key : U256) (w : ForkWrite) :
    Decidable (w.SeenBy fork a key) :=
  inferInstanceAs (Decidable (_ ∧ _ ∧ _))

/-- The value last written to a slot, as a fork sees it. -/
def lastSeen (fork : ForkId) (a : Address) (key : U256) (writes : List ForkWrite) : Option U256 :=
  (writes.filter (ForkWrite.SeenBy fork a key)).getLast?.map ForkWrite.value

lemma lastSeen_append (fork : ForkId) (a : Address) (key : U256) (writes later : List ForkWrite) :
    lastSeen fork a key (writes ++ later) =
      (lastSeen fork a key later).or (lastSeen fork a key writes) := by
  unfold lastSeen
  rw [List.filter_append, List.getLast?_append]
  cases (later.filter (ForkWrite.SeenBy fork a key)).getLast? <;> rfl

lemma lastSeen_singleton (fork : ForkId) (a : Address) (key : U256) (w : ForkWrite) :
    lastSeen fork a key [w] = if w.SeenBy fork a key then some w.value else none := by
  unfold lastSeen
  by_cases h : w.SeenBy fork a key <;> simp [h]

section

variable {Active Err : Type} [DatabaseRef Active Err] (init : JournaledState)

def ForkOp.forkWrite (s : Running (ForkDb Active)) (op : ForkOp) : Option ForkWrite :=
  match op with
  | sstore a key value => (op.step? init s).map fun _ => ⟨s.db.activeForkId, a, key, value⟩
  | _ => none

def forkWrites : Running (ForkDb Active) → List ForkOp → List ForkWrite
  | _, [] => []
  | s, op :: ops => (op.forkWrite init s).toList ++ forkWrites (op.step init s) ops

variable {init} {s : Running (ForkDb Active)}

/-- An operation other than a switch changes what reads return by its write only. -/
lemma ForkOp.storageValue_step {op : ForkOp} (hop : op.isSwitch = false) (a : Address)
    (key : U256) :
    storageValue (op.step init s) a key =
      ((op.forkWrite init s).bind fun w =>
        if w.address = a ∧ w.key = key then some w.value else none).elim
        (storageValue s a key) .ok := by
  cases op with
  | switchFork id => exact (Bool.false_ne_true hop.symm).elim
  | load b =>
    simp only [step, step?, forkWrite]
    cases hrun : s.journaled.loadAccount s.db b with
    | error e => rfl
    | ok js => exact storageValue_loadAccount hrun a key
  | sload b k =>
    simp only [step, step?, forkWrite]
    cases hrun : s.journaled.sload s.db b k with
    | error e => rfl
    | ok r => exact (storageValue_sload hrun).2 a key
  | sstore b k value =>
    simp only [step, step?, forkWrite]
    cases hrun : s.journaled.sstore s.db b k value with
    | error e => rfl
    | ok js =>
      refine (storageValue_sstore hrun a key).trans ?_
      by_cases hab : a = b ∧ key = k
      · obtain ⟨rfl, rfl⟩ := hab
        simp [Except.toOption]
      · have hba : ¬(b = a ∧ k = key) := fun h => hab ⟨h.1.symm, h.2.symm⟩
        simp [Except.toOption, hab, hba]
  | setBalanceNonce b balance nonce =>
    simp only [step, step?, forkWrite]
    cases hrun : s.journaled.setBalanceNonce (E := Err) b balance nonce with
    | error e => rfl
    | ok js => exact storageValue_setBalanceNonce hrun a key

end

/-! ### Whole runs -/

section

variable {Active Err : Type} [DatabaseRef Active Err]

/-- A fork under the layer that a run starts with. -/
def underLayer (start : MultiForkDb (ForkDb Active)) (preTxDb postTxDb : ForkDb Active)
    (id : ForkId) : MultiForkDb (ForkDb Active) :=
  { start with activeDb := { start.activeDb with innerDb := forkDbOf preTxDb postTxDb id } }

/-- Reads of either fork return what was last written as the fork sees it, or what its database
holds. The persistent accounts of the inactive fork are handed over only at the next switch. -/
structure Followed (start : MultiForkDb (ForkDb Active)) (preTxDb postTxDb : ForkDb Active)
    (warm : List Address) (s : Running (ForkDb Active)) (writes : List ForkWrite) : Prop where
  shared : Shared start s
  layer : s.db.activeDb = (underLayer start preTxDb postTxDb s.db.activeForkId).activeDb
  active : ∀ a key, storageValue s a key =
    (lastSeen s.db.activeForkId a key writes).elim (storageRef s.db a key) .ok
  inactive : ∀ id, id ≠ s.db.activeForkId → ∃ fork, s.db.inactiveForks.lookup id = some fork ∧
    fork.db = forkDbOf preTxDb postTxDb id ∧
    ∀ a, a ∉ defaultPersistentAccounts → ∀ key,
      storageValue ⟨underLayer start preTxDb postTxDb id, fork.journaledState.getD (.new warm)⟩ a
          key =
        (lastSeen id a key writes).elim
          (storageRef (underLayer start preTxDb postTxDb id) a key) .ok

variable {start : MultiForkDb (ForkDb Active)} {preTxDb postTxDb : ForkDb Active}
  {warm : List Address} {s : Running (ForkDb Active)} {writes : List ForkWrite}

lemma Followed.storageRef_eq (h : Followed start preTxDb postTxDb warm s writes) (a : Address)
    (key : U256) :
    storageRef s.db a key =
      storageRef (underLayer start preTxDb postTxDb s.db.activeForkId) a key := by
  change storageRef s.db.activeDb a key = _
  rw [h.layer]
  rfl

lemma Followed.operate (h : Followed start preTxDb postTxDb warm s writes)
    (hhidden : HidesForks start) {op : ForkOp} (hop : op.isSwitch = false) :
    Followed start preTxDb postTxDb warm (op.step (.new warm) s)
      (writes ++ (op.forkWrite (.new warm) s).toList) := by
  have hdb : (op.step (.new warm) s).db = s.db := ForkOp.step_db hop
  have hwrite : ∀ w, op.forkWrite (.new warm) s = some w → w.fork = s.db.activeForkId := by
    intro w hw
    cases op with
    | sstore a key value =>
      obtain ⟨-, -, rfl⟩ := Option.map_eq_some_iff.mp hw
      rfl
    | _ => cases hw
  refine ⟨(h.shared.step warm hhidden op).1, by rw [hdb]; exact h.layer, ?_, ?_⟩
  · intro a key
    rw [ForkOp.storageValue_step hop, h.active, hdb, lastSeen_append]
    cases hw : op.forkWrite (.new warm) s with
    | none => rfl
    | some w =>
      have hseen : w.SeenBy s.db.activeForkId a key ↔ w.address = a ∧ w.key = key := by
        unfold ForkWrite.SeenBy
        rw [hwrite w hw]
        simp
      rw [Option.toList_some, lastSeen_singleton, Option.bind_some]
      by_cases hsame : w.address = a ∧ w.key = key
      · rw [if_pos hsame, if_pos (hseen.mpr hsame)]
        rfl
      · rw [if_neg hsame, if_neg fun hw => hsame (hseen.mp hw)]
        rfl
  · rw [hdb]
    intro id hid
    obtain ⟨fork, hfork, hinner, hreads⟩ := h.inactive id hid
    refine ⟨fork, hfork, hinner, fun a ha key => ?_⟩
    rw [hreads a ha key, lastSeen_append]
    cases hw : op.forkWrite (.new warm) s with
    | none => rfl
    | some w =>
      have hunseen : ¬w.SeenBy id a key := by
        rintro ⟨-, -, hpersistent | hfork⟩
        · exact ha hpersistent
        · exact hid (hfork.symm.trans (hwrite w hw))
      rw [Option.toList_some, lastSeen_singleton, if_neg hunseen, Option.none_or]

lemma Followed.switchFork (h : Followed start preTxDb postTxDb warm s writes)
    (hhidden : HidesForks start) {id : ForkId} (hid : id ≠ s.db.activeForkId) :
    Followed start preTxDb postTxDb warm ((ForkOp.switchFork id).step (.new warm) s) writes := by
  obtain ⟨fork, hfork, hinner, hreads⟩ := h.inactive id hid
  have hshared := (h.shared.step warm hhidden (.switchFork id)).1
  obtain ⟨db, js, hrun, -, hsame⟩ := h.shared.switchFork warm id
  have hjs : js = updateJournaledState defaultPersistentAccounts s.journaled
      (fork.journaledState.getD (.new warm)) := by
    rw [MultiForkDb.switchFork, if_neg hid, hfork] at hrun
    cases hrun
    rfl
  have hlayer : (s.db.activeDb.replaceInnerDb fork.db).1 =
      (underLayer start preTxDb postTxDb id).activeDb := by
    rw [ForkDb.replaceInnerDb, h.layer, hinner]
    rfl
  rw [ForkOp.step_switchFork_other hid hfork] at hshared ⊢
  refine ⟨hshared, hlayer, fun a key => ?_, fun id' hid' => ?_⟩
  · by_cases ha : a ∈ defaultPersistentAccounts
    · obtain ⟨m, hm, hhide⟩ := hhidden a ha
      have hstored : storageRef s.db a key = .ok ((m.map.lookup key).getD 0) :=
        h.shared.storageRef_eq hm hhide key
      have hseen : lastSeen id a key writes = lastSeen s.db.activeForkId a key writes := by
        unfold lastSeen ForkWrite.SeenBy
        simp [ha]
      rw [hshared.storageRef_eq hm hhide key, ← hstored, hseen, ← h.active]
      apply storageValue_tracked
      · rw [← hsame a ha, hjs]
      · rw [hstored]
        exact hshared.storageRef_eq hm hhide key
    · have hstored : ∀ other : HashMap ForkId (Fork (ForkDb Active)), storageRef
          (⟨(s.db.activeDb.replaceInnerDb fork.db).1, id, other⟩ : MultiForkDb (ForkDb Active)) a
            key = storageRef (underLayer start preTxDb postTxDb id) a key := by
        intro other
        change storageRef (s.db.activeDb.replaceInnerDb fork.db).1 a key = _
        rw [hlayer]
        rfl
      rw [hstored, ← hreads a ha key]
      exact storageValue_congr (lookup_updateJournaledState _ _ ha) (hstored _)
  · have hprev : id' = s.db.activeForkId := forkId_eq_of_ne (Ne.symm hid) hid'
    subst hprev
    refine ⟨_, AList.lookup_insert _, ?_, fun a ha key => ?_⟩
    · change s.db.activeDb.innerDb = _
      rw [h.layer]
      rfl
    · rw [← h.storageRef_eq, ← h.active]
      exact storageValue_congr rfl (h.storageRef_eq a key).symm

lemma Followed.runAll (h : Followed start preTxDb postTxDb warm s writes)
    (hhidden : HidesForks start) (ops : List ForkOp) :
    Followed start preTxDb postTxDb warm (ForkOp.runAll (.new warm) s ops)
      (writes ++ forkWrites (.new warm) s ops) := by
  induction ops generalizing s writes with
  | nil =>
    rw [forkWrites, List.append_nil]
    exact h
  | cons op ops ih =>
    have hstep : Followed start preTxDb postTxDb warm (op.step (.new warm) s)
        (writes ++ (op.forkWrite (.new warm) s).toList) := by
      cases hop : op.isSwitch with
      | false => exact h.operate hhidden hop
      | true =>
        cases op with
        | switchFork id =>
          have hnone : (ForkOp.switchFork id).forkWrite (.new warm) s = none := rfl
          rw [hnone, Option.toList_none, List.append_nil]
          by_cases hid : id = s.db.activeForkId
          · rw [ForkOp.step_switchFork_same hid]
            exact h
          · exact h.switchFork hhidden hid
        | _ => exact (Bool.false_ne_true hop).elim
    rw [forkWrites, ← List.append_assoc]
    exact ih hstep

lemma followed_start (it : Iteration) (contract : AssertionContract)
    (preTxDb postTxDb : ForkDb Active) (warm warm' : List Address) :
    Followed (installed it contract preTxDb postTxDb) preTxDb postTxDb warm
      ⟨installed it contract preTxDb postTxDb, .new warm'⟩ [] := by
  refine ⟨⟨rfl, rfl, fun id hid => ?_⟩, installed_layer it contract preTxDb postTxDb,
    fun a key => rfl, fun id hid => ?_⟩
  · cases id with
    | preTx => exact ⟨⟨preTxDb, none⟩, rfl, fun js hjs => (Option.some_ne_none js hjs.symm).elim⟩
    | postTx => exact (hid rfl).elim
  · cases id with
    | preTx => exact ⟨⟨preTxDb, none⟩, rfl, rfl, fun a _ key => rfl⟩
    | postTx => exact (hid rfl).elim

/-! ### Loads -/

/-- What a load returns for an answer of the database. -/
def loadOutput (answer : Except Err U256) : Bytes :=
  match answer with
  | .ok value => toBytes 32 value.toNat
  | .error _ => []

lemma loadOutput_ok_eq_iff (answer : Except Err U256) (value : U256) :
    loadOutput answer = loadOutput (.ok value : Except Err U256) ↔ answer = .ok value := by
  constructor
  · intro h
    cases answer with
    | error e =>
      have hlength : ([] : Bytes).length = (toBytes 32 value.toNat).length := congrArg List.length h
      rw [length_toBytes, List.length_nil] at hlength
      omega
    | ok value' =>
      have hvalue := AbiArgs.ofNat_ofBytes_toBytes (n := 256) (m := 32) (by decide) value'
      have hbytes : toBytes 32 value'.toNat = toBytes 32 value.toNat := h
      rw [hbytes, AbiArgs.ofNat_ofBytes_toBytes (by decide)] at hvalue
      rw [hvalue]
  · rintro rfl
    rfl

lemma loadExternalSlot_eq (db : MultiForkDb (ForkDb Active)) (target : Address) (slot : U256) :
    loadExternalSlot db (loadCall.abiEncode (target, slot)) =
      loadOutput (storageRef db target slot) := by
  have hdecode : loadCall.abiDecode (loadCall.abiEncode (target, slot)) = some (target, slot) :=
    ((SolCall.ofArgs_lawful 0x667f9d70 (.pair .address .bytes32)).decode_iff _ _).mpr rfl
  unfold loadExternalSlot
  rw [hdecode]
  change (match storageRef db target slot with
    | .ok value => toBytes 32 value.toNat
    | .error _ => []) = _
  unfold loadOutput
  rfl

/-- A load returns what the active fork's database holds, below the layer of the persistent
accounts. An `SLOAD` returns the same exactly if the last write of the run to the slot, as the
fork sees it, wrote what the database holds, or there is none. -/
theorem load_reads_database (it : Iteration) (contract : AssertionContract)
    (preTxDb postTxDb : ForkDb Active) (warm warm' : List Address) (ops : List ForkOp)
    (target : Address) (slot : U256) :
    let start : Running (ForkDb Active) :=
      ⟨installed it contract preTxDb postTxDb, .new warm'⟩
    let s := ForkOp.runAll (.new warm) start ops
    let stored : Except Err U256 :=
      if target ∈ defaultPersistentAccounts then storageRef start.db target slot
      else storageRef (forkDbOf preTxDb postTxDb s.db.activeForkId) target slot
    loadExternalSlot s.db (loadCall.abiEncode (target, slot)) = loadOutput stored ∧
    (∀ value js, s.journaled.sload s.db target slot = .ok (value, js) →
      storageValue s target slot = .ok value) ∧
    (loadExternalSlot s.db (loadCall.abiEncode (target, slot)) =
        loadOutput (storageValue s target slot) ↔
      ∀ value, lastSeen s.db.activeForkId target slot (forkWrites (.new warm) start ops) =
        some value → stored = .ok value) := by
  intro start s stored
  have hhidden : HidesForks (installed it contract preTxDb postTxDb) :=
    installed_hidden it contract preTxDb postTxDb
  have hstart := followed_start it contract preTxDb postTxDb warm warm'
  have hrun := hstart.runAll hhidden ops
  have hstored : storageRef s.db target slot = stored := by
    by_cases ha : target ∈ defaultPersistentAccounts
    · obtain ⟨m, hm, hhide⟩ := hhidden target ha
      rw [show stored = storageRef start.db target slot from if_pos ha,
        hrun.shared.storageRef_eq hm hhide, hstart.shared.storageRef_eq hm hhide]
    · rw [show stored = _ from if_neg ha, hrun.storageRef_eq]
      exact ForkDb.storageRef_of_none
        (underLayer start.db preTxDb postTxDb s.db.activeForkId).activeDb
        (installed_frame it contract preTxDb postTxDb ha).2 slot
  rw [loadExternalSlot_eq, hstored]
  refine ⟨rfl, fun value js hload => (storageValue_sload hload).1, ?_⟩
  rw [hrun.active, hstored, List.nil_append]
  cases lastSeen s.db.activeForkId target slot (forkWrites (.new warm) start ops) with
  | none => simp
  | some value =>
    rw [Option.elim_some, loadOutput_ok_eq_iff]
    simp

end

/-- After a write to account 7, which holds zeros in the database, a load still returns zero. -/
theorem load_misses_write :
    let start : Running (ForkDb Unit) :=
      ⟨installed .buckets ⟨9, [], 0, ∅, {}⟩ (.new ()) (.new ()), .new []⟩
    let s := ForkOp.runAll (.new []) start [.load 7, .sstore 7 0 5]
    storageValue s 7 0 = .ok 5 ∧
      ¬loadExternalSlot s.db (loadCall.abiEncode (7, 0)) = loadOutput (storageValue s 7 0) := by
  intro start s
  have hvalue : storageValue s 7 0 = .ok 5 := rfl
  have hstored : storageRef s.db 7 0 = .ok 0 := rfl
  refine ⟨hvalue, fun h => ?_⟩
  rw [loadExternalSlot_eq, hvalue, loadOutput_ok_eq_iff, hstored] at h
  cases h

end AssertionExecution
