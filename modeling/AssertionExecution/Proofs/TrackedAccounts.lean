import AssertionExecution.Proofs.ForkIsolation

/-!
# Accounts as a journaled state tracks them

A tracked account forgets how its slots are ordered. Loads, reads and writes act on the
tracked account they name as functions of it, and leave the others alone.
-/

namespace AssertionExecution

open HashMap

/-- What a journaled state knows of an account. -/
structure TrackedAccount where
  info : AccountInfo
  status : AccountStatus
  slots : U256 → Option EvmStorageSlot

namespace TrackedAccount

def warm (t : TrackedAccount) : TrackedAccount :=
  { t with status := { t.status with cold := false } }

def loaded : Option AccountInfo → TrackedAccount
  | some info => ⟨info, {}, fun _ => none⟩
  | none => ⟨.default, { loadedAsNotExisting := true }, fun _ => none⟩

/-- The slot that a read leaves, given what the database holds. -/
def readSlot (stored : U256) (t : TrackedAccount) (key : U256) : EvmStorageSlot :=
  match t.slots key with
  | some slot => { slot with isCold := false }
  | none => .new (if t.status.created then 0 else stored)

def sload (stored key : U256) (t : TrackedAccount) : TrackedAccount :=
  { t with slots := Function.update t.slots key (some (t.readSlot stored key)) }

def sstore (stored key value : U256) (t : TrackedAccount) : TrackedAccount :=
  { t with
    slots := Function.update t.slots key
      (some { t.readSlot stored key with presentValue := value }) }

def setBalanceNonce (balance : U256) (nonce : Nat) (t : TrackedAccount) : TrackedAccount :=
  { t with
    info := { t.info with balance := balance, nonce := nonce }
    status := { t.status with touched := true } }

end TrackedAccount

namespace JournaledState

def tracked (js : JournaledState) (a : Address) : Option TrackedAccount :=
  (js.state.lookup a).map fun acc => ⟨acc.info, acc.status, fun key => acc.storage.lookup key⟩

@[simp] lemma tracked_new (warm : List Address) (a : Address) : (new warm).tracked a = none := rfl

@[simp] lemma tracked_push (js : JournaledState) (entry : JournalEntry) (a : Address) :
    (js.push entry).tracked a = js.tracked a := rfl

@[simp] lemma tracked_setAccount (js : JournaledState) (a b : Address) (acc : Account) :
    (js.setAccount a acc).tracked b =
      if b = a then some ⟨acc.info, acc.status, fun key => acc.storage.lookup key⟩
      else js.tracked b := by
  unfold tracked setAccount
  rw [lookup_insert_ite]
  split_ifs <;> rfl

/-- The only difference between the states is the tracked account. -/
def Tracks (js js' : JournaledState) (a : Address) (t : TrackedAccount) : Prop :=
  ∀ b, js'.tracked b = if b = a then some t else js.tracked b

lemma tracked_eq_some {js : JournaledState} {a : Address} {acc : Account}
    (h : js.state.lookup a = some acc) :
    js.tracked a = some ⟨acc.info, acc.status, fun key => acc.storage.lookup key⟩ := by
  rw [tracked, h, Option.map_some]

lemma tracked_eq_none {js : JournaledState} {a : Address} (h : js.state.lookup a = none) :
    js.tracked a = none := by
  rw [tracked, h, Option.map_none]

variable {D E : Type} [DatabaseRef D E] {db : D} {js : JournaledState} {a : Address}

lemma loadAccount_tracked (db : D) {t : TrackedAccount} (h : js.tracked a = some t) :
    ∃ js', js.loadAccount db a = .ok js' ∧ Tracks js js' a t.warm := by
  obtain ⟨acc, hacc, rfl⟩ := Option.map_eq_some_iff.mp h
  unfold loadAccount
  rw [hacc]
  refine ⟨_, rfl, fun b => ?_⟩
  split_ifs with hcold <;> simp_all [TrackedAccount.warm]

lemma loadAccount_untracked (db : D) (h : js.tracked a = none) :
    (∃ e, basicRef db a = .error e ∧ js.loadAccount db a = .error (.database e)) ∨
    ∃ info js', basicRef db a = .ok info ∧ js.loadAccount db a = .ok js' ∧
      Tracks js js' a (.loaded info) := by
  have hnone : js.state.lookup a = none := Option.map_eq_none_iff.mp h
  unfold loadAccount
  rw [hnone]
  cases hbasic : basicRef db a with
  | error e => exact Or.inl ⟨e, rfl, rfl⟩
  | ok info =>
    refine Or.inr ⟨info, _, rfl, rfl, fun b => ?_⟩
    cases info <;> split_ifs <;>
      simp_all [TrackedAccount.loaded, Account.ofInfo, Account.newNotExisting]

lemma sload_untracked (h : js.tracked a = none) (key : U256) :
    js.sload db a key = .error .accountNotLoaded := by
  unfold sload
  rw [Option.map_eq_none_iff.mp h]

lemma lookup_insert_eq_update (storage : EvmStorage) (key : U256) (slot : EvmStorageSlot) :
    (fun k => (storage.insert key slot).lookup k) =
      Function.update (fun k => storage.lookup k) key (some slot) := by
  funext k
  rw [lookup_insert_ite, Function.update_apply]

/-- A read returns the value of the slot it leaves. -/
lemma sload_tracked {t : TrackedAccount} (h : js.tracked a = some t) {key stored : U256}
    (hstored : storageRef db a key = .ok stored) :
    ∃ js', js.sload db a key = .ok ((t.readSlot stored key).presentValue, js') ∧
      Tracks js js' a (t.sload stored key) := by
  obtain ⟨acc, hacc, rfl⟩ := Option.map_eq_some_iff.mp h
  unfold sload TrackedAccount.sload TrackedAccount.readSlot
  rw [hacc]
  dsimp only
  cases hslot : acc.storage.lookup key with
  | some slot =>
    refine ⟨_, rfl, fun b => ?_⟩
    split_ifs <;> simp_all [lookup_insert_eq_update]
  | none =>
    have hvalue : (if acc.isCreated then Except.ok 0 else storageRef db a key) =
        Except.ok (ε := E) (if acc.status.created then 0 else stored) := by
      rw [hstored, Account.isCreated]
      split_ifs <;> rfl
    dsimp only
    rw [hvalue]
    refine ⟨_, rfl, fun b => ?_⟩
    rw [tracked_push, tracked_setAccount, lookup_insert_eq_update]

lemma sstore_untracked (h : js.tracked a = none) (key value : U256) :
    js.sstore db a key value = .error .accountNotLoaded := by
  unfold sstore
  rw [sload_untracked h]

/-- A write reads the slot and replaces its value. -/
lemma sstore_tracked {t : TrackedAccount} (h : js.tracked a = some t) {key stored : U256}
    (hstored : storageRef db a key = .ok stored) (value : U256) :
    ∃ js', js.sstore db a key value = .ok js' ∧ Tracks js js' a (t.sstore stored key value) := by
  obtain ⟨js₁, hload, htracks⟩ := sload_tracked h hstored
  have htracked : js₁.tracked a = some (t.sload stored key) := (htracks a).trans (if_pos rfl)
  obtain ⟨acc, hacc, hentry⟩ := Option.map_eq_some_iff.mp htracked
  have hslots : (fun k => acc.storage.lookup k) =
      Function.update t.slots key (some (t.readSlot stored key)) :=
    congrArg TrackedAccount.slots hentry
  have hinfo : acc.info = t.info := congrArg TrackedAccount.info hentry
  have hstatus : acc.status = t.status := congrArg TrackedAccount.status hentry
  have hslot : acc.storage.lookup key = some (t.readSlot stored key) := by
    rw [congrFun hslots key, Function.update_self]
  unfold sstore
  rw [hload]
  dsimp only
  rw [hacc]
  dsimp only
  rw [hslot]
  dsimp only
  by_cases hvalue : (t.readSlot stored key).presentValue = value
  · rw [if_pos hvalue]
    refine ⟨js₁, rfl, fun b => ?_⟩
    rw [htracks b, TrackedAccount.sload, TrackedAccount.sstore, ← hvalue]
  · rw [if_neg hvalue]
    refine ⟨_, rfl, fun b => ?_⟩
    rw [tracked_setAccount, lookup_insert_eq_update, hslots, Function.update_idem, hinfo, hstatus,
      tracked_push, htracks b]
    split_ifs <;> rfl

lemma setBalanceNonce_untracked (h : js.tracked a = none) (balance : U256) (nonce : Nat) :
    js.setBalanceNonce (E := E) a balance nonce = .error .accountNotLoaded := by
  unfold setBalanceNonce
  rw [Option.map_eq_none_iff.mp h]

lemma setBalanceNonce_tracked {t : TrackedAccount} (h : js.tracked a = some t) (balance : U256)
    (nonce : Nat) :
    ∃ js', js.setBalanceNonce (E := E) a balance nonce = .ok js' ∧
      Tracks js js' a (t.setBalanceNonce balance nonce) := by
  obtain ⟨acc, hacc, rfl⟩ := Option.map_eq_some_iff.mp h
  unfold setBalanceNonce
  rw [hacc]
  refine ⟨_, rfl, fun b => ?_⟩
  rw [tracked_setAccount]
  rfl

/-! ### Frames -/

variable {js' : JournaledState} {b : Address}

lemma loadAccount_frame (hb : b ≠ a) (h : js.loadAccount db a = .ok js') :
    js'.tracked b = js.tracked b := by
  cases ht : js.tracked a with
  | some t =>
    obtain ⟨js₁, hrun, htracks⟩ := loadAccount_tracked db ht
    rw [hrun] at h
    cases h
    rw [htracks b, if_neg hb]
  | none =>
    rcases loadAccount_untracked db ht with ⟨e, -, hrun⟩ | ⟨info, js₁, -, hrun, htracks⟩
    · rw [hrun] at h
      cases h
    · rw [hrun] at h
      cases h
      rw [htracks b, if_neg hb]

lemma sload_frame (hb : b ≠ a) {key value : U256} (h : js.sload db a key = .ok (value, js')) :
    js'.tracked b = js.tracked b := by
  unfold sload at h
  split at h
  · cases h
  · split at h
    · cases h
      split_ifs <;> simp [hb]
    · split at h
      · cases h
      · cases h
        simp [hb]

lemma sstore_frame (hb : b ≠ a) {key value : U256} (h : js.sstore db a key value = .ok js') :
    js'.tracked b = js.tracked b := by
  unfold sstore at h
  split at h
  · cases h
  · rename_i present js₁ hload
    rw [← sload_frame hb hload]
    split at h
    · cases h
    · split at h
      · cases h
      · split_ifs at h <;> cases h
        · rfl
        · simp [hb]

lemma setBalanceNonce_frame (hb : b ≠ a) {balance : U256} {nonce : Nat}
    (h : js.setBalanceNonce (E := E) a balance nonce = .ok js') :
    js'.tracked b = js.tracked b := by
  unfold setBalanceNonce at h
  split at h
  · cases h
  · cases h
    simp [hb]

end JournaledState

end AssertionExecution
