import AssertionExecution.Proofs.TrackedAccounts

/-!
# The persistent accounts across forks

The accounts that are cloned at every switch behave as in a single journaled state that
never switches.
-/

namespace AssertionExecution

open HashMap

inductive ForkOp where
  | switchFork (id : ForkId)
  | load (a : Address)
  | sload (a : Address) (key : U256)
  | sstore (a : Address) (key value : U256)
  | setBalanceNonce (a : Address) (balance : U256) (nonce : Nat)

namespace ForkOp

def isSwitch : ForkOp → Bool
  | switchFork _ => true
  | _ => false

variable {Active Err : Type} [DatabaseRef Active Err] (init : JournaledState)

def step? (s : Running (ForkDb Active)) : ForkOp → Option (Running (ForkDb Active))
  | switchFork id => ((s.db.switchFork id s.journaled init).toOption).map fun r => ⟨r.1, r.2⟩
  | load a => ((s.journaled.loadAccount s.db a).toOption).map fun js => ⟨s.db, js⟩
  | sload a key => ((s.journaled.sload s.db a key).toOption).map fun r => ⟨s.db, r.2⟩
  | sstore a key value =>
    ((s.journaled.sstore s.db a key value).toOption).map fun js => ⟨s.db, js⟩
  | setBalanceNonce a balance nonce =>
    ((s.journaled.setBalanceNonce (E := Err) a balance nonce).toOption).map fun js => ⟨s.db, js⟩

/-- An operation that fails leaves the state as it was. -/
def step (s : Running (ForkDb Active)) (op : ForkOp) : Running (ForkDb Active) :=
  (op.step? init s).getD s

def runAll (s : Running (ForkDb Active)) (ops : List ForkOp) : Running (ForkDb Active) :=
  ops.foldl (step init) s

/-- The operation on one account alone, given what the database holds for it. A switch does
nothing to it. -/
def onAccount (info : Option (Option AccountInfo)) (stored : U256 → U256) (a : Address)
    (t : Option TrackedAccount) : ForkOp → Option TrackedAccount
  | switchFork _ => t
  | load b =>
    if a = b then
      match t with
      | some t => some t.warm
      | none => info.map TrackedAccount.loaded
    else t
  | sload b key => if a = b then t.map (·.sload (stored key) key) else t
  | sstore b key value => if a = b then t.map (·.sstore (stored key) key value) else t
  | setBalanceNonce b balance nonce => if a = b then t.map (·.setBalanceNonce balance nonce) else t

variable {init} {s : Running (ForkDb Active)} {a : Address}

lemma step_db {op : ForkOp} (hop : op.isSwitch = false) : (op.step init s).db = s.db := by
  cases op with
  | switchFork id => exact (Bool.false_ne_true hop.symm).elim
  | load b => simp only [step, step?]; cases s.journaled.loadAccount s.db b <;> rfl
  | sload b key => simp only [step, step?]; cases s.journaled.sload s.db b key <;> rfl
  | sstore b key value => simp only [step, step?]; cases s.journaled.sstore s.db b key value <;> rfl
  | setBalanceNonce b balance nonce =>
    simp only [step, step?]
    cases s.journaled.setBalanceNonce (E := Err) b balance nonce <;> rfl

lemma step_of_switchFork {id : ForkId} {db : MultiForkDb (ForkDb Active)} {js : JournaledState}
    (hrun : s.db.switchFork id s.journaled init = .ok (db, js)) :
    (switchFork id).step init s = ⟨db, js⟩ := by
  simp only [step, step?, hrun]
  rfl

lemma step_switchFork_same {id : ForkId} (hid : id = s.db.activeForkId) :
    (switchFork id).step init s = s :=
  step_of_switchFork (if_pos hid)

/-- A switch to the other fork puts the active one away. -/
lemma step_switchFork_other {id : ForkId} (hid : id ≠ s.db.activeForkId)
    {fork : Fork (ForkDb Active)} (hfork : s.db.inactiveForks.lookup id = some fork) :
    (switchFork id).step init s =
      ⟨{ activeDb := (s.db.activeDb.replaceInnerDb fork.db).1
         activeForkId := id
         inactiveForks := (s.db.inactiveForks.erase id).insert s.db.activeForkId
          ⟨(s.db.activeDb.replaceInnerDb fork.db).2, some s.journaled⟩ },
        updateJournaledState defaultPersistentAccounts s.journaled
          (fork.journaledState.getD init)⟩ := by
  apply step_of_switchFork
  rw [MultiForkDb.switchFork, if_neg hid, hfork]

/-- An operation on the account at `b` that fails unless the account is tracked. -/
lemma tracked_attempt {E R : Type} {x : Except E R} {after : R → JournaledState} {b : Address}
    {f : TrackedAccount → TrackedAccount}
    (huntracked : a = b → s.journaled.tracked a = none → ∃ e, x = .error e)
    (htracked : a = b → ∀ t, s.journaled.tracked a = some t →
      ∃ r, x = .ok r ∧ JournaledState.Tracks s.journaled (after r) a (f t))
    (hframe : a ≠ b → ∀ r, x = .ok r → (after r).tracked a = s.journaled.tracked a) :
    ((x.toOption.map fun r => (⟨s.db, after r⟩ : Running (ForkDb Active))).getD s).journaled.tracked
        a =
      if a = b then (s.journaled.tracked a).map f else s.journaled.tracked a := by
  by_cases hab : a = b
  · rw [if_pos hab]
    cases ht : s.journaled.tracked a with
    | none =>
      obtain ⟨e, he⟩ := huntracked hab ht
      rw [he]
      exact ht
    | some t =>
      obtain ⟨r, hr, htracks⟩ := htracked hab t ht
      rw [hr]
      exact (htracks a).trans (if_pos rfl)
  · rw [if_neg hab]
    cases hx : x with
    | error e => rfl
    | ok r => exact hframe hab r hx

/-- An operation other than a switch acts on every account of the database as on it alone. -/
lemma tracked_step {op : ForkOp} (hop : op.isSwitch = false) {stored : U256 → U256}
    (hstored : ∀ key, storageRef s.db a key = .ok (stored key)) :
    (op.step init s).journaled.tracked a =
      op.onAccount (basicRef s.db a).toOption stored a (s.journaled.tracked a) := by
  cases op with
  | switchFork id => exact (Bool.false_ne_true hop.symm).elim
  | load b =>
    -- The one operation that also acts on an account that is not tracked yet.
    simp only [step, step?, onAccount]
    by_cases hab : a = b
    · subst hab
      rw [if_pos rfl]
      cases ht : s.journaled.tracked a with
      | some t =>
        obtain ⟨js, hrun, htracks⟩ := JournaledState.loadAccount_tracked s.db ht
        rw [hrun]
        exact (htracks a).trans (if_pos rfl)
      | none =>
        rcases JournaledState.loadAccount_untracked s.db ht with
          ⟨e, hbasic, hrun⟩ | ⟨info, js, hbasic, hrun, htracks⟩
        · rw [hrun, hbasic]
          exact ht
        · rw [hrun, hbasic]
          exact (htracks a).trans (if_pos rfl)
    · rw [if_neg hab]
      cases hrun : s.journaled.loadAccount s.db b with
      | error e => rfl
      | ok js => exact JournaledState.loadAccount_frame hab hrun
  | sload b key =>
    apply tracked_attempt
    · rintro rfl ht
      exact ⟨_, JournaledState.sload_untracked ht key⟩
    · rintro rfl t ht
      obtain ⟨js, hrun, htracks⟩ := JournaledState.sload_tracked ht (hstored key)
      exact ⟨_, hrun, htracks⟩
    · exact fun hab r hrun => JournaledState.sload_frame hab hrun
  | sstore b key value =>
    apply tracked_attempt
    · rintro rfl ht
      exact ⟨_, JournaledState.sstore_untracked ht key value⟩
    · rintro rfl t ht
      exact JournaledState.sstore_tracked ht (hstored key) value
    · exact fun hab js hrun => JournaledState.sstore_frame hab hrun
  | setBalanceNonce b balance nonce =>
    apply tracked_attempt
    · rintro rfl ht
      exact ⟨_, JournaledState.setBalanceNonce_untracked (E := Err) ht balance nonce⟩
    · rintro rfl t ht
      exact JournaledState.setBalanceNonce_tracked (E := Err) ht balance nonce
    · exact fun hab js hrun => JournaledState.setBalanceNonce_frame hab hrun

end ForkOp

/-! ### What the layer above the forks holds -/

namespace ForkDb

variable {Active : Type}

lemma commitAccount_congr {db db' : ForkDb Active} {a : Address} (account : Account)
    (hbasic : db.basic.lookup a = db'.basic.lookup a)
    (hstorage : db.storage.lookup a = db'.storage.lookup a) :
    (db.commitAccount a account).basic.lookup a = (db'.commitAccount a account).basic.lookup a ∧
      (db.commitAccount a account).storage.lookup a =
        (db'.commitAccount a account).storage.lookup a := by
  unfold commitAccount
  split_ifs
  · exact ⟨hbasic, hstorage⟩
  · simp [modifyOrDefault]
  · refine ⟨by simp, ?_⟩
    rw [hstorage]
    cases db'.storage.lookup a <;> simp

/-- A commit does to each of its accounts what the account's own commit does. -/
lemma commit_at (it : Iteration) (db : ForkDb Active) {changes : EvmState} {a : Address}
    {account : Account} (h : changes.lookup a = some account) :
    (db.commit it changes).basic.lookup a = (db.commitAccount a account).basic.lookup a ∧
      (db.commit it changes).storage.lookup a = (db.commitAccount a account).storage.lookup a := by
  have hfold : ∀ (l : List (Address × Account)) (db : ForkDb Active),
      (l.map Prod.fst).Nodup → (a, account) ∈ l →
      (l.foldl (fun db e => db.commitAccount e.1 e.2) db).basic.lookup a =
        (db.commitAccount a account).basic.lookup a ∧
      (l.foldl (fun db e => db.commitAccount e.1 e.2) db).storage.lookup a =
        (db.commitAccount a account).storage.lookup a := by
    intro l
    induction l with
    | nil => exact fun _ _ h => (List.not_mem_nil h).elim
    | cons e l ih =>
      intro db hnodup hmem
      rw [List.map_cons, List.nodup_cons] at hnodup
      rcases List.mem_cons.mp hmem with rfl | hmem
      · exact foldl_commitAccount_frame l _ hnodup.1
      · have hne : a ≠ e.1 := by
          rintro rfl
          exact hnodup.1 (List.mem_map.mpr ⟨_, hmem, rfl⟩)
        obtain ⟨hbasic, hstorage⟩ := ih (db.commitAccount e.1 e.2) hnodup.2 hmem
        obtain ⟨hbasic', hstorage'⟩ := db.commitAccount_frame e.2 hne
        obtain ⟨hbasic'', hstorage''⟩ := commitAccount_congr account hbasic' hstorage'
        exact ⟨hbasic.trans hbasic'', hstorage.trans hstorage''⟩
  exact hfold _ db (iter_keys_nodup it changes) ((mem_iter_iff it changes a account).mpr h)

lemma lookup_hideInnerStorage (db : ForkDb Active) (a b : Address) :
    (db.hideInnerStorage a).storage.lookup b =
      if b = a then
        some { (db.storage.lookup a).getD .default with dontReadFromInnerDb := true }
      else db.storage.lookup b :=
  lookup_insert_ite _ _ _ _

end ForkDb

def deployedValue (contract : AssertionContract) (key : U256) : U256 :=
  if contract.accountStatus.touched ∧ ¬contract.accountStatus.selfDestructed then
    ((contract.storage.lookup key).map (·.presentValue)).getD 0
  else 0

section

variable {Active : Type} (it : Iteration) (contract : AssertionContract)
  (preTxDb postTxDb : ForkDb Active)

/-- The layer above the forks answers every storage read of the persistent accounts. -/
def HidesForks (start : MultiForkDb (ForkDb Active)) : Prop :=
  ∀ a ∈ defaultPersistentAccounts, ∃ m, start.activeDb.storage.lookup a = some m ∧
    m.dontReadFromInnerDb = true

lemma installed_hidden : HidesForks (installed it contract preTxDb postTxDb) := by
  intro a ha
  unfold installed insertPrecompileAccount AssertionExecutor.insertAssertionContract
  simp only [ForkDb.lookup_hideInnerStorage, ForkDb.insertAccountInfo]
  simp only [defaultPersistentAccounts, List.mem_cons, List.not_mem_nil, or_false] at ha
  rcases ha with rfl | rfl | rfl
  · rw [if_neg (by decide), if_neg (by decide), if_pos rfl]
    exact ⟨_, rfl, rfl⟩
  · rw [if_neg (by decide), if_pos rfl]
    exact ⟨_, rfl, rfl⟩
  · rw [if_pos rfl]
    exact ⟨_, rfl, rfl⟩

def contractAccount (contract : AssertionContract) : Account where
  info :=
    { nonce := 1
      balance := u256Max
      code := some contract.deployedCode
      codeHash := contract.codeHash }
  storage := contract.storage
  status := contract.accountStatus

lemma installed_contract :
    (installed it contract preTxDb postTxDb).activeDb.basic.lookup assertionContractAddress =
        ((ForkDb.new postTxDb).commitAccount assertionContractAddress
          (contractAccount contract)).basic.lookup assertionContractAddress ∧
      (installed it contract preTxDb postTxDb).activeDb.storage.lookup assertionContractAddress =
        some { (((ForkDb.new postTxDb).commitAccount assertionContractAddress
            (contractAccount contract)).storage.lookup assertionContractAddress).getD .default with
          dontReadFromInnerDb := true } := by
  have hlookup : ∀ caller : Account,
      (((∅ : EvmState).insert assertionContractAddress (contractAccount contract)).insert
        callerAddress caller).lookup assertionContractAddress =
      some (contractAccount contract) := by
    intro caller
    rw [lookup_insert_ite, if_neg (by decide), lookup_insert_ite, if_pos rfl]
  obtain ⟨hbasic, hstorage⟩ := ForkDb.commit_at it (ForkDb.new postTxDb)
    (hlookup { info := { AccountInfo.default with nonce := 42, balance := u256Max }
               storage := ∅
               status := { touched := true } })
  unfold installed insertPrecompileAccount AssertionExecutor.insertAssertionContract
  simp only [ForkDb.lookup_hideInnerStorage]
  rw [if_neg (by decide)]
  constructor
  · exact (lookup_insert_ite _ _ _ _).trans ((if_neg (by decide)).trans hbasic)
  · refine (ForkDb.lookup_hideInnerStorage _ _ _).trans ((if_neg (by decide)).trans ?_)
    refine (ForkDb.lookup_hideInnerStorage _ _ _).trans ((if_pos rfl).trans ?_)
    exact congrArg (fun m : Option ForkStorageMap =>
      some { m.getD .default with dontReadFromInnerDb := true }) hstorage

lemma installed_contract_storage :
    ∃ m, (installed it contract preTxDb postTxDb).activeDb.storage.lookup
        assertionContractAddress = some m ∧ m.dontReadFromInnerDb = true ∧
      ∀ key, (m.map.lookup key).getD 0 = deployedValue contract key := by
  refine ⟨_, (installed_contract it contract preTxDb postTxDb).2, rfl, fun key => ?_⟩
  unfold ForkDb.commitAccount deployedValue
  cases htouched : contract.accountStatus.touched <;>
    cases hdestroyed : contract.accountStatus.selfDestructed <;>
    simp [contractAccount, Account.isTouched, Account.isSelfdestructed, htouched, hdestroyed,
      ForkDb.new, ForkStorageMap.default, modifyOrDefault, lookup_mapValues, -AList.insert_empty]

/-- Every persistent account exists above the forks, if the contract's deployment touched it. -/
lemma installed_info (htouched : contract.accountStatus.touched = true) {a : Address}
    (ha : a ∈ defaultPersistentAccounts) :
    ∃ info, (installed it contract preTxDb postTxDb).activeDb.basic.lookup a = some info := by
  simp only [defaultPersistentAccounts, List.mem_cons, List.not_mem_nil, or_false] at ha
  rcases ha with rfl | rfl | rfl
  · rw [(installed_contract it contract preTxDb postTxDb).1]
    unfold ForkDb.commitAccount
    cases hdestroyed : contract.accountStatus.selfDestructed <;>
      simp [contractAccount, Account.isTouched, Account.isSelfdestructed, htouched, hdestroyed]
  · have hlookup : ∀ changes : EvmState, ∀ caller : Account,
        (changes.insert callerAddress caller).lookup callerAddress = some caller :=
      fun changes caller => AList.lookup_insert changes
    refine ⟨{ AccountInfo.default with nonce := 42, balance := u256Max }, ?_⟩
    unfold installed insertPrecompileAccount AssertionExecutor.insertAssertionContract
    refine (lookup_insert_ite _ _ _ _).trans ((if_neg (by decide)).trans ?_)
    refine (ForkDb.commit_at it _ (hlookup _ _)).1.trans ?_
    simp [ForkDb.commitAccount, Account.isTouched, Account.isSelfdestructed]
  · exact ⟨_, AList.lookup_insert _⟩

end

/-! ### Merging at a switch -/

/-- What a view shows besides the accounts is the target's. -/
lemma view_foldl_mergeJournaledStateData {τ : Type} (view : JournaledState → τ)
    (hview : ∀ (js : JournaledState) (state : EvmState), view { js with state := state } = view js)
    (accounts : List Address) (active target : JournaledState) :
    view (accounts.foldl (fun target addr => mergeJournaledStateData addr active target) target) =
      view target := by
  induction accounts generalizing target with
  | nil => rfl
  | cons addr accounts ih =>
    rw [List.foldl_cons, ih]
    unfold mergeJournaledStateData
    cases active.state.lookup addr with
    | none => rfl
    | some acc =>
      cases target.state.lookup addr with
      | none => exact hview target _
      | some forkAccount => exact hview target _

/-- Everything that was tracked is still tracked. -/
def Covers (old new : Option TrackedAccount) : Prop :=
  ∀ t, old = some t → ∃ t', new = some t' ∧ ∀ key, (t.slots key).isSome → (t'.slots key).isSome

lemma Covers.refl (t : Option TrackedAccount) : Covers t t := fun t ht => ⟨t, ht, fun _ h => h⟩

lemma Covers.trans {t t' t'' : Option TrackedAccount} (h : Covers t t') (h' : Covers t' t'') :
    Covers t t'' := by
  intro x hx
  obtain ⟨y, hy, hxy⟩ := h x hx
  obtain ⟨z, hz, hyz⟩ := h' y hy
  exact ⟨z, hz, fun key hkey => hyz key (hxy key hkey)⟩

/-- The account a switch hands out: the active one, and the slots only the target tracks. -/
def mergeTracked (active target : Option TrackedAccount) : Option TrackedAccount :=
  match active, target with
  | none, target => target
  | some t, none => some t
  | some t, some u => some { t with slots := fun key => (t.slots key).or (u.slots key) }

lemma mergeTracked_of_covers {active target : Option TrackedAccount} (h : Covers target active) :
    mergeTracked active target = active := by
  cases target with
  | none => cases active <;> rfl
  | some u =>
    obtain ⟨t, rfl, hslots⟩ := h u rfl
    have hor : (fun key => (t.slots key).or (u.slots key)) = t.slots := by
      funext key
      cases ht : t.slots key with
      | some slot => rfl
      | none =>
        cases hu : u.slots key with
        | none => rfl
        | some slot =>
          have := hslots key (by rw [hu]; rfl)
          rw [ht] at this
          exact (Bool.false_ne_true this).elim
    rw [mergeTracked, hor]

lemma tracked_mergeJournaledStateData (addr a : Address) (active target : JournaledState) :
    (mergeJournaledStateData addr active target).tracked a =
      if a = addr then mergeTracked (active.tracked addr) (target.tracked addr)
      else target.tracked a := by
  unfold mergeJournaledStateData
  cases hactive : active.state.lookup addr with
  | none =>
    by_cases ha : a = addr
    · rw [if_pos ha, ha, JournaledState.tracked_eq_none hactive]
      rfl
    · rw [if_neg ha]
  | some acc =>
    cases htarget : target.state.lookup addr with
    | none =>
      simp only [JournaledState.tracked_setAccount]
      rw [JournaledState.tracked_eq_some hactive, JournaledState.tracked_eq_none htarget]
      rfl
    | some forkAcc =>
      simp only [JournaledState.tracked_setAccount, lookup_extend]
      rw [JournaledState.tracked_eq_some hactive, JournaledState.tracked_eq_some htarget]
      rfl

/-- A switch merges each persistent account once. -/
lemma tracked_updateJournaledState {a : Address} (ha : a ∈ defaultPersistentAccounts)
    (active target : JournaledState) :
    (updateJournaledState defaultPersistentAccounts active target).tracked a =
      mergeTracked (active.tracked a) (target.tracked a) := by
  have hfold : ∀ (l : List Address) (target : JournaledState), l.Nodup →
      (l.foldl (fun target addr => mergeJournaledStateData addr active target) target).tracked a =
        if a ∈ l then mergeTracked (active.tracked a) (target.tracked a)
        else target.tracked a := by
    intro l
    induction l with
    | nil => exact fun target _ => rfl
    | cons addr l ih =>
      intro target hnodup
      rw [List.nodup_cons] at hnodup
      rw [List.foldl_cons, ih _ hnodup.2, tracked_mergeJournaledStateData]
      by_cases hne : a = addr
      · subst hne
        simp [hnodup.1]
      · simp [hne]
  have hmerged := hfold defaultPersistentAccounts target (by decide)
  rw [if_pos ha] at hmerged
  exact hmerged

/-! ### What every run keeps -/

section

variable {Active Err : Type} [DatabaseRef Active Err] {start : MultiForkDb (ForkDb Active)}
  (warm : List Address) {s : Running (ForkDb Active)}

/-- Both forks lie under one layer, and the active state tracks whatever the other one does of
the persistent accounts. -/
structure Shared (start : MultiForkDb (ForkDb Active)) (s : Running (ForkDb Active)) : Prop where
  basic : s.db.activeDb.basic = start.activeDb.basic
  storage : s.db.activeDb.storage = start.activeDb.storage
  inactive : ∀ id, id ≠ s.db.activeForkId → ∃ fork, s.db.inactiveForks.lookup id = some fork ∧
    ∀ js, fork.journaledState = some js → ∀ a ∈ defaultPersistentAccounts,
      Covers (js.tracked a) (s.journaled.tracked a)

omit [DatabaseRef Active Err] in
/-- A switch succeeds and hands the persistent accounts over as they are. -/
lemma Shared.switchFork (h : Shared start s) (id : ForkId) :
    ∃ db js, s.db.switchFork id s.journaled (.new warm) = .ok (db, js) ∧ Shared start ⟨db, js⟩ ∧
      ∀ a ∈ defaultPersistentAccounts, js.tracked a = s.journaled.tracked a := by
  by_cases hid : id = s.db.activeForkId
  · exact ⟨s.db, s.journaled, if_pos hid, h, fun _ _ => rfl⟩
  obtain ⟨fork, hfork, hcovers⟩ := h.inactive id hid
  have hsame : ∀ a ∈ defaultPersistentAccounts,
      (updateJournaledState defaultPersistentAccounts s.journaled
        (fork.journaledState.getD (.new warm))).tracked a = s.journaled.tracked a := by
    intro a ha
    rw [tracked_updateJournaledState ha]
    apply mergeTracked_of_covers
    cases hjs : fork.journaledState with
    | none =>
      intro t ht
      rw [Option.getD_none, JournaledState.tracked_new] at ht
      exact (Option.some_ne_none t ht.symm).elim
    | some js => exact hcovers js hjs a ha
  refine ⟨{ activeDb := (s.db.activeDb.replaceInnerDb fork.db).1
            activeForkId := id
            inactiveForks := (s.db.inactiveForks.erase id).insert s.db.activeForkId
              ⟨(s.db.activeDb.replaceInnerDb fork.db).2, some s.journaled⟩ }, _,
    by rw [MultiForkDb.switchFork, if_neg hid, hfork], ⟨h.basic, h.storage, ?_⟩, hsame⟩
  intro id' hid'
  have hprev : id' = s.db.activeForkId := forkId_eq_of_ne (Ne.symm hid) hid'
  subst hprev
  refine ⟨_, AList.lookup_insert _, ?_⟩
  rintro js hjs a ha
  cases hjs
  dsimp only
  rw [hsame a ha]
  exact Covers.refl _

lemma Covers.onAccount (op : ForkOp) (info : Option (Option AccountInfo)) (stored : U256 → U256)
    (a : Address) (t : Option TrackedAccount) : Covers t (op.onAccount info stored a t) := by
  rintro t rfl
  have hread : ∀ (key key' : U256) (slot : EvmStorageSlot), (t.slots key').isSome →
      (Function.update t.slots key (some slot) key').isSome := by
    intro key key' slot h
    rw [Function.update_apply]
    split_ifs
    · rfl
    · exact h
  cases op with
  | switchFork id => exact ⟨t, rfl, fun _ h => h⟩
  | load b =>
    by_cases hab : a = b
    · exact ⟨t.warm, if_pos hab, fun _ h => h⟩
    · exact ⟨t, if_neg hab, fun _ h => h⟩
  | sload b key =>
    by_cases hab : a = b
    · exact ⟨_, if_pos hab, fun key' => hread key key' _⟩
    · exact ⟨t, if_neg hab, fun _ h => h⟩
  | sstore b key value =>
    by_cases hab : a = b
    · exact ⟨_, if_pos hab, fun key' => hread key key' _⟩
    · exact ⟨t, if_neg hab, fun _ h => h⟩
  | setBalanceNonce b balance nonce =>
    by_cases hab : a = b
    · exact ⟨_, if_pos hab, fun _ h => h⟩
    · exact ⟨t, if_neg hab, fun _ h => h⟩

lemma Shared.storageRef_eq (h : Shared start s) {a : Address} {m : ForkStorageMap}
    (hm : start.activeDb.storage.lookup a = some m) (hhidden : m.dontReadFromInnerDb = true)
    (key : U256) : storageRef s.db a key = .ok ((m.map.lookup key).getD 0) := by
  rw [← h.storage] at hm
  exact s.db.activeDb.storageRef_of_hidden hm hhidden key

/-- Every operation keeps the invariant and acts on each persistent account as on it alone. -/
lemma Shared.step (h : Shared start s) (hhidden : HidesForks start) (op : ForkOp) :
    Shared start (op.step (.new warm) s) ∧
      ∀ a ∈ defaultPersistentAccounts, ∀ stored : U256 → U256,
        (∀ key, storageRef s.db a key = .ok (stored key)) →
        (op.step (.new warm) s).journaled.tracked a =
          op.onAccount (basicRef s.db a).toOption stored a (s.journaled.tracked a) := by
  cases hop : op.isSwitch with
  | true =>
    cases op with
    | switchFork id =>
      obtain ⟨db, js, hrun, hshared, hsame⟩ := h.switchFork warm id
      rw [ForkOp.step_of_switchFork hrun]
      exact ⟨hshared, fun a ha _ _ => hsame a ha⟩
    | _ => exact (Bool.false_ne_true hop).elim
  | false =>
    refine ⟨?_, fun a _ stored hstored => ForkOp.tracked_step hop hstored⟩
    refine ⟨?_, ?_, ?_⟩
    · rw [ForkOp.step_db hop, h.basic]
    · rw [ForkOp.step_db hop, h.storage]
    · rw [ForkOp.step_db hop]
      intro id hid
      obtain ⟨fork, hfork, hcovers⟩ := h.inactive id hid
      refine ⟨fork, hfork, fun js hjs a ha => ?_⟩
      obtain ⟨m, hm, hhide⟩ := hhidden a ha
      rw [ForkOp.tracked_step hop (h.storageRef_eq hm hhide)]
      exact (hcovers js hjs a ha).trans (Covers.onAccount op _ _ a _)

def written (init : JournaledState) :
    Running (ForkDb Active) → List ForkOp → List (U256 × U256)
  | _, [] => []
  | s, op :: ops =>
    (match op with
      | .sstore a key value =>
        if a = assertionContractAddress ∧ (op.step? init s).isSome then [(key, value)] else []
      | _ => []) ++ written init (op.step init s) ops

def afterWrites (initial : U256 → U256) (writes : List (U256 × U256)) : U256 → U256 :=
  writes.foldl (fun memory w => Function.update memory w.1 w.2) initial

/-- Reading the tracked account gives the memory's values. -/
def Reads (deployed memory : U256 → U256) : Option TrackedAccount → Prop
  | none => memory = deployed
  | some t => t.status.created = false ∧
    ∀ key, (t.readSlot (deployed key) key).presentValue = memory key

omit [DatabaseRef Active Err] in
lemma readSlot_update (t : TrackedAccount) (stored key key' : U256) (slot : EvmStorageSlot) :
    (({ t with slots := Function.update t.slots key (some slot) } : TrackedAccount).readSlot stored
        key').presentValue =
      if key' = key then slot.presentValue else (t.readSlot stored key').presentValue := by
  unfold TrackedAccount.readSlot
  dsimp only
  rw [Function.update_apply]
  split_ifs <;> rfl

omit [DatabaseRef Active Err] in
lemma Reads.sload {deployed memory : U256 → U256} {t : TrackedAccount}
    (h : Reads deployed memory (some t)) (key : U256) :
    Reads deployed memory (some (t.sload (deployed key) key)) := by
  refine ⟨h.1, fun key' => ?_⟩
  rw [TrackedAccount.sload, readSlot_update]
  split_ifs with hkey
  · rw [hkey, h.2 key]
  · exact h.2 key'

omit [DatabaseRef Active Err] in
lemma Reads.sstore {deployed memory : U256 → U256} {t : TrackedAccount}
    (h : Reads deployed memory (some t)) (key value : U256) :
    Reads deployed (Function.update memory key value)
      (some (t.sstore (deployed key) key value)) := by
  refine ⟨h.1, fun key' => ?_⟩
  rw [TrackedAccount.sstore, readSlot_update, Function.update_apply]
  split_ifs
  · rfl
  · exact h.2 key'

/-- The slots of an account that the operation writes, if the account is loaded. -/
def ForkOp.writesTo (a : Address) (t : Option TrackedAccount) : ForkOp → List (U256 × U256)
  | sstore b key value => if a = b ∧ t.isSome then [(key, value)] else []
  | _ => []

omit [DatabaseRef Active Err] in
/-- One operation moves an account and its memory in step. -/
lemma Reads.onAccount {deployed memory : U256 → U256} {t : Option TrackedAccount}
    (h : Reads deployed memory t) (info : Option (Option AccountInfo)) (a : Address)
    (op : ForkOp) :
    Reads deployed (afterWrites memory (op.writesTo a t)) (op.onAccount info deployed a t) := by
  cases op with
  | switchFork id => exact h
  | load b =>
    cases t with
    | some t =>
      rw [ForkOp.onAccount]
      split_ifs <;> exact h
    | none =>
      rw [ForkOp.onAccount]
      split_ifs
      · cases info with
        | none => exact h
        | some info => cases info <;> exact ⟨rfl, fun key => (congrFun h key).symm⟩
      · exact h
  | sload b key =>
    rw [ForkOp.onAccount]
    split_ifs
    · cases t with
      | none => exact h
      | some t => exact Reads.sload h key
    · exact h
  | sstore b key value =>
    rw [ForkOp.onAccount, ForkOp.writesTo]
    by_cases ha : a = b
    · cases t with
      | none =>
        rw [if_pos ha, if_neg fun hloaded => Bool.false_ne_true hloaded.2]
        exact h
      | some t =>
        rw [if_pos ha, if_pos ⟨ha, rfl⟩]
        exact Reads.sstore h key value
    · rw [if_neg ha, if_neg fun hloaded => ha hloaded.1]
      exact h
  | setBalanceNonce b balance nonce =>
    rw [ForkOp.onAccount]
    split_ifs
    · cases t with
      | none => exact h
      | some t => exact h
    · exact h

lemma written_singleton {deployed : U256 → U256}
    (hdeployed : ∀ key, storageRef s.db assertionContractAddress key = .ok (deployed key))
    (op : ForkOp) :
    written (.new warm) s [op] =
      op.writesTo assertionContractAddress (s.journaled.tracked assertionContractAddress) := by
  cases op with
  | sstore b key value =>
    by_cases hb : assertionContractAddress = b
    · subst hb
      cases ht : s.journaled.tracked assertionContractAddress with
      | none =>
        simp only [written, ForkOp.writesTo, ForkOp.step?, JournaledState.sstore_untracked ht]
        simp [Except.toOption]
      | some t =>
        obtain ⟨js, hrun, -⟩ := JournaledState.sstore_tracked ht (hdeployed key) value
        simp only [written, ForkOp.writesTo, ForkOp.step?, hrun]
        simp [Except.toOption]
    · simp [written, ForkOp.writesTo, hb, Ne.symm hb]
  | _ => rfl

lemma Shared.reads_step (h : Shared start s) (hhidden : HidesForks start)
    {deployed memory : U256 → U256}
    (hdeployed : ∀ key, storageRef s.db assertionContractAddress key = .ok (deployed key))
    (hreads : Reads deployed memory (s.journaled.tracked assertionContractAddress)) (op : ForkOp) :
    Reads deployed (afterWrites memory (written (.new warm) s [op]))
      ((op.step (.new warm) s).journaled.tracked assertionContractAddress) := by
  rw [(h.step warm hhidden op).2 assertionContractAddress (by decide) deployed hdeployed,
    written_singleton warm hdeployed]
  exact hreads.onAccount _ assertionContractAddress op

/-! ### Whole runs -/

lemma Shared.runAll (h : Shared start s) (hhidden : HidesForks start) (ops : List ForkOp) :
    Shared start (ForkOp.runAll (.new warm) s ops) := by
  induction ops generalizing s with
  | nil => exact h
  | cons op ops ih => exact ih (h.step warm hhidden op).1

lemma written_cons (op : ForkOp) (ops : List ForkOp) :
    written (.new warm) s (op :: ops) =
      written (.new warm) s [op] ++ written (.new warm) (op.step (.new warm) s) ops := by
  simp [written]

/-- The contract's account reads like a memory that sees only the writes. -/
lemma Shared.reads_runAll (h : Shared start s) (hhidden : HidesForks start)
    {deployed memory : U256 → U256}
    (hdeployed : ∀ s, Shared start s →
      ∀ key, storageRef s.db assertionContractAddress key = .ok (deployed key))
    (hreads : Reads deployed memory (s.journaled.tracked assertionContractAddress))
    (ops : List ForkOp) :
    Reads deployed (afterWrites memory (written (.new warm) s ops))
      ((ForkOp.runAll (.new warm) s ops).journaled.tracked assertionContractAddress) := by
  induction ops generalizing s memory with
  | nil => exact hreads
  | cons op ops ih =>
    have hmemory : afterWrites memory (written (.new warm) s (op :: ops)) =
        afterWrites (afterWrites memory (written (.new warm) s [op]))
          (written (.new warm) (op.step (.new warm) s) ops) := by
      rw [written_cons]
      exact List.foldl_append
    rw [hmemory]
    exact ih (h.step warm hhidden op).1 (h.reads_step warm hhidden (hdeployed s h) hreads op)

lemma Shared.tracked_runAll (h : Shared start s) (hhidden : HidesForks start) {a : Address}
    (ha : a ∈ defaultPersistentAccounts)
    {m : ForkStorageMap} (hm : start.activeDb.storage.lookup a = some m)
    (hhide : m.dontReadFromInnerDb = true) {info : AccountInfo}
    (hinfo : start.activeDb.basic.lookup a = some info) (ops : List ForkOp) :
    (ForkOp.runAll (.new warm) s ops).journaled.tracked a =
      ops.foldl (ForkOp.onAccount (some (some info)) (fun key => (m.map.lookup key).getD 0) a)
        (s.journaled.tracked a) := by
  induction ops generalizing s with
  | nil => rfl
  | cons op ops ih =>
    have hbasic : (basicRef s.db a).toOption = some (some info) := by
      rw [← h.basic] at hinfo
      exact congrArg Except.toOption (s.db.activeDb.basicRef_of_some hinfo)
    obtain ⟨hshared, hstep⟩ := h.step warm hhidden op
    rw [List.foldl_cons, ← hbasic, ← hstep a ha _ (h.storageRef_eq hm hhide), hbasic]
    exact ih hshared

/-- In every state of a run, a switch leaves the entries of the persistent accounts as they
are, a read of the assertion contract returns the last value written to the slot or its
deployed value, and the entries are those of the run without its switches. -/
theorem persistent_accounts (it : Iteration) (contract : AssertionContract)
    (preTxDb postTxDb : ForkDb Active) (warm warm' : List Address) (ops : List ForkOp) :
    let start : Running (ForkDb Active) :=
      ⟨installed it contract preTxDb postTxDb, .new warm'⟩
    let s := ForkOp.runAll (.new warm) start ops
    (∀ id, ∃ db js, s.db.switchFork id s.journaled (.new warm) = .ok (db, js) ∧
      ∀ a ∈ defaultPersistentAccounts, js.tracked a = s.journaled.tracked a) ∧
    (∀ key, (s.journaled.tracked assertionContractAddress).isSome →
      ∃ js, s.journaled.sload s.db assertionContractAddress key =
        .ok (afterWrites (deployedValue contract) (written (.new warm) start ops) key, js)) ∧
    (contract.accountStatus.touched = true → ∀ a ∈ defaultPersistentAccounts,
      s.journaled.tracked a =
        (ForkOp.runAll (.new warm) start (ops.filter (!·.isSwitch))).journaled.tracked a) := by
  intro start s
  have hhidden : HidesForks (installed it contract preTxDb postTxDb) :=
    installed_hidden it contract preTxDb postTxDb
  have hstart : Shared (installed it contract preTxDb postTxDb) start := by
    refine ⟨rfl, rfl, fun id hid => ?_⟩
    cases id with
    | preTx => exact ⟨⟨preTxDb, none⟩, rfl, fun js hjs => (Option.some_ne_none js hjs.symm).elim⟩
    | postTx => exact (hid rfl).elim
  have hshared : Shared (installed it contract preTxDb postTxDb) s := hstart.runAll warm hhidden ops
  have hdeployed : ∀ s : Running (ForkDb Active),
      Shared (installed it contract preTxDb postTxDb) s →
      ∀ key, storageRef s.db assertionContractAddress key = .ok (deployedValue contract key) := by
    intro s hs key
    obtain ⟨m, hm, hhide, hvalue⟩ := installed_contract_storage it contract preTxDb postTxDb
    rw [hs.storageRef_eq hm hhide, hvalue]
  refine ⟨fun id => ?_, fun key hloaded => ?_, fun htouched a ha => ?_⟩
  · obtain ⟨db, js, hrun, -, hsame⟩ := hshared.switchFork warm id
    exact ⟨db, js, hrun, hsame⟩
  · have hreads := hstart.reads_runAll warm hhidden hdeployed rfl ops
    obtain ⟨t, ht⟩ := Option.isSome_iff_exists.mp hloaded
    obtain ⟨js, hrun, -⟩ := JournaledState.sload_tracked ht (hdeployed s hshared key)
    change Reads _ _ (s.journaled.tracked assertionContractAddress) at hreads
    rw [ht] at hreads
    rw [hreads.2 key] at hrun
    exact ⟨js, hrun⟩
  · obtain ⟨m, hm, hhide⟩ := hhidden a ha
    obtain ⟨info, hinfo⟩ := installed_info it contract preTxDb postTxDb htouched ha
    rw [hstart.tracked_runAll warm hhidden ha hm hhide hinfo,
      hstart.tracked_runAll warm hhidden ha hm hhide hinfo, List.foldl_filter]
    refine List.foldl_ext _ _ _ fun t op _ => ?_
    cases op <;> rfl

end

end AssertionExecution
