import AssertionExecution.Model.Precompiles

/-!
# The two forks stay apart

Along any run of switches and writes, the database and the journaled state that an
assertion sees away from the persistent accounts are those of the active fork alone.
-/

namespace AssertionExecution

open HashMap

structure Running (Db : Type) where
  db : MultiForkDb Db
  journaled : JournaledState

/-- The forks of an assertion run, with the contract, the caller and the precompile account
installed above both of them. -/
def installed {Active : Type} (it : Iteration) (contract : AssertionContract)
    (preTxDb postTxDb : ForkDb Active) : MultiForkDb (ForkDb Active) :=
  insertPrecompileAccount
    (AssertionExecutor.insertAssertionContract it contract (.new preTxDb postTxDb))

def forkDbOf {Db : Type} (preTxDb postTxDb : Db) : ForkId → Db
  | .preTx => preTxDb
  | .postTx => postTxDb

/-- The states a run has visited, the current one first. The active journaled state may
change in any way between switches. -/
inductive ForkRun {Active : Type} (start : MultiForkDb (ForkDb Active)) (init : JournaledState) :
    List (Running (ForkDb Active)) → Prop where
  | start (journaled : JournaledState) : ForkRun start init [⟨start, journaled⟩]
  | journal {s : Running (ForkDb Active)} {visited : List (Running (ForkDb Active))}
      (h : ForkRun start init (s :: visited)) (journaled : JournaledState) :
      ForkRun start init (⟨s.db, journaled⟩ :: s :: visited)
  | switchFork {s : Running (ForkDb Active)} {visited : List (Running (ForkDb Active))}
      (h : ForkRun start init (s :: visited)) (id : ForkId) {db : MultiForkDb (ForkDb Active)}
      {journaled : JournaledState}
      (hswitch : s.db.switchFork id s.journaled init = .ok (db, journaled)) :
      ForkRun start init (⟨db, journaled⟩ :: s :: visited)

/-- The journaled state in which a fork was last active. -/
def lastActive {Db : Type} (id : ForkId) (visited : List (Running Db)) : Option JournaledState :=
  (visited.find? (fun s => s.db.activeForkId = id)).map (·.journaled)

/-! ### What is installed -/

namespace ForkDb

variable {Active : Type}

lemma commitAccount_frame (db : ForkDb Active) {address a : Address} (account : Account)
    (h : a ≠ address) :
    (db.commitAccount address account).basic.lookup a = db.basic.lookup a ∧
      (db.commitAccount address account).storage.lookup a = db.storage.lookup a := by
  unfold commitAccount
  split_ifs
  · exact ⟨rfl, rfl⟩
  · simp [modifyOrDefault, h]
  · refine ⟨by simp [h], ?_⟩
    cases db.storage.lookup address <;> simp [h]

lemma commitAccount_innerDb (db : ForkDb Active) (address : Address) (account : Account) :
    (db.commitAccount address account).innerDb = db.innerDb := by
  unfold commitAccount
  split_ifs <;> rfl

lemma foldl_commitAccount_frame (l : List (Address × Account)) (db : ForkDb Active) {a : Address}
    (ha : a ∉ l.map Prod.fst) :
    (l.foldl (fun db e => db.commitAccount e.1 e.2) db).basic.lookup a = db.basic.lookup a ∧
      (l.foldl (fun db e => db.commitAccount e.1 e.2) db).storage.lookup a =
        db.storage.lookup a := by
  induction l generalizing db with
  | nil => exact ⟨rfl, rfl⟩
  | cons e l ih =>
    rw [List.map_cons, List.mem_cons, not_or] at ha
    obtain ⟨hbasic, hstorage⟩ := ih (db.commitAccount e.1 e.2) ha.2
    obtain ⟨hbasic', hstorage'⟩ := db.commitAccount_frame e.2 ha.1
    exact ⟨hbasic.trans hbasic', hstorage.trans hstorage'⟩

lemma commit_innerDb (it : Iteration) (db : ForkDb Active) (changes : EvmState) :
    (db.commit it changes).innerDb = db.innerDb := by
  have hfold : ∀ (l : List (Address × Account)) (db : ForkDb Active),
      (l.foldl (fun db e => db.commitAccount e.1 e.2) db).innerDb = db.innerDb := by
    intro l
    induction l with
    | nil => exact fun db => rfl
    | cons e l ih =>
      intro db
      exact (ih (db.commitAccount e.1 e.2)).trans (db.commitAccount_innerDb e.1 e.2)
  exact hfold (iter it changes) db

lemma commit_frame (it : Iteration) (db : ForkDb Active) (changes : EvmState) {a : Address}
    (ha : a ∉ changes) :
    (db.commit it changes).basic.lookup a = db.basic.lookup a ∧
      (db.commit it changes).storage.lookup a = db.storage.lookup a := by
  apply foldl_commitAccount_frame
  rwa [mem_iter_keys_iff]

variable {Err : Type} [DatabaseRef Active Err]

/-! The reads, by what the layer holds. -/

lemma basicRef_of_some (db : ForkDb Active) {a : Address} {info : AccountInfo}
    (h : db.basic.lookup a = some info) : basicRef db a = .ok (some info) := by
  simp only [basicRef, h]

lemma basicRef_of_none (db : ForkDb Active) {a : Address} (h : db.basic.lookup a = none) :
    basicRef db a = basicRef db.innerDb a := by
  simp only [basicRef, h]

lemma storageRef_of_hidden (db : ForkDb Active) {a : Address} {m : ForkStorageMap}
    (h : db.storage.lookup a = some m) (hhidden : m.dontReadFromInnerDb = true) (slot : U256) :
    storageRef db a slot = .ok ((m.map.lookup slot).getD 0) := by
  simp only [storageRef, h, hhidden, if_true]

lemma storageRef_of_none (db : ForkDb Active) {a : Address} (h : db.storage.lookup a = none)
    (slot : U256) : storageRef db a slot = storageRef db.innerDb a slot := by
  simp only [storageRef, h]

end ForkDb

section

variable {Active : Type} (it : Iteration) (contract : AssertionContract)
  (preTxDb postTxDb : ForkDb Active)

lemma installed_forks :
    (installed it contract preTxDb postTxDb).activeForkId = .postTx ∧
      (installed it contract preTxDb postTxDb).activeDb.innerDb = postTxDb ∧
      (installed it contract preTxDb postTxDb).inactiveForks =
        AList.singleton .preTx ⟨preTxDb, none⟩ :=
  ⟨rfl, ForkDb.commit_innerDb it _ _, rfl⟩

lemma installed_layer :
    (installed it contract preTxDb postTxDb).activeDb =
      { (installed it contract preTxDb postTxDb).activeDb with innerDb := postTxDb } := by
  have heta : ∀ layer : ForkDb (ForkDb Active), layer.innerDb = postTxDb →
      layer = { layer with innerDb := postTxDb } := by
    rintro layer rfl
    rfl
  exact heta _ (installed_forks it contract preTxDb postTxDb).2.1

lemma installed_frame {a : Address} (ha : a ∉ defaultPersistentAccounts) :
    (installed it contract preTxDb postTxDb).activeDb.basic.lookup a = none ∧
      (installed it contract preTxDb postTxDb).activeDb.storage.lookup a = none := by
  simp only [defaultPersistentAccounts, List.mem_cons, List.not_mem_nil, or_false, not_or] at ha
  obtain ⟨hcontract, hcaller, hprecompile⟩ := ha
  unfold installed insertPrecompileAccount AssertionExecutor.insertAssertionContract
  simp only [ForkDb.hideInnerStorage, ForkDb.insertAccountInfo, modifyOrDefault,
    lookup_insert_ite, if_neg hcontract, if_neg hcaller, if_neg hprecompile, MultiForkDb.commit]
  have hnotMem : ∀ (account caller : Account), a ∉
      ((∅ : EvmState).insert assertionContractAddress account).insert callerAddress caller := by
    intro account caller
    rw [AList.mem_insert, AList.mem_insert]
    simp [hcontract, hcaller, AList.notMem_empty]
  exact ForkDb.commit_frame it _ _ (hnotMem _ _)

end

/-! ### Switching -/

lemma forkId_eq_of_ne {id id' active : ForkId} (h : id ≠ active) (h' : id' ≠ active) :
    id' = id := by
  cases id <;> cases id' <;> cases active <;> first | rfl | exact (h rfl).elim | exact (h' rfl).elim

lemma lookup_updateJournaledState (active target : JournaledState) {a : Address}
    (ha : a ∉ defaultPersistentAccounts) :
    (updateJournaledState defaultPersistentAccounts active target).state.lookup a =
      target.state.lookup a := by
  have hmerge : ∀ (addr : Address) (target : JournaledState), a ≠ addr →
      (mergeJournaledStateData addr active target).state.lookup a = target.state.lookup a := by
    intro addr target hne
    unfold mergeJournaledStateData JournaledState.setAccount
    cases active.state.lookup addr with
    | none => rfl
    | some acc => cases target.state.lookup addr <;> simp [hne]
  simp only [defaultPersistentAccounts, List.mem_cons, List.not_mem_nil, or_false, not_or] at ha
  simp only [updateJournaledState, defaultPersistentAccounts, List.foldl_cons, List.foldl_nil]
  rw [hmerge _ _ ha.2.2, hmerge _ _ ha.2.1, hmerge _ _ ha.1]

section

variable {Active Err : Type} [DatabaseRef Active Err] {it : Iteration}
  {contract : AssertionContract} {preTxDb postTxDb : ForkDb Active} {init : JournaledState}

/-- What a run keeps: one layer over the active fork's database, and the other fork stored
with the journaled state it was left in. -/
structure Isolated (start : MultiForkDb (ForkDb Active)) (preTxDb postTxDb : ForkDb Active)
    (s : Running (ForkDb Active)) (visited : List (Running (ForkDb Active))) : Prop where
  layer : s.db.activeDb =
    { start.activeDb with innerDb := forkDbOf preTxDb postTxDb s.db.activeForkId }
  active : s.db.inactiveForks.lookup s.db.activeForkId = none
  inactive : ∀ id, id ≠ s.db.activeForkId → s.db.inactiveForks.lookup id =
    some ⟨forkDbOf preTxDb postTxDb id, lastActive id visited⟩

omit [DatabaseRef Active Err] in
lemma lastActive_cons (id : ForkId) (s : Running (ForkDb Active))
    (visited : List (Running (ForkDb Active))) :
    lastActive id (s :: visited) =
      if s.db.activeForkId = id then some s.journaled else lastActive id visited := by
  unfold lastActive
  rw [List.find?_cons]
  by_cases h : s.db.activeForkId = id <;> simp [h]

omit [DatabaseRef Active Err] in
variable (init) in
/-- A switch to the other fork succeeds and hands out the state that fork was left in. -/
lemma Isolated.switchFork {start : MultiForkDb (ForkDb Active)} {s : Running (ForkDb Active)}
    {visited : List (Running (ForkDb Active))} (h : Isolated start preTxDb postTxDb s visited)
    {id : ForkId} (hid : id ≠ s.db.activeForkId) :
    ∃ db, s.db.switchFork id s.journaled init =
        .ok (db, updateJournaledState defaultPersistentAccounts s.journaled
          ((lastActive id visited).getD init)) ∧
      Isolated start preTxDb postTxDb
        ⟨db, updateJournaledState defaultPersistentAccounts s.journaled
          ((lastActive id visited).getD init)⟩ (s :: visited) := by
  refine ⟨_, by rw [MultiForkDb.switchFork, if_neg hid, h.inactive id hid], ?_⟩
  constructor
  · dsimp only [ForkDb.replaceInnerDb]
    rw [h.layer]
  · simp [hid, AList.lookup_erase]
  · intro id' hid'
    dsimp only at hid' ⊢
    have hprev : id' = s.db.activeForkId := forkId_eq_of_ne (Ne.symm hid) hid'
    subst hprev
    rw [AList.lookup_insert, lastActive_cons, if_pos rfl, ForkDb.replaceInnerDb, h.layer]

omit [DatabaseRef Active Err] in
lemma Isolated.stay {start : MultiForkDb (ForkDb Active)} {s : Running (ForkDb Active)}
    {visited : List (Running (ForkDb Active))} (h : Isolated start preTxDb postTxDb s visited)
    (journaled : JournaledState) :
    Isolated start preTxDb postTxDb ⟨s.db, journaled⟩ (s :: visited) := by
  refine ⟨h.layer, h.active, fun id hid => ?_⟩
  rw [lastActive_cons, if_neg (Ne.symm hid)]
  exact h.inactive id hid

omit [DatabaseRef Active Err] in
theorem isolated_of_run {states : List (Running (ForkDb Active))}
    (h : ForkRun (installed it contract preTxDb postTxDb) init states) :
    ∀ s visited, states = s :: visited →
      Isolated (installed it contract preTxDb postTxDb) preTxDb postTxDb s visited := by
  induction h with
  | start journaled =>
    rintro s visited ⟨⟩
    obtain ⟨hactive, -, hinactive⟩ := installed_forks it contract preTxDb postTxDb
    refine ⟨?_, ?_, ?_⟩
    · rw [hactive]
      exact installed_layer it contract preTxDb postTxDb
    · rw [hactive, hinactive]
      rfl
    · intro id hid
      rw [hactive] at hid
      rw [hinactive]
      cases id with
      | preTx => rfl
      | postTx => exact (hid rfl).elim
  | journal h journaled ih =>
    rintro s visited ⟨⟩
    exact (ih _ _ rfl).stay journaled
  | @switchFork s visited h id db journaled hswitch ih =>
    rintro s' visited' ⟨⟩
    by_cases hid : id = s.db.activeForkId
    · rw [MultiForkDb.switchFork, if_pos hid] at hswitch
      cases hswitch
      exact (ih _ _ rfl).stay s.journaled
    · obtain ⟨db', hrun, hisolated⟩ := (ih _ _ rfl).switchFork init hid
      rw [hrun] at hswitch
      cases hswitch
      exact hisolated

/-- Away from the installed accounts the layer over the forks answers like the fork below. -/
lemma Isolated.reads {s : Running (ForkDb Active)} {visited : List (Running (ForkDb Active))}
    (h : Isolated (installed it contract preTxDb postTxDb) preTxDb postTxDb s visited)
    {a : Address} (ha : a ∉ defaultPersistentAccounts) :
    basicRef s.db a = basicRef (forkDbOf preTxDb postTxDb s.db.activeForkId) a ∧
      ∀ slot, storageRef s.db a slot =
        storageRef (forkDbOf preTxDb postTxDb s.db.activeForkId) a slot := by
  obtain ⟨hbasic, hstorage⟩ := installed_frame it contract preTxDb postTxDb ha
  have hinner : s.db.activeDb.innerDb = forkDbOf preTxDb postTxDb s.db.activeForkId := by
    rw [h.layer]
  have hbasic' : s.db.activeDb.basic.lookup a = none := by rw [h.layer, hbasic]
  have hstorage' : s.db.activeDb.storage.lookup a = none := by rw [h.layer, hstorage]
  rw [← hinner]
  exact ⟨s.db.activeDb.basicRef_of_none hbasic', s.db.activeDb.storageRef_of_none hstorage'⟩

/-- In every state of a run exactly the other fork is inactive and can be switched to, reads
outside the persistent accounts are those of the active fork's database, and a switch hands
out their entries as the fork left them. -/
theorem fork_isolation (it : Iteration) (contract : AssertionContract)
    (preTxDb postTxDb : ForkDb Active) (warm : List Address) {s : Running (ForkDb Active)}
    {visited : List (Running (ForkDb Active))}
    (h : ForkRun (installed it contract preTxDb postTxDb) (.new warm) (s :: visited)) :
    (∀ id, (s.db.inactiveForks.lookup id).isSome ↔ id ≠ s.db.activeForkId) ∧
    (∀ a, a ∉ defaultPersistentAccounts →
      basicRef s.db a = basicRef (forkDbOf preTxDb postTxDb s.db.activeForkId) a ∧
      (∀ slot, storageRef s.db a slot =
        storageRef (forkDbOf preTxDb postTxDb s.db.activeForkId) a slot) ∧
      ∀ input slot, loadCall.abiDecode input = some (a, slot) →
        loadExternalSlot s.db input =
          match storageRef (forkDbOf preTxDb postTxDb s.db.activeForkId) a slot with
          | .ok value => toBytes 32 value.toNat
          | .error _ => []) ∧
    s.db.switchFork s.db.activeForkId s.journaled (.new warm) = .ok (s.db, s.journaled) ∧
    ∀ id, id ≠ s.db.activeForkId →
      ∃ db journaled, s.db.switchFork id s.journaled (.new warm) = .ok (db, journaled) ∧
        db.activeForkId = id ∧
        ∀ a, a ∉ defaultPersistentAccounts →
          journaled.state.lookup a = (lastActive id visited).bind (·.state.lookup a) := by
  have hisolated := isolated_of_run h s visited rfl
  refine ⟨fun id => ?_, fun a ha => ?_, if_pos rfl, fun id hid => ?_⟩
  · by_cases hid : id = s.db.activeForkId
    · rw [hid, hisolated.active]
      simp
    · rw [hisolated.inactive id hid]
      simp [hid]
  · obtain ⟨hbasic, hstorage⟩ := hisolated.reads ha
    refine ⟨hbasic, hstorage, fun input slot hinput => ?_⟩
    rw [loadExternalSlot, hinput, ← hstorage]
    rfl
  · obtain ⟨db, hrun, hafter⟩ := hisolated.switchFork (.new warm) hid
    refine ⟨db, _, hrun, ?_, fun a ha => ?_⟩
    · rw [MultiForkDb.switchFork, if_neg hid, hisolated.inactive id hid] at hrun
      cases hrun
      rfl
    · rw [lookup_updateJournaledState _ _ ha]
      cases lastActive id visited <;> rfl

end

/-- The database without accounts. -/
instance : DatabaseRef Unit Empty where
  basicRef _ _ := .ok none
  storageRef _ _ _ := .ok 0
  codeByHashRef _ _ := .ok []
  blockHashRef _ _ := .ok 0

/-- What is written to account 7 after the transaction is not there before it. -/
theorem fork_isolation_write :
    let db := installed .buckets ⟨9, [], 0, ∅, {}⟩ (.new ()) (.new ())
    ∃ db' journaled, db.switchFork .preTx
        ((JournaledState.new []).setAccount 7 .newNotExisting) (.new []) = .ok (db', journaled) ∧
      journaled.state.lookup 7 = none := by
  intro db
  obtain ⟨-, -, -, hswitch⟩ := fork_isolation .buckets ⟨9, [], 0, ∅, {}⟩ (.new ()) (.new ()) []
    (.journal (.start (.new [])) ((JournaledState.new []).setAccount 7 .newNotExisting))
  obtain ⟨db', journaled, hrun, -, hentry⟩ := hswitch .preTx (by decide)
  exact ⟨db', journaled, hrun, hentry 7 (by decide)⟩

end AssertionExecution
