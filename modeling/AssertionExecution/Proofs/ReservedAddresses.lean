import AssertionExecution.Proofs.PersistentAccounts

/-!
# The reserved addresses

What is installed at the assertion contract, the caller and the precompile hides whatever the
chain holds there, in both forks.
-/

namespace AssertionExecution

open HashMap

def reservedInfo (contract : AssertionContract) (a : Address) : AccountInfo :=
  if a = assertionContractAddress then (contractAccount contract).info
  else if a = callerAddress then { AccountInfo.default with nonce := 42, balance := u256Max }
  else { AccountInfo.default with code := some [0x45] }

/-- The value of a slot at a reserved address: what the deployment left in the contract's. -/
def reservedSlot (contract : AssertionContract) (a : Address) (key : U256) : U256 :=
  if a = assertionContractAddress then deployedValue contract key else 0

section

variable {Active : Type} (it : Iteration) (contract : AssertionContract)
  (preTxDb postTxDb : ForkDb Active)

def callerAccount : Account where
  info := { AccountInfo.default with nonce := 42, balance := u256Max }
  storage := ∅
  status := { touched := true }

/-- At the caller's address the layer is its committed account with the forks hidden. -/
lemma installed_caller :
    (installed it contract preTxDb postTxDb).activeDb.basic.lookup callerAddress =
        some callerAccount.info ∧
      (installed it contract preTxDb postTxDb).activeDb.storage.lookup callerAddress =
        some ⟨∅, true⟩ := by
  have hlookup : ∀ changes : EvmState,
      (changes.insert callerAddress callerAccount).lookup callerAddress = some callerAccount :=
    fun changes => AList.lookup_insert changes
  obtain ⟨hbasic, hstorage⟩ := ForkDb.commit_at it (ForkDb.new postTxDb)
    (hlookup ((∅ : EvmState).insert assertionContractAddress (contractAccount contract)))
  unfold installed insertPrecompileAccount AssertionExecutor.insertAssertionContract
  simp only [ForkDb.lookup_hideInnerStorage]
  rw [if_neg (by decide)]
  constructor
  · refine (lookup_insert_ite _ _ _ _).trans ((if_neg (by decide)).trans (hbasic.trans ?_))
    simp [ForkDb.commitAccount, callerAccount, Account.isTouched, Account.isSelfdestructed]
  · refine (ForkDb.lookup_hideInnerStorage _ _ _).trans ((if_pos rfl).trans ?_)
    rw [ForkDb.lookup_hideInnerStorage, if_neg (by decide)]
    refine (congrArg (fun m : Option ForkStorageMap =>
      some { m.getD .default with dontReadFromInnerDb := true }) hstorage).trans ?_
    simp [ForkDb.commitAccount, callerAccount, Account.isTouched, Account.isSelfdestructed,
      ForkDb.new]
    rfl

lemma installed_precompile :
    (installed it contract preTxDb postTxDb).activeDb.basic.lookup precompileAddress =
        some { AccountInfo.default with code := some [0x45] } ∧
      (installed it contract preTxDb postTxDb).activeDb.storage.lookup precompileAddress =
        some ⟨∅, true⟩ := by
  have habsent : precompileAddress ∉
      ((∅ : EvmState).insert assertionContractAddress (contractAccount contract)).insert
        callerAddress callerAccount := by
    rw [AList.mem_insert, AList.mem_insert]
    simp only [AList.notMem_empty, or_false, not_or]
    decide
  have hstorage : (AssertionExecutor.insertAssertionContract it contract
      (.new preTxDb postTxDb)).activeDb.storage.lookup precompileAddress = none := by
    unfold AssertionExecutor.insertAssertionContract
    simp only [ForkDb.lookup_hideInnerStorage]
    rw [if_neg (by decide), if_neg (by decide)]
    exact (ForkDb.commit_frame it (ForkDb.new postTxDb) _ habsent).2
  refine ⟨AList.lookup_insert _, (ForkDb.lookup_hideInnerStorage _ _ _).trans ?_⟩
  rw [if_pos rfl]
  exact congrArg (fun m : Option ForkStorageMap =>
    some { m.getD .default with dontReadFromInnerDb := true }) hstorage

/-- The storage that is installed at a reserved address depends on the contract alone. -/
lemma installed_reservedSlot {a : Address} (ha : a ∈ defaultPersistentAccounts) :
    ∃ m, (installed it contract preTxDb postTxDb).activeDb.storage.lookup a = some m ∧
      m.dontReadFromInnerDb = true ∧
      ∀ key, (m.map.lookup key).getD 0 = reservedSlot contract a key := by
  simp only [defaultPersistentAccounts, List.mem_cons, List.not_mem_nil, or_false] at ha
  unfold reservedSlot
  rcases ha with rfl | rfl | rfl
  · simp only [if_pos]
    exact installed_contract_storage it contract preTxDb postTxDb
  · refine ⟨_, (installed_caller it contract preTxDb postTxDb).2, rfl, fun key => ?_⟩
    rw [if_neg (by decide)]
    rfl
  · refine ⟨_, (installed_precompile it contract preTxDb postTxDb).2, rfl, fun key => ?_⟩
    rw [if_neg (by decide)]
    rfl

lemma installed_reservedInfo (htouched : contract.accountStatus.touched = true)
    (hlives : contract.accountStatus.selfDestructed = false) {a : Address}
    (ha : a ∈ defaultPersistentAccounts) :
    (installed it contract preTxDb postTxDb).activeDb.basic.lookup a =
      some (reservedInfo contract a) := by
  simp only [defaultPersistentAccounts, List.mem_cons, List.not_mem_nil, or_false] at ha
  unfold reservedInfo
  rcases ha with rfl | rfl | rfl
  · rw [if_pos rfl, (installed_contract it contract preTxDb postTxDb).1]
    simp [ForkDb.commitAccount, contractAccount, Account.isTouched, Account.isSelfdestructed,
      htouched, hlives]
  · rw [if_neg (by decide), if_pos rfl]
    exact (installed_caller it contract preTxDb postTxDb).1
  · rw [if_neg (by decide), if_neg (by decide)]
    exact (installed_precompile it contract preTxDb postTxDb).1

variable {it contract preTxDb postTxDb} {Err : Type} [DatabaseRef Active Err]
  {init : JournaledState} {s : Running (ForkDb Active)} {visited : List (Running (ForkDb Active))}

/-- Reads of slots at the reserved addresses see what is installed, whatever forks have been
switched. -/
lemma reserved_slots
    (h : ForkRun (installed it contract preTxDb postTxDb) init (s :: visited)) {a : Address}
    (ha : a ∈ defaultPersistentAccounts) (key : U256) :
    storageRef s.db a key = .ok (reservedSlot contract a key) := by
  obtain ⟨m, hm, hhidden, hvalue⟩ := installed_reservedSlot it contract preTxDb postTxDb ha
  have hstorage : s.db.activeDb.storage.lookup a = some m := by
    rw [(isolated_of_run h s visited rfl).layer, hm]
  rw [← hvalue key]
  exact s.db.activeDb.storageRef_of_hidden hstorage hhidden key

lemma reserved_infos (htouched : contract.accountStatus.touched = true)
    (hlives : contract.accountStatus.selfDestructed = false)
    (h : ForkRun (installed it contract preTxDb postTxDb) init (s :: visited)) {a : Address}
    (ha : a ∈ defaultPersistentAccounts) :
    basicRef s.db a = .ok (some (reservedInfo contract a)) := by
  have hbasic : s.db.activeDb.basic.lookup a = some (reservedInfo contract a) := by
    rw [(isolated_of_run h s visited rfl).layer]
    exact installed_reservedInfo it contract preTxDb postTxDb htouched hlives ha
  exact s.db.activeDb.basicRef_of_some hbasic

end

/-- Two runs of the same assertion contract over different databases, through any switches, read
the same at the assertion contract, the caller and the precompile. The contract has its
deployed code, and its slots have the values recorded at its extraction or zero. -/
theorem reserved_addresses_independent {Active Err : Type} [DatabaseRef Active Err]
    (it it' : Iteration) (contract : AssertionContract)
    (preTxDb postTxDb preTxDb' postTxDb' : ForkDb Active)
    (htouched : contract.accountStatus.touched = true)
    (hlives : contract.accountStatus.selfDestructed = false) {init init' : JournaledState}
    {s s' : Running (ForkDb Active)} {visited visited' : List (Running (ForkDb Active))}
    (h : ForkRun (installed it contract preTxDb postTxDb) init (s :: visited))
    (h' : ForkRun (installed it' contract preTxDb' postTxDb') init' (s' :: visited')) :
    (∀ a ∈ defaultPersistentAccounts, basicRef s.db a = basicRef s'.db a ∧
      ∀ key, storageRef s.db a key = storageRef s'.db a key) ∧
    (∃ info, basicRef s.db assertionContractAddress = .ok (some info) ∧
      info.code = some contract.deployedCode ∧ info.codeHash = contract.codeHash) ∧
    ∀ key, storageRef s.db assertionContractAddress key =
      .ok (((contract.storage.lookup key).map EvmStorageSlot.presentValue).getD 0) := by
  have hcontract : assertionContractAddress ∈ defaultPersistentAccounts := by decide
  refine ⟨fun a ha => ⟨?_, fun key => ?_⟩, ?_, fun key => ?_⟩
  · rw [reserved_infos htouched hlives h ha, reserved_infos htouched hlives h' ha]
  · rw [reserved_slots h ha, reserved_slots h' ha]
  · exact ⟨_, reserved_infos htouched hlives h hcontract, rfl, rfl⟩
  · rw [reserved_slots h hcontract, reservedSlot, if_pos rfl, deployedValue,
      if_pos ⟨htouched, by rw [hlives]; exact Bool.false_ne_true⟩]

/-- A chain with an account at the contract's address. -/
def occupiedFork : ForkDb Unit :=
  (ForkDb.new ()).commitAccount assertionContractAddress
    ⟨.default, (∅ : EvmStorage).insert 0 (.new 5), { touched := true }⟩

/-- What the chain stores at the contract's address is not seen, also before the transaction. -/
theorem reserved_addresses_independent_occupied :
    ∃ db journaled, (installed .buckets ⟨9, [], 0, ∅, { touched := true }⟩ occupiedFork
        occupiedFork).switchFork .preTx (.new []) (.new []) = .ok (db, journaled) ∧
      storageRef db assertionContractAddress 0 =
        storageRef (installed .buckets ⟨9, [], 0, ∅, { touched := true }⟩ (.new ()) (.new ()) :
          MultiForkDb (ForkDb Unit)) assertionContractAddress 0 := by
  have hstart : ForkRun (installed .buckets ⟨9, [], 0, ∅, { touched := true }⟩ occupiedFork
      occupiedFork) (.new []) [⟨_, .new []⟩] := .start (.new [])
  obtain ⟨db, journaled, hswitch⟩ : ∃ db journaled, (installed .buckets
      ⟨9, [], 0, ∅, { touched := true }⟩ occupiedFork occupiedFork).switchFork .preTx (.new [])
        (.new []) = .ok (db, journaled) := ⟨_, _, rfl⟩
  have hindependent := reserved_addresses_independent .buckets .buckets
    ⟨9, [], 0, ∅, { touched := true }⟩ occupiedFork occupiedFork (.new ()) (.new ()) rfl rfl
    (hstart.switchFork .preTx hswitch) (ForkRun.start (.new []) : ForkRun _ (.new []) _)
  exact ⟨db, journaled, hswitch, (hindependent.1 assertionContractAddress (by decide)).2 0⟩

end AssertionExecution
