import AssertionExecution.Model.ContractExtractor
import AssertionExecution.Proofs.ActivityTimeline
import AssertionExecution.Proofs.SyncExactness

/-!
# Additions and removals of the state oracle

An addition is stored under the hash of what the DA layer returned, a removal looks up the
id of its event. They meet when the DA layer returns the preimage of the id it was asked for.
-/

namespace AssertionExecution

open EffectLogic FirstMatch ActivityTimeline ContractExtractor

def Chain.oracleLogs {blockOf : B256 → Option Block} (chain : Chain blockOf) (self : Indexer)
    (n : Nat) : List ChainLog :=
  ((chain.blocks[n]?).map fun b => b.logs.filter fun l => l.address = self.stateOracle).getD []

lemma Chain.modifications_eq {blockOf : B256 → Option Block} (chain : Chain blockOf)
    (self : Indexer) (services : Services) (n : Nat) :
    chain.modifications self services n =
      (chain.oracleLogs self n).filterMap (self.modificationOf services) := by
  unfold Chain.modifications Chain.oracleLogs
  cases chain.blocks[n]? with
  | none => rfl
  | some b =>
    change ((b.logs.filter _).filterMap _).map Prod.snd = _
    rw [List.map_filterMap]
    apply List.filterMap_congr
    intro l _
    cases self.modificationOf services l <;> rfl

namespace EventRemovals

variable {self : Indexer} {services : Services} {d d' : OrderedTree Address (List AssertionState)}
  {logs : List ChainLog}

/-- The modifications of a sequence of logs have reached the store, on its own in batches of
any size or through a run of `sync` calls. -/
inductive Moved (indexer : Indexer) (services : Services)
    (d : OrderedTree Address (List AssertionState)) :
    List ChainLog → OrderedTree Address (List AssertionState) → Prop
  | batches {s s' : AssertionStore} {logs : List ChainLog} (hs : s.db = d)
      (h : Applied s (logs.filterMap (indexer.modificationOf services)) s') :
      Moved indexer services d logs s'.db
  | synced {blockOf : B256 → Option Block} {chain : Chain blockOf} {awaited moved : Nat}
      {s : IndexerState} (h : Indexer.SyncRun indexer services d chain awaited moved s) :
      Moved indexer services d
        ((List.range (Indexer.firstPending moved)).flatMap (chain.oracleLogs indexer)) s.store.db

lemma Moved.eq_applyAll (h : Moved self services d logs d') :
    d' = AssertionStore.applyAll d (logs.filterMap (self.modificationOf services)) := by
  cases h with
  | batches hs h => rw [h.db_eq, hs]
  | synced h =>
    have hdb := (Indexer.synced_of_run h).1.indexes.db
    rw [funext (Chain.modifications_eq _ self services)] at hdb
    rw [List.filterMap_flatMap]
    exact hdb

structure Logs (event : SolEvent) (log : ChainLog) (e : StateOracleEvent) : Prop where
  signature : log.topics.head? = some event.signatureHash
  decoded : event.decode log.topics log.data = some e

/-! ### What the events turn into -/

lemma modificationOf_removed (hdistinct : services.assertionAdded.signatureHash ≠
      services.assertionRemoved.signatureHash) {log : ChainLog} {e : StateOracleEvent}
    (h : Logs services.assertionRemoved log e) (hblock : e.activeAtBlock.toNat ≤ u64Max) :
    self.modificationOf services log =
      some (.remove e.contractAddress e.assertionId e.activeAtBlock.toNat log.logIndex) := by
  have hnot : log.topics.head? ≠ some services.assertionAdded.signatureHash := by
    rw [h.signature]
    exact fun heq => hdistinct (Option.some_inj.mp heq).symm
  unfold Indexer.modificationOf Indexer.extract
  rw [if_neg hnot, if_pos h.signature, h.decoded]
  dsimp only
  rw [if_neg (Nat.not_lt.mpr hblock)]

lemma modificationOf_added {log : ChainLog} {e : StateOracleEvent}
    (h : Logs services.assertionAdded log e) {response : DaFetchResponse}
    (hfetch : services.fetchAssertion e.assertionId = some response)
    {contract : AssertionContract} {recorder : TriggerRecorder}
    (hextract : services.extractAssertionContract
      (response.bytecode ++ response.encodedConstructorArgs) self.executorConfig =
        some (contract, recorder)) (hblock : e.activeAtBlock.toNat ≤ u64Max) :
    self.modificationOf services log =
      some (.add e.contractAddress contract recorder e.activeAtBlock.toNat log.logIndex) := by
  unfold Indexer.modificationOf Indexer.extract
  rw [if_pos h.signature, h.decoded]
  dsimp only
  rw [hfetch]
  dsimp only
  rw [hextract]
  dsimp only
  rw [if_neg (Nat.not_lt.mpr hblock)]

lemma id_of_extractAssertionContract {Db : Type} {evm : ExtractorEvm Db} {code : Bytes}
    {config : ExecutorConfig} {contract : AssertionContract} {recorder : TriggerRecorder}
    (h : extractAssertionContract evm code config = .ok (contract, recorder)) :
    contract.id = evm.keccak256 code := by
  unfold extractAssertionContract at h
  dsimp only at h
  -- Every other outcome of the deployment or of the call is an error.
  split at h
  · cases h
  split at h
  · cases h
  split at h
  · cases h
  split at h
  · cases h
  split at h
  · cases h
  split at h
  · cases h
  split at h
  · cases h
  cases h
  rfl

/-! ### The record after both -/

lemma historyOf_append (adopter : Address) (id : B256) (ms ms' : List PendingModification) :
    historyOf adopter id (ms ++ ms') = historyOf adopter id ms ++ historyOf adopter id ms' := by
  unfold historyOf AssertionStore.forId AssertionStore.forAdopter
  rw [List.filter_append, List.filter_append]

lemma historyOf_cons_of_pos {adopter : Address} {id : B256} {m : PendingModification}
    (hadopter : m.assertionAdopter = adopter) (hid : m.assertionContractId = id)
    (ms : List PendingModification) :
    historyOf adopter id (m :: ms) = m :: historyOf adopter id ms := by
  unfold historyOf AssertionStore.forId AssertionStore.forAdopter
  rw [List.filter_cons_of_pos (by simpa using hadopter),
    List.filter_cons_of_pos (by simpa using hid)]

lemma historyOf_cons_of_ne {adopter : Address} {id : B256} {m : PendingModification}
    (hid : m.assertionContractId ≠ id) (ms : List PendingModification) :
    historyOf adopter id (m :: ms) = historyOf adopter id ms := by
  unfold historyOf AssertionStore.forId AssertionStore.forAdopter
  by_cases hadopter : m.assertionAdopter = adopter
  · rw [List.filter_cons_of_pos (by simpa using hadopter),
      List.filter_cons_of_neg (by simpa using hid)]
  · rw [List.filter_cons_of_neg (by simpa using hadopter)]

lemma lastRemove_isSome {ms : List PendingModification} {m : PendingModification} (hm : m ∈ ms)
    (h : m.isAdd = false) : ∃ r, lastRemove ms = some r := by
  have hmem : m ∈ ms.filter (!·.isAdd) := List.mem_filter.mpr ⟨hm, by simp [h]⟩
  unfold lastRemove
  cases hlast : (ms.filter (!·.isAdd)).getLast? with
  | none =>
    rw [List.getLast?_eq_none_iff.mp hlast] at hmem
    cases hmem
  | some m' => exact ⟨_, rfl⟩

lemma records_after_add {l : List AssertionState} {id : B256} (hlength : l.length ≤ 1)
    (hids : ∀ a ∈ l, a.assertionContractId = id) {add : PendingModification}
    (hadd : add.isAdd = true) (haddId : add.assertionContractId = id)
    {later : List PendingModification} (hlater : ∀ m ∈ later, m.assertionContractId = id) :
    ∃ a : AssertionState,
      (add :: later).foldl AssertionStore.applyModification l = [a] ∧
      a.activeAtBlock = (lastAdd later).getD add.effectiveBlock ∧
      ∀ r, lastRemove later = some r → a.inactiveAtBlock = some r := by
  have hfirst : ∃ a : AssertionState, a.assertionContractId = id ∧
      AssertionStore.applyModification l add = [a] ∧ a.activeAtBlock = add.effectiveBlock := by
    cases add with
    | add adopter contract recorder activeAt logIndex =>
      cases l with
      | nil => exact ⟨⟨activeAt, none, contract, recorder⟩, haddId, rfl, rfl⟩
      | cons a l =>
        have hnil : l = [] := List.eq_nil_of_length_eq_zero (by simpa using hlength)
        have ha : a.assertionContractId = id := hids a (List.mem_cons_self ..)
        have hcontract : a.assertionContractId = contract.id := ha.trans haddId.symm
        subst hnil
        refine ⟨{ a with activeAtBlock := activeAt }, ha, ?_, rfl⟩
        simp [AssertionStore.applyModification, modifyFirstOrAppend, hcontract]
    | remove adopter contractId inactiveAt logIndex => exact (Bool.false_ne_true hadd).elim
  obtain ⟨a, ha, hrun, hactive⟩ := hfirst
  have hfold := foldl_applyModification_singleton a later fun m hm => (hlater m hm).trans ha.symm
  rw [← hrun, ← List.foldl_cons] at hfold
  refine ⟨_, hfold, ?_, ?_⟩
  · rw [← hactive]
  · intro r hr
    rw [hr]
    rfl

/-- The record of an assertion after a list of modifications with an addition of it. -/
lemma records_applyAll_add (hunique : AssertionStore.UniqueRecords d) {adopter : Address}
    {id : B256} (earlier later : List PendingModification) {add : PendingModification}
    (hadopter : add.assertionAdopter = adopter) (hid : add.assertionContractId = id)
    (hadd : add.isAdd = true) :
    ∃ a : AssertionState,
      AssertionStore.records id (AssertionStore.assertions
        (AssertionStore.applyAll d (earlier ++ add :: later)) adopter) = [a] ∧
      a.activeAtBlock = (lastAdd (historyOf adopter id later)).getD add.effectiveBlock ∧
      ∀ r, lastRemove (historyOf adopter id later) = some r → a.inactiveAtBlock = some r := by
  have hlength : (AssertionStore.records id (AssertionStore.assertions
      (AssertionStore.applyAll d earlier) adopter)).length ≤ 1 := by
    rw [AssertionStore.assertions_applyAll]
    exact AssertionStore.length_records_foldl _ _ (hunique adopter) id
  have hids : ∀ m ∈ historyOf adopter id later, m.assertionContractId = id :=
    fun m hm => of_decide_eq_true (List.mem_filter.mp hm).2
  rw [AssertionStore.applyAll_append, AssertionStore.records_applyAll]
  change ∃ a, (historyOf adopter id (add :: later)).foldl _ _ = [a] ∧ _
  rw [historyOf_cons_of_pos hadopter hid]
  exact records_after_add hlength (fun a ha => of_decide_eq_true (List.mem_filter.mp ha).2) hadd
    hid hids

/-- A modification of another assertion leaves no trace in the records of this one. -/
lemma records_applyAll_skip {adopter : Address} {id : B256}
    (earlier later : List PendingModification) {m : PendingModification}
    (hid : m.assertionContractId ≠ id) :
    AssertionStore.records id (AssertionStore.assertions
        (AssertionStore.applyAll d (earlier ++ m :: later)) adopter) =
      AssertionStore.records id (AssertionStore.assertions
        (AssertionStore.applyAll d (earlier ++ later)) adopter) := by
  rw [AssertionStore.records_applyAll, AssertionStore.records_applyAll]
  change (historyOf adopter id _).foldl _ _ = (historyOf adopter id _).foldl _ _
  rw [historyOf_append, historyOf_cons_of_ne hid, ← historyOf_append]

lemma inactive_from_iff {a : AssertionState} {added removed r : Nat}
    (hactive : a.activeAtBlock = added) (hinactive : a.inactiveAtBlock = some removed) :
    (∀ block, r ≤ block → a.isActiveAt block = false) ↔
      added ≤ removed ∧ removed ≤ max added r ∨ removed < added ∧ u64Max ≤ max added r := by
  have hmax : (∀ block, r ≤ block → a.isActiveAt block = false) ↔
      a.inactiveBlock ≤ max added r := by
    constructor
    · intro h
      have hnot := h (max added r) (le_max_right _ _)
      unfold AssertionState.isActiveAt at hnot
      rw [hactive] at hnot
      have hnot := of_decide_eq_false hnot
      omega
    · intro h block hblock
      unfold AssertionState.isActiveAt
      rw [hactive]
      apply decide_eq_false
      omega
  rw [hmax]
  unfold AssertionState.inactiveBlock
  rw [hactive, hinactive]
  dsimp only
  split <;> omega

/-- A removal of an id finds what an addition of that id stored if the DA layer returned data
that hashes to the id, and otherwise leaves it as it is. The record found is inactive from the
removal's block on exactly if the last addition and the last removal of the assertion from
there on say so, in particular if they are these two. -/
theorem removal_finds_addition {Db : Type} {evm : ExtractorEvm Db}
    (hextractor : Extracts evm services)
    (hdistinct : services.assertionAdded.signatureHash ≠ services.assertionRemoved.signatureHash)
    {s : AssertionStore} (hs : s.Reachable) {before between after : List ChainLog}
    {added removed : ChainLog}
    (hmoved : Moved self services s.db (before ++ added :: (between ++ removed :: after)) d')
    {e e' : StateOracleEvent} (hadded : Logs services.assertionAdded added e)
    (hremoved : Logs services.assertionRemoved removed e')
    (hadopter : e'.contractAddress = e.contractAddress) (hid : e'.assertionId = e.assertionId)
    {response : DaFetchResponse} (hfetch : services.fetchAssertion e.assertionId = some response)
    {contract : AssertionContract} {recorder : TriggerRecorder}
    (hextract : extractAssertionContract evm
      (response.bytecode ++ response.encodedConstructorArgs) self.executorConfig =
        .ok (contract, recorder))
    (hlt : e.activeAtBlock.toNat < e'.activeAtBlock.toNat)
    (hbound : e'.activeAtBlock.toNat ≤ u64Max) :
    let hash := evm.keccak256 (response.bytecode ++ response.encodedConstructorArgs)
    let later := historyOf e.contractAddress hash
      ((between ++ removed :: after).filterMap (self.modificationOf services))
    let lastAdded := (lastAdd later).getD e.activeAtBlock.toNat
    let lastRemoved := (lastRemove later).getD e'.activeAtBlock.toNat
    (hash = e.assertionId →
      ((∀ a ∈ AssertionStore.records hash (AssertionStore.assertions d' e.contractAddress),
        ∀ block, e'.activeAtBlock.toNat ≤ block → a.isActiveAt block = false) ↔
        lastAdded ≤ lastRemoved ∧ lastRemoved ≤ max lastAdded e'.activeAtBlock.toNat ∨
          lastRemoved < lastAdded ∧ u64Max ≤ max lastAdded e'.activeAtBlock.toNat)) ∧
    (hash ≠ e.assertionId → ∀ d'', Moved self services s.db
        (before ++ added :: (between ++ after)) d'' →
      AssertionStore.records hash (AssertionStore.assertions d' e.contractAddress) =
        AssertionStore.records hash (AssertionStore.assertions d'' e.contractAddress)) := by
  have hcontract := id_of_extractAssertionContract hextract
  have hservices := (hextractor _ self.executorConfig).trans (congrArg Except.toOption hextract)
  have hadd := modificationOf_added hadded hfetch hservices (hlt.le.trans hbound)
  have hremove := @modificationOf_removed self services hdistinct removed e' hremoved hbound
  intro hash later lastAdded lastRemoved
  constructor
  · intro hhash
    have hmem : PendingModification.remove e'.contractAddress e'.assertionId
        e'.activeAtBlock.toNat removed.logIndex ∈ later := by
      refine List.mem_filter.mpr ⟨List.mem_filter.mpr ⟨List.mem_filterMap.mpr
        ⟨removed, by simp, hremove⟩, decide_eq_true hadopter⟩, decide_eq_true ?_⟩
      exact hid.trans hhash.symm
    obtain ⟨last, hlast⟩ := lastRemove_isSome hmem rfl
    rw [hmoved.eq_applyAll, List.filterMap_append, List.filterMap_cons_some hadd]
    obtain ⟨a, hrecords, hactive, hinactive⟩ := @records_applyAll_add s.db hs.uniqueRecords
      e.contractAddress hash (before.filterMap (self.modificationOf services))
      ((between ++ removed :: after).filterMap (self.modificationOf services))
      (.add e.contractAddress contract recorder e.activeAtBlock.toNat added.logIndex)
      rfl hcontract rfl
    have hlastRemoved : lastRemoved = last := by
      change (lastRemove later).getD _ = last
      rw [hlast, Option.getD_some]
    have hlastAdded : a.activeAtBlock = lastAdded := hactive
    rw [hrecords, hlastRemoved, ← inactive_from_iff hlastAdded (hinactive last hlast)]
    simp only [List.mem_singleton, forall_eq]
  · intro hhash d'' hmoved'
    have hid' : e'.assertionId ≠ hash := fun h => hhash (h.symm.trans hid)
    have hskip := @records_applyAll_skip s.db e.contractAddress hash
      ((before ++ added :: between).filterMap (self.modificationOf services))
      (after.filterMap (self.modificationOf services))
      (.remove e'.contractAddress e'.assertionId e'.activeAtBlock.toNat removed.logIndex) hid'
    rw [← List.filterMap_cons_some hremove] at hskip
    rw [hmoved.eq_applyAll, hmoved'.eq_applyAll]
    simp only [← List.filterMap_append] at hskip
    simpa only [List.append_assoc, List.cons_append] using hskip

/-! ### A sample assertion -/

/-- Code whose `triggers()` registers the function `0xdeadbeef` for balance changes. -/
def runtimeCode : Bytes :=
  toBytes 28 0x6345a1b5c060e01b60005263deadbeef60e01b600452600060006024 ++
    toBytes 28 0x600060007355bb9ad8dc1ee06d47279fc2b23cd755b7f2d3265af100

def deploymentCode : Bytes := toBytes 11 0x603880600b6000396000f3 ++ runtimeCode

def deploymentHash : B256 := 0x0ee2c8773b5bd904a4cfdc4651dd70d016333fa245bb8b0c205051495a6542ee

def deployed : AssertionContract :=
  ⟨deploymentHash, runtimeCode,
    0xd82da01c7410447a4e9f2fddf56041d3d493b0f969762affb085a1cf9f37b278, ∅,
    { created := true, touched := true, loadedAsNotExisting := true }⟩

def recorded : TriggerRecorder := TriggerRecorder.default.addTrigger .balanceChange 0xdeadbeef

def evm : ExtractorEvm Unit where
  keccak256 code := if code = deploymentCode then deploymentHash else keccakEmpty
  emptyDb := ()
  commit _ _ := ()
  insertAccountInfo _ _ _ := ()
  transact _ _ _ _ _ := .ok ⟨.success 65212 [] runtimeCode, AList.singleton assertionContractAddress
    ⟨⟨0, 1, deployed.codeHash, some deployed.deployedCode⟩, deployed.storage,
      deployed.accountStatus⟩⟩
  transactTriggers _ _ _ _ _ := .ok (⟨.success 23720 [] [], ∅⟩, recorded)

/-- Both events carry an address, an id and a block, none of them indexed. -/
def decode (_ : List B256) (data : Bytes) : Option StateOracleEvent :=
  if data.length = 96 then
    some ⟨BitVec.ofNat 160 (ofBytes (data.take 32)),
      BitVec.ofNat 256 (ofBytes ((data.drop 32).take 32)),
      BitVec.ofNat 256 (ofBytes (data.drop 64))⟩
  else none

/-- A DA layer that returns the sample assertion for one id. -/
def servicesFor (id : B256) : Services where
  assertionAdded := ⟨0xdce5691f1b40d9c401aa5edfa87c6b5e8739e9128575e90d70fb34dea7f9b6f7, decode⟩
  assertionRemoved := ⟨0xdfc42fc82464a7207279db6051573c87f29d3c290b34e37ebbf1d0a517585bdb, decode⟩
  fetchAssertion i := if i = id then some ⟨deploymentCode, []⟩ else none
  extractAssertionContract code config := (extractAssertionContract evm code config).toOption

def oracleLog (event : SolEvent) (id : B256) (block index : Nat) : ChainLog :=
  ⟨1, [event.signatureHash], toBytes 32 7 ++ toBytes 32 id.toNat ++ toBytes 32 block, index⟩

def addedLog (id : B256) (block index : Nat) : ChainLog :=
  oracleLog (servicesFor id).assertionAdded id block index

def removedLog (id : B256) (block index : Nat) : ChainLog :=
  oracleLog (servicesFor id).assertionRemoved id block index

/-- A new store after the modifications of the logs, applied as one batch. -/
def movedStore (id : B256) (logs : List ChainLog) : AssertionStore :=
  (exec (AssertionStore.applyPendingModifications (fun _ => false) .buckets 1
    (logs.filterMap (Sample.indexer.modificationOf (servicesFor id)))) .newEphemeral).2

lemma moved_movedStore (id : B256) (logs : List ChainLog)
    (hrun : (exec (AssertionStore.applyPendingModifications (fun _ => false) .buckets 1
      (logs.filterMap (Sample.indexer.modificationOf (servicesFor id)))) .newEphemeral).1 =
        .ok ()) :
    Moved Sample.indexer (servicesFor id) .empty logs (movedStore id logs).db :=
  .batches (s := .newEphemeral) rfl (.batch (.none _) (fun _ => false) .buckets 1 _
    (Prod.ext hrun rfl))

def activeAt (id : B256) (logs : List ChainLog) (block : Nat) : Bool :=
  (AssertionStore.records deploymentHash
    (AssertionStore.assertions (movedStore id logs).db 7)).any (·.isActiveAt block)

/-- A DA layer that returns the preimage of the id: the removal ends the activity. -/
theorem removal_finds_addition_hashed :
    let logs := [addedLog deploymentHash 100 0, removedLog deploymentHash 200 1]
    ∀ a ∈ AssertionStore.records deploymentHash
        (AssertionStore.assertions (movedStore deploymentHash logs).db 7),
      ∀ block, 200 ≤ block → a.isActiveAt block = false := by
  intro logs
  have hextractor : Extracts evm (servicesFor deploymentHash) := fun _ _ => rfl
  have hmoved : Moved Sample.indexer (servicesFor deploymentHash) AssertionStore.newEphemeral.db
      ([] ++ addedLog deploymentHash 100 0 :: ([] ++ removedLog deploymentHash 200 1 :: []))
      (movedStore deploymentHash logs).db :=
    moved_movedStore deploymentHash logs (by decide +kernel)
  have hadded : Logs (servicesFor deploymentHash).assertionAdded
      (addedLog deploymentHash 100 0) ⟨7, deploymentHash, 100⟩ := ⟨rfl, by decide +kernel⟩
  have hremoved : Logs (servicesFor deploymentHash).assertionRemoved
      (removedLog deploymentHash 200 1) ⟨7, deploymentHash, 200⟩ := ⟨rfl, by decide +kernel⟩
  have hextract : extractAssertionContract evm (deploymentCode ++ [])
      Sample.indexer.executorConfig = .ok (deployed, recorded) := by
    have hcode : deploymentCode ++ [] = deploymentCode := List.append_nil _
    rw [hcode]
    rfl
  have h := removal_finds_addition hextractor (by decide) .newEphemeral hmoved hadded hremoved
    rfl rfl rfl hextract (by decide) (by decide)
  exact (h.1 (by decide +kernel)).mpr (by decide +kernel)

def LeavesActive (id : B256) (logs : List ChainLog) (block : Nat) : Prop :=
  Moved Sample.indexer (servicesFor id) .empty logs (movedStore id logs).db ∧
    activeAt id logs block = true

/-- The removal misses an addition whose data hashes to something else. An assertion that is
added again, or removed again later, is active after its first removal too. -/
theorem removal_misses_addition :
    LeavesActive 5 [addedLog 5 100 0, removedLog 5 200 1] 200 ∧
    LeavesActive deploymentHash [addedLog deploymentHash 100 0, removedLog deploymentHash 200 1,
      addedLog deploymentHash 300 2] 300 ∧
    LeavesActive deploymentHash [addedLog deploymentHash 100 0, removedLog deploymentHash 200 1,
      removedLog deploymentHash 300 2] 200 :=
  ⟨⟨moved_movedStore _ _ (by decide +kernel), by decide +kernel⟩,
    ⟨moved_movedStore _ _ (by decide +kernel), by decide +kernel⟩,
    ⟨moved_movedStore _ _ (by decide +kernel), by decide +kernel⟩⟩

end EventRemovals

end AssertionExecution
