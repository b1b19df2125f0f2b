import AssertionExecution.Proofs.Verdict

/-!
# The state of the accepted transactions

The caller's fork database keeps up with the transactions that are reported valid, except
where an unsuccessful transaction is reported valid and its state is not committed.
-/

namespace AssertionExecution

open HashMap

namespace ForkDb

variable {ExtDb : Type}

/-- Two fork databases hold the same accounts, slots and code over the same database. -/
structure SameContents (db db' : ForkDb ExtDb) : Prop where
  basic : ∀ a, db.basic.lookup a = db'.basic.lookup a
  slot : ∀ a k, (db.storage.lookup a).bind (·.map.lookup k) =
    (db'.storage.lookup a).bind (·.map.lookup k)
  hidden : ∀ a, (db.storage.lookup a).map (·.dontReadFromInnerDb) =
    (db'.storage.lookup a).map (·.dontReadFromInnerDb)
  codeByHash : ∀ h, db.codeByHash.lookup h = db'.codeByHash.lookup h
  innerDb : db.innerDb = db'.innerDb

namespace SameContents

variable {db db' db'' : ForkDb ExtDb}

lemma refl (db : ForkDb ExtDb) : SameContents db db :=
  ⟨fun _ => rfl, fun _ _ => rfl, fun _ => rfl, fun _ => rfl, rfl⟩

lemma symm (h : SameContents db db') : SameContents db' db :=
  ⟨fun a => (h.basic a).symm, fun a k => (h.slot a k).symm, fun a => (h.hidden a).symm,
    fun c => (h.codeByHash c).symm, h.innerDb.symm⟩

lemma trans (h : SameContents db db') (h' : SameContents db' db'') : SameContents db db'' :=
  ⟨fun a => (h.basic a).trans (h'.basic a), fun a k => (h.slot a k).trans (h'.slot a k),
    fun a => (h.hidden a).trans (h'.hidden a), fun c => (h.codeByHash c).trans (h'.codeByHash c),
    h.innerDb.trans h'.innerDb⟩

lemma commitAccount (h : SameContents db db') (address : Address) (account : Account) :
    SameContents (db.commitAccount address account) (db'.commitAccount address account) := by
  unfold ForkDb.commitAccount
  split_ifs with htouched hdestroyed
  · exact h
  · refine ⟨fun a => ?_, fun a k => ?_, fun a => ?_, h.codeByHash, h.innerDb⟩
    · simp only [lookup_insert_ite, h.basic]
    · simp only [modifyOrDefault, lookup_insert_ite]
      split_ifs
      · rfl
      · exact h.slot a k
    · simp only [modifyOrDefault, lookup_insert_ite]
      split_ifs
      · rfl
      · exact h.hidden a
  · have hslot := h.slot address
    have hhidden := h.hidden address
    refine ⟨fun a => ?_, fun a k => ?_, fun a => ?_, fun c => ?_, h.innerDb⟩
    · simp only [lookup_insert_ite, h.basic]
    · have hother := h.slot a k
      cases hs : db.storage.lookup address <;> cases hs' : db'.storage.lookup address <;>
        simp only [hs, hs', Option.map_none, Option.map_some, reduceCtorEq] at hhidden <;>
        simp only [lookup_insert_ite] <;> split_ifs with ha
      · rfl
      · exact hother
      · have hk := hslot k
        rw [hs, hs'] at hk
        simp only [Option.bind_some] at hk ⊢
        rw [lookup_extend, lookup_extend, hk]
      · exact hother
    · have hother := h.hidden a
      cases hs : db.storage.lookup address <;> cases hs' : db'.storage.lookup address <;>
        simp only [hs, hs', Option.map_none, Option.map_some, reduceCtorEq] at hhidden <;>
        simp only [lookup_insert_ite] <;> split_ifs with ha
      · rfl
      · exact hother
      · exact hhidden
      · exact hother
    · cases account.info.code with
      | none => exact h.codeByHash c
      | some code => simp only [lookup_insert_ite, h.codeByHash]

lemma commit (h : SameContents db db') (it : Iteration) (changes : EvmState) :
    SameContents (db.commit it changes) (db'.commit it changes) := by
  have hfold : ∀ (l : List (Address × Account)) (db db' : ForkDb ExtDb), SameContents db db' →
      SameContents (l.foldl (fun db e => db.commitAccount e.1 e.2) db)
        (l.foldl (fun db e => db.commitAccount e.1 e.2) db') := by
    intro l
    induction l with
    | nil => exact fun _ _ h => h
    | cons e l ih => exact fun db db' h => ih _ _ (h.commitAccount e.1 e.2)
  exact hfold _ db db' h

end SameContents

end ForkDb

/-- The inputs of one validation besides the fork database. -/
structure Validation (ExtDb : Type) where
  executor : AssertionExecutor
  fault : Nat → Bool
  it : Iteration
  blockEnv : BlockEnv
  txEnv : TxEnv
  externalDb : ExtDb

namespace Validation

variable {ExtDb ExtErr Active ActiveErr : Type} (evm : Evm ExtDb ExtErr Active ActiveErr)

def run (v : Validation ExtDb) (db : ForkDb Active) :
    Except ExecutorError TxValidationResult × ForkDb Active × ExtDb :=
  v.executor.validateTransactionExtDb evm v.fault v.it v.blockEnv v.txEnv db v.externalDb

def accepted (v : Validation ExtDb) (db : ForkDb Active) : Option EvmState :=
  match (v.run evm db).1 with
  | .ok result => if result.transactionValid then some result.resultAndState.state else none
  | .error _ => none

/-- The fork database is left with the state of a valid transaction committed, and as it was
when the transaction is invalid or the validation fails. -/
def Tracks (v : Validation ExtDb) (db : ForkDb Active) : Prop :=
  ForkDb.SameContents (v.run evm db).2.1
    (match v.accepted evm db with
      | some state => db.commit v.it state
      | none => db)

/-- An unsuccessful transaction has no state to commit. -/
def Neutral (v : Validation ExtDb) (db : ForkDb Active) : Prop :=
  ∀ tracer tx externalDb,
    evm.transactTx v.txEnv v.blockEnv v.executor.config.chainId v.executor.config.specId
      v.externalDb = (.ok (tracer, tx), externalDb) →
    tx.result.isSuccess = false → ForkDb.SameContents (db.commit v.it tx.state) db

theorem tracks_iff_neutral (v : Validation ExtDb) (db : ForkDb Active) :
    v.Tracks evm db ↔ v.Neutral evm db := by
  unfold Tracks Neutral accepted run
  unfold AssertionExecutor.validateTransactionExtDb AssertionExecutor.executeForkedTxExtDb
  rcases htx : evm.transactTx v.txEnv v.blockEnv v.executor.config.chainId
    v.executor.config.specId v.externalDb with ⟨e | ⟨tracer, tx⟩, externalDb⟩
  · simpa using ForkDb.SameContents.refl db
  · cases hsuccess : tx.result.isSuccess with
    | false =>
      simp only [hsuccess, Bool.not_false, if_true]
      constructor
      · intro h tracer' tx' externalDb' heq _
        cases heq
        exact h.symm
      · intro h
        exact (h tracer tx externalDb rfl hsuccess).symm
    | true =>
      simp only [hsuccess, Bool.not_true, Bool.false_eq_true, if_false]
      refine iff_of_true ?_ ?_
      · cases v.executor.executeAssertions evm v.fault v.it v.blockEnv
            (MultiForkDb.new db (db.commit v.it tx.state)) ⟨tx.result.logs, tracer⟩ with
        | error e => exact ForkDb.SameContents.refl db
        | ok results =>
          cases results with
          | nil => exact ForkDb.SameContents.refl _
          | cons x xs =>
            dsimp only [List.isEmpty_cons]
            simp only [Bool.false_eq_true, if_false]
            split_ifs <;> exact ForkDb.SameContents.refl _
      · intro tracer' tx' externalDb' heq hfail
        cases heq
        rw [hsuccess] at hfail
        exact (Bool.false_ne_true hfail.symm).elim

/-! ### Sequences of validations -/

def validateAll (db : ForkDb Active) (vs : List (Validation ExtDb)) : ForkDb Active :=
  vs.foldl (fun db v => (v.run evm db).2.1) db

def acceptedStates (db : ForkDb Active) : List (Validation ExtDb) → List (Iteration × EvmState)
  | [] => []
  | v :: vs =>
    (v.accepted evm db).toList.map (fun state => (v.it, state)) ++
      acceptedStates (v.run evm db).2.1 vs

/-- The initial fork database with the states of the valid transactions committed in order. -/
def commitAccepted (db : ForkDb Active) (vs : List (Validation ExtDb)) : ForkDb Active :=
  (acceptedStates evm db vs).foldl (fun db s => db.commit s.1 s.2) db

variable {evm}

lemma validateAll_append_singleton (db : ForkDb Active) (us : List (Validation ExtDb))
    (v : Validation ExtDb) :
    validateAll evm db (us ++ [v]) = (v.run evm (validateAll evm db us)).2.1 :=
  List.foldl_append

lemma acceptedStates_append_singleton (db : ForkDb Active) (us : List (Validation ExtDb))
    (v : Validation ExtDb) :
    acceptedStates evm db (us ++ [v]) = acceptedStates evm db us ++
      (v.accepted evm (validateAll evm db us)).toList.map (fun state => (v.it, state)) := by
  induction us generalizing db with
  | nil => simp [acceptedStates, validateAll]
  | cons u us ih =>
    rw [List.cons_append, acceptedStates, ih, acceptedStates, List.append_assoc]
    rfl

lemma commitAccepted_append_singleton (db : ForkDb Active) (us : List (Validation ExtDb))
    (v : Validation ExtDb) :
    commitAccepted evm db (us ++ [v]) =
      match v.accepted evm (validateAll evm db us) with
      | some state => (commitAccepted evm db us).commit v.it state
      | none => commitAccepted evm db us := by
  unfold commitAccepted
  rw [acceptedStates_append_singleton, List.foldl_append]
  cases v.accepted evm (validateAll evm db us) <;> rfl

/-- One more validation keeps the fork database in step exactly when it tracks. -/
lemma sameContents_append_singleton {db : ForkDb Active} {us : List (Validation ExtDb)}
    (h : ForkDb.SameContents (validateAll evm db us) (commitAccepted evm db us))
    (v : Validation ExtDb) :
    ForkDb.SameContents (validateAll evm db (us ++ [v])) (commitAccepted evm db (us ++ [v])) ↔
      v.Tracks evm (validateAll evm db us) := by
  rw [validateAll_append_singleton, commitAccepted_append_singleton]
  unfold Tracks
  cases v.accepted evm (validateAll evm db us) with
  | none => exact ⟨fun hstep => hstep.trans h.symm, fun hstep => hstep.trans h⟩
  | some state =>
    have hcommit := h.commit v.it state
    exact ⟨fun hstep => hstep.trans hcommit.symm, fun hstep => hstep.trans hcommit⟩

/-- A validation tracks the accepted transactions exactly when its transaction, if
unsuccessful, has no state to commit. Throughout a sequence the fork database is the initial
one with the accepted states committed exactly when every validation is of that kind. -/
theorem tracks_accepted_iff_neutral (evm : Evm ExtDb ExtErr Active ActiveErr) :
    (∀ (v : Validation ExtDb) (db : ForkDb Active), v.Tracks evm db ↔ v.Neutral evm db) ∧
    ∀ (vs : List (Validation ExtDb)) (db : ForkDb Active),
      (∀ us ws, vs = us ++ ws →
        ForkDb.SameContents (validateAll evm db us) (commitAccepted evm db us)) ↔
      ∀ us v ws, vs = us ++ v :: ws → v.Neutral evm (validateAll evm db us) := by
  refine ⟨tracks_iff_neutral evm, fun vs db => ⟨fun h us v ws hsplit => ?_, fun h => ?_⟩⟩
  · rw [← tracks_iff_neutral, ← sameContents_append_singleton (h us (v :: ws) hsplit)]
    exact h (us ++ [v]) ws (by rw [hsplit, List.append_assoc, List.singleton_append])
  · intro us
    induction us using List.reverseRecOn with
    | nil => exact fun _ _ => ForkDb.SameContents.refl db
    | append_singleton us v ih =>
      intro ws hsplit
      rw [List.append_assoc, List.singleton_append] at hsplit
      rw [sameContents_append_singleton (ih (v :: ws) hsplit), tracks_iff_neutral]
      exact h us v ws hsplit

/-- A reverted transaction that used up its sender's nonce. -/
def revertedTx : ResultAndState :=
  ⟨.revert 21000 [],
    AList.singleton 3 ⟨⟨0, 1, keccakEmpty, none⟩, ∅, { touched := true }⟩⟩

/-- A reverted transaction is reported valid and its nonce change is lost. -/
theorem reverted_transaction_not_tracked :
    let v : Validation Unit := ⟨⟨⟨0, 1, 1000⟩, .newEphemeral⟩, fun _ => false, .buckets, ⟨5, 0⟩,
      ⟨3, 21000, 0, .call 1, 0, []⟩, ()⟩
    let evm := AssertionExecutor.constantEvm .default revertedTx (.halt 0)
    v.accepted evm (.new ()) = some revertedTx.state ∧
      (v.run evm (.new ())).2.1.basic.lookup 3 = none ∧
      ((ForkDb.new ()).commit .buckets revertedTx.state).basic.lookup 3 =
        some ⟨0, 1, keccakEmpty, none⟩ ∧
      ¬v.Tracks evm (.new ()) :=
  ⟨rfl, rfl, rfl, fun h => Option.some_ne_none _ (h.basic 3).symm⟩

end Validation

end AssertionExecution
