import AssertionExecution.Model.BlockChanges
import AssertionExecution.Proofs.ForkHistory

/-!
# Merging two states before the commit

A merged account has the info and the status of the later state and the slots of both. Its
commit looks at the status once, where two commits look at the status of each state.
-/

namespace AssertionExecution

open HashMap ForkHistory

namespace BlockChanges

/-- An account of a later state over the one of an earlier state. -/
def mergeOver (earlier later : Account) : Account :=
  { info := later.info
    status := later.status
    storage := extend earlier.storage later.storage }

def mergedAt : Option Account → Option Account → Option Account
  | earlier, none => earlier
  | none, some later => some later
  | some earlier, some later => some (mergeOver earlier later)

lemma lookup_mergeAccount (stateChanges : EvmState) (key : Address) (value : Account)
    (a : Address) :
    (mergeAccount stateChanges key value).lookup a =
      if a = key then mergedAt (stateChanges.lookup a) (some value) else stateChanges.lookup a := by
  unfold mergeAccount
  by_cases h : a = key
  · subst h
    rw [if_pos rfl]
    cases hlookup : stateChanges.lookup a with
    | none => exact AList.lookup_insert _
    | some existing => exact AList.lookup_insert _
  · rw [if_neg h]
    cases stateChanges.lookup key with
    | none => exact AList.lookup_insert_ne h
    | some existing => exact AList.lookup_insert_ne h

/-- Accounts are merged one by one. -/
theorem lookup_mergeState (it : Iteration) (changes : BlockChanges) (evmState : EvmState)
    (a : Address) :
    (changes.mergeState it evmState).stateChanges.lookup a =
      mergedAt (changes.stateChanges.lookup a) (evmState.lookup a) := by
  have hstep : ∀ (stateChanges : EvmState) (e : Address × Account),
      (mergeAccount stateChanges e.1 e.2).lookup a =
        if e.1 = a then mergedAt (stateChanges.lookup a) (some e.2)
        else stateChanges.lookup a := by
    intro stateChanges e
    rw [lookup_mergeAccount]
    by_cases h : a = e.1
    · rw [if_pos h, if_pos h.symm]
    · rw [if_neg h, if_neg (Ne.symm h)]
  unfold mergeState
  refine (foldl_iter_key it evmState a (fun stateChanges : EvmState => stateChanges.lookup a)
    (fun earlier later => mergedAt earlier (some later)) hstep _).trans ?_
  cases evmState.lookup a with
  | some later => rfl
  | none => cases changes.stateChanges.lookup a <;> rfl

end BlockChanges

open BlockChanges

/-! ### What a commit changes -/

section

variable {Db Err : Type} [DatabaseRef Db Err]

/-- The info that a commit leaves, given the account that it touches and the answer before. -/
def infoAfter (touched : Option Account) (info : Except Err (Option AccountInfo)) :
    Except Err (Option AccountInfo) :=
  touched.elim info fun account => .ok (some account.info)

/-- What the storage of a committed account says about a slot. -/
def heldOr (account : Account) (slot : U256) (value : Except Err U256) : Except Err U256 :=
  (account.storage.lookup slot).elim value fun held => .ok held.presentValue

def valueAfter (touched : Option Account) (slot : U256) (value : Except Err U256) :
    Except Err U256 :=
  touched.elim value fun account =>
    if account.isSelfdestructed then .ok 0 else heldOr account slot value

lemma basicRef_commit (f : ForkDb Db) (c : ForkCommit) (a : Address) :
    basicRef (f.commit c.1 c.2) a = infoAfter (touchedAt a c) (basicRef f a) := by
  unfold infoAfter
  rcases f.commit_cases a c with ⟨hnone, hbasic, -⟩ | ⟨account, hsome, -, hbasic, -⟩
  · rw [hnone]
    simp only [basicRef, hbasic, ForkDb.commit_innerDb]
    rfl
  · rw [hsome]
    exact (f.commit c.1 c.2).basicRef_of_some hbasic

lemma storageRef_commit (f : ForkDb Db) (c : ForkCommit) (a : Address) (slot : U256) :
    storageRef (f.commit c.1 c.2) a slot =
      valueAfter (touchedAt a c) slot (storageRef f a slot) := by
  rw [ForkDb.storageRef_eq, ForkDb.slotOf_commit, ForkDb.commit_innerDb, destroys, writes,
    ForkDb.storageRef_eq f]
  cases touchedAt a c with
  | none => rfl
  | some account =>
    unfold valueAfter heldOr
    simp only [Option.any_some, Option.bind_some, Option.elim_some]
    cases account.isSelfdestructed with
    | true => rfl
    | false => cases account.storage.lookup slot <;> rfl

/-! ### When the merged commit agrees -/

/-- The merge of an account of two states commits like the two accounts, given what the fork
answers for it. -/
structure MergesExactly (earlier later : Account) (info : Except Err (Option AccountInfo))
    (value : U256 → Except Err U256) : Prop where
  /-- What only the earlier state touches is in the fork already. -/
  loaded : earlier.isTouched = true → later.isTouched = false →
    info = .ok (some earlier.info) ∧ ∀ slot, value slot =
      if earlier.isSelfdestructed then .ok 0 else heldOr earlier slot (value slot)
  /-- The slots that the earlier state has only loaded, and the later one has not, are those of
  the fork. -/
  untouched : earlier.isTouched = false → later.isTouched = true →
    later.isSelfdestructed = false → ∀ slot, later.storage.lookup slot = none →
      heldOr earlier slot (value slot) = value slot
  /-- An account that is destroyed and committed again has left no storage but zeros. -/
  recreated : earlier.isTouched = true → earlier.isSelfdestructed = true →
    later.isTouched = true → later.isSelfdestructed = false →
      ∀ slot, later.storage.lookup slot = none → heldOr earlier slot (value slot) = .ok 0

lemma heldOr_mergeOver (earlier later : Account) (slot : U256) (value : Except Err U256) :
    heldOr (mergeOver earlier later) slot value =
      heldOr later slot (heldOr earlier slot value) := by
  unfold heldOr mergeOver
  dsimp only
  rw [lookup_extend]
  cases later.storage.lookup slot <;> rfl

/-- Two answers below a later account agree where it has no such slot. -/
lemma heldOr_eq_iff (later : Account) (slot : U256) (value value' : Except Err U256) :
    heldOr later slot value = heldOr later slot value' ↔
      (later.storage.lookup slot = none → value = value') := by
  unfold heldOr
  cases later.storage.lookup slot with
  | none => simp
  | some held => simp

lemma mergesExactly_iff (earlier later : Account) (info : Except Err (Option AccountInfo))
    (value : U256 → Except Err U256) :
    (infoAfter ((some (mergeOver earlier later)).filter Account.isTouched) info =
        infoAfter ((some later).filter Account.isTouched)
          (infoAfter ((some earlier).filter Account.isTouched) info) ∧
      ∀ slot, valueAfter ((some (mergeOver earlier later)).filter Account.isTouched) slot
          (value slot) =
        valueAfter ((some later).filter Account.isTouched) slot
          (valueAfter ((some earlier).filter Account.isTouched) slot (value slot))) ↔
      MergesExactly earlier later info value := by
  have htouched : (mergeOver earlier later).isTouched = later.isTouched := rfl
  have hdestroyed : (mergeOver earlier later).isSelfdestructed = later.isSelfdestructed := rfl
  have hinfo : (mergeOver earlier later).info = later.info := rfl
  simp only [Option.filter_some, htouched]
  cases hlater : later.isTouched with
  | false =>
    cases hearlier : earlier.isTouched with
    | false =>
      refine iff_of_true ⟨rfl, fun slot => rfl⟩ ⟨?_, ?_, ?_⟩ <;> simp [hlater, hearlier]
    | true =>
      constructor
      · rintro ⟨hinfo, hvalue⟩
        exact ⟨fun _ _ => ⟨hinfo, hvalue⟩, by simp [hearlier], by simp [hlater]⟩
      · intro h
        exact h.loaded hearlier hlater
  | true =>
    cases hend : later.isSelfdestructed with
    | true =>
      refine iff_of_true ⟨rfl, fun slot => ?_⟩ ⟨by simp [hlater], by simp [hend], by simp [hend]⟩
      simp [valueAfter, hdestroyed, hend]
    | false =>
      simp only [if_true, infoAfter, valueAfter, Option.elim_some, hinfo, hdestroyed, hend,
        heldOr_mergeOver, Bool.false_eq_true, if_false, heldOr_eq_iff, true_and]
      cases hearlier : earlier.isTouched with
      | false =>
        constructor
        · intro h
          exact ⟨by simp [hlater], fun _ _ _ => h, by simp [hearlier]⟩
        · intro h
          exact h.untouched hearlier hlater hend
      | true =>
        cases hgone : earlier.isSelfdestructed with
        | false =>
          refine iff_of_true (fun slot _ => ?_) ⟨by simp [hlater], by simp [hearlier],
            by simp [hgone]⟩
          simp only [if_true, Option.elim_some, hgone, Bool.false_eq_true, if_false]
        | true =>
          simp only [if_true, Option.elim_some, hgone]
          constructor
          · intro h
            exact ⟨by simp [hlater], by simp [hearlier], fun _ _ _ _ => h⟩
          · intro h
            exact h.recreated hearlier hgone hlater hend

def AnswersAlike (f f' : ForkDb Db) : Prop :=
  (∀ a, basicRef f a = basicRef f' a) ∧ ∀ a slot, storageRef f a slot = storageRef f' a slot

/-- The two ways to commit agree at an account that only one state has. -/
lemma merged_answers_iff (f : ForkDb Db) (changes : BlockChanges) (evmState : EvmState)
    (it itMerged itFirst itSecond : Iteration) (a : Address) :
    let merged := f.commit itMerged (changes.mergeState it evmState).stateChanges
    let inTurn := (f.commit itFirst changes.stateChanges).commit itSecond evmState
    (basicRef merged a = basicRef inTurn a ∧
        ∀ slot, storageRef merged a slot = storageRef inTurn a slot) ↔
      ∀ earlier later, changes.stateChanges.lookup a = some earlier →
        evmState.lookup a = some later →
          MergesExactly earlier later (basicRef f a) (storageRef f a) := by
  intro merged inTurn
  have hbasic : basicRef merged a = infoAfter ((mergedAt (changes.stateChanges.lookup a)
      (evmState.lookup a)).filter Account.isTouched) (basicRef f a) := by
    rw [← lookup_mergeState it]
    exact basicRef_commit f (itMerged, _) a
  have hstorage : ∀ slot, storageRef merged a slot =
      valueAfter ((mergedAt (changes.stateChanges.lookup a)
        (evmState.lookup a)).filter Account.isTouched) slot (storageRef f a slot) := by
    intro slot
    rw [← lookup_mergeState it]
    exact storageRef_commit f (itMerged, _) a slot
  have hbasic' : basicRef inTurn a = infoAfter ((evmState.lookup a).filter Account.isTouched)
      (infoAfter ((changes.stateChanges.lookup a).filter Account.isTouched) (basicRef f a)) :=
    (basicRef_commit _ (itSecond, evmState) a).trans
      (congrArg (infoAfter _) (basicRef_commit f (itFirst, changes.stateChanges) a))
  have hstorage' : ∀ slot, storageRef inTurn a slot =
      valueAfter ((evmState.lookup a).filter Account.isTouched) slot
        (valueAfter ((changes.stateChanges.lookup a).filter Account.isTouched) slot
          (storageRef f a slot)) := fun slot =>
    (storageRef_commit _ (itSecond, evmState) a slot).trans
      (congrArg (valueAfter _ slot) (storageRef_commit f (itFirst, changes.stateChanges) a slot))
  simp only [hbasic, hstorage, hbasic', hstorage']
  cases hearlier : changes.stateChanges.lookup a with
  | none =>
    refine iff_of_true ?_ (by simp)
    cases evmState.lookup a <;> exact ⟨rfl, fun slot => rfl⟩
  | some earlier =>
    cases hlater : evmState.lookup a with
    | none => exact iff_of_true ⟨rfl, fun slot => rfl⟩ (by simp)
    | some later =>
      refine (mergesExactly_iff earlier later (basicRef f a) (storageRef f a)).trans ?_
      constructor
      · rintro h _ _ ⟨⟩ ⟨⟩
        exact h
      · intro h
        exact h earlier later rfl rfl

/-- Committing merged changes answers like committing the changes and then the state exactly if
no account suffers from the merge: what only the changes touch is in the fork already, slots that
they have only loaded are those of the fork, and what they destroy has left no storage if the
state commits it again. -/
theorem merged_commits_agree_iff (f : ForkDb Db) (changes : BlockChanges) (evmState : EvmState)
    (it itMerged itFirst itSecond : Iteration) :
    AnswersAlike (f.commit itMerged (changes.mergeState it evmState).stateChanges)
        ((f.commit itFirst changes.stateChanges).commit itSecond evmState) ↔
      ∀ a earlier later, changes.stateChanges.lookup a = some earlier →
        evmState.lookup a = some later →
          MergesExactly earlier later (basicRef f a) (storageRef f a) := by
  unfold AnswersAlike
  rw [← forall_and]
  apply forall_congr'
  exact merged_answers_iff f changes evmState it itMerged itFirst itSecond

end

/-! ### Where it does not -/

/-- A block that pays account 7, which a later transaction only loads. -/
def paidThenLoaded : BlockChanges × EvmState :=
  let paid : Account := ⟨{ AccountInfo.default with balance := 5 }, ∅, { touched := true }⟩
  (⟨1, 0, (∅ : EvmState).insert 7 paid⟩,
    (∅ : EvmState).insert 7 { paid with status := {} })

/-- A block that destroys account 7, which a later transaction creates again. -/
def destroyedThenCreated : BlockChanges × EvmState :=
  (⟨1, 0, (∅ : EvmState).insert 7 destroyedAccount⟩,
    (∅ : EvmState).insert 7 ⟨.default, ∅, { touched := true, created := true }⟩)

/-- A fork that has the value 5 in slot 0 of account 7. -/
def forkWithSlot : ForkDb Unit :=
  (ForkDb.new ()).commitAccount 7
    ⟨.default, (∅ : EvmStorage).insert 0 (.new 5), { touched := true }⟩

/-- The payment is lost, and the new account has the old storage. -/
theorem merge_loses_payment :
    let commitMerged (f : ForkDb Unit) (p : BlockChanges × EvmState) : ForkDb Unit :=
      f.commit .buckets (p.1.mergeState .buckets p.2).stateChanges
    let commitInTurn (f : ForkDb Unit) (p : BlockChanges × EvmState) : ForkDb Unit :=
      (f.commit .buckets p.1.stateChanges).commit .buckets p.2
    (basicRef (commitMerged (.new ()) paidThenLoaded) 7 = .ok none ∧
      ¬AnswersAlike (commitMerged (.new ()) paidThenLoaded)
        (commitInTurn (.new ()) paidThenLoaded)) ∧
    storageRef (commitMerged forkWithSlot destroyedThenCreated) 7 0 = .ok 5 ∧
      ¬AnswersAlike (commitMerged forkWithSlot destroyedThenCreated)
        (commitInTurn forkWithSlot destroyedThenCreated) := by
  intro commitMerged commitInTurn
  refine ⟨⟨rfl, fun h => ?_⟩, rfl, fun h => ?_⟩
  · have hpaid := h.1 7
    change Except.ok none = Except.ok (some { AccountInfo.default with balance := 5 }) at hpaid
    cases hpaid
  · have hslot := h.2 7 0
    change Except.ok (5 : U256) = Except.ok 0 at hslot
    cases hslot

end AssertionExecution
