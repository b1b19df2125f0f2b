import AssertionExecution.Proofs.ForkHistory

/-!
# Destroyed accounts in a fork

A fork forgets the storage of a destroyed account and hides the storage below, but it keeps
the info that the account was committed with.
-/

namespace AssertionExecution

open ForkHistory

structure AccountInfo.Empty (info : AccountInfo) : Prop where
  balance : info.balance = 0
  nonce : info.nonce = 0
  codeHash : info.codeHash = keccakEmpty ∨ info.codeHash = 0
  code : ∀ code, info.code = some code → code = []

def AbsentOrEmpty {Err : Type} (answer : Except Err (Option AccountInfo)) : Prop :=
  ∃ found, answer = .ok found ∧ ∀ info, found = some info → info.Empty

namespace ForkHistory

/-- A commit creates an account that was destroyed before, and it is not destroyed again. -/
structure Recreated (a : Address) (before : List ForkCommit) (c : ForkCommit)
    (after : List ForkCommit) : Prop where
  destroyed : before.any (destroys a) = true
  created : ∃ account, touchedAt a c = some account ∧ account.isCreated = true ∧
    account.isSelfdestructed = false
  kept : after.any (destroys a) = false

def Unwritten (a : Address) (slot : U256) (commits : List ForkCommit) : Prop :=
  ∀ c ∈ commits, writes a slot c = none

variable {a : Address} {slot : U256} {commits before after : List ForkCommit} {c : ForkCommit}

lemma latestValue_of_unwritten (h : Unwritten a slot commits) :
    latestValue a slot commits = none := by
  unfold latestValue
  rw [List.findSome?_eq_none_iff]
  intro c hc
  exact h c (List.mem_reverse.mp hc)

lemma sinceDestroyed_append (h : after.any (destroys a) = false) :
    sinceDestroyed a (before ++ after) = sinceDestroyed a before ++ after := by
  induction after using List.reverseRecOn with
  | nil => rw [List.append_nil, List.append_nil]
  | append_singleton after c ih =>
    rw [List.any_append, Bool.or_eq_false_iff] at h
    have hc : destroys a c = false := by simpa using h.2
    rw [← List.append_assoc, sinceDestroyed_append_singleton, hc, ih h.1, List.append_assoc]
    rfl

namespace Recreated

lemma any_cons (h : Recreated a before c after) : (c :: after).any (destroys a) = false := by
  obtain ⟨account, htouched, -, hkept⟩ := h.created
  rw [List.any_cons, h.kept, Bool.or_false, destroys, htouched]
  exact hkept

/-- The slots that have not been written since are those from before the creation. -/
lemma latestValue_eq (h : Recreated a before c after) (hslot : Unwritten a slot (c :: after)) :
    latestValue a slot (sinceDestroyed a (before ++ c :: after)) =
      latestValue a slot (sinceDestroyed a before) := by
  rw [sinceDestroyed_append h.any_cons, latestValue_append, latestValue_of_unwritten hslot,
    Option.none_or]

lemma latestAccount_eq (h : Recreated a before c after) :
    ∃ account, latestAccount a (c :: after) = some account ∧
      latestAccount a (before ++ c :: after) = some account := by
  obtain ⟨account, htouched, -, -⟩ := h.created
  have hcons : latestAccount a (c :: after) = (latestAccount a after).or (some account) := by
    rw [← List.singleton_append, latestAccount_append, latestAccount_singleton, htouched]
  cases hafter : latestAccount a after with
  | none =>
    rw [hafter, Option.none_or] at hcons
    exact ⟨account, hcons, by rw [latestAccount_append, hcons, Option.some_or]⟩
  | some later =>
    rw [hafter, Option.some_or] at hcons
    exact ⟨later, hcons, by rw [latestAccount_append, hcons, Option.some_or]⟩

end Recreated

end ForkHistory

/-- A destroyed account reads as absent or empty. One that is created again reads as what was
committed since, with no other slots. -/
structure KeepsLifecycle {Db Err : Type} [DatabaseRef Db Err] (fork : ForkDb Db)
    (commits : List ForkCommit) (a : Address) : Prop where
  destroyed : ∀ account, latestAccount a commits = some account →
    account.isSelfdestructed = true → AbsentOrEmpty (DatabaseRef.basicRef fork a)
  recreated : ∀ before c after, commits = before ++ c :: after → Recreated a before c after →
    (∃ account, latestAccount a (c :: after) = some account ∧
      DatabaseRef.basicRef fork a = .ok (some account.info)) ∧
    ∀ slot, Unwritten a slot (c :: after) → DatabaseRef.storageRef fork a slot = .ok 0

/-- The account is empty in the commit that destroys it, and the slots it was given before its
next creation are zero or written since. -/
structure DestroyedForGood (commits : List ForkCommit) (a : Address) : Prop where
  destroyed : ∀ account, latestAccount a commits = some account →
    account.isSelfdestructed = true → account.info.Empty
  recreated : ∀ before c after, commits = before ++ c :: after → Recreated a before c after →
    ∀ slot, Unwritten a slot (c :: after) →
      latestValue a slot (sinceDestroyed a before) = none ∨
        latestValue a slot (sinceDestroyed a before) = some 0

section

variable {Db Err : Type} [DatabaseRef Db Err] {commits : List ForkCommit} {a : Address}

lemma basicRef_commitAll (db : Db) {account : Account}
    (h : latestAccount a commits = some account) :
    DatabaseRef.basicRef ((ForkDb.new db).commitAll commits) a = .ok (some account.info) := by
  apply ForkDb.basicRef_of_some
  rw [ForkDb.basic_commitAll, h, Option.map_some]

lemma storageRef_recreated (db : Db) {before after : List ForkCommit} {c : ForkCommit}
    (h : Recreated a before c after) {slot : U256} (hslot : Unwritten a slot (c :: after)) :
    DatabaseRef.storageRef ((ForkDb.new db).commitAll (before ++ c :: after)) a slot =
      .ok ((latestValue a slot (sinceDestroyed a before)).getD 0) := by
  have hany : (before ++ c :: after).any (destroys a) = true := by
    rw [List.any_append, h.destroyed, Bool.true_or]
  rw [ForkDb.storageRef_eq, ForkDb.slotOf_commitAll, h.latestValue_eq hslot, if_pos hany]
  cases latestValue a slot (sinceDestroyed a before) <;> rfl

/-- After any history a fork keeps the lifecycle of an account if and only if the account was
destroyed for good. -/
theorem lifecycle_kept_iff (db : Db) (commits : List ForkCommit) (a : Address) :
    KeepsLifecycle ((ForkDb.new db).commitAll commits) commits a ↔ DestroyedForGood commits a := by
  constructor
  · intro h
    constructor
    · intro account haccount hdestroyed
      obtain ⟨found, hfound, hempty⟩ := h.destroyed account haccount hdestroyed
      rw [basicRef_commitAll db haccount] at hfound
      cases hfound
      exact hempty _ rfl
    · intro before c after hcommits hrecreated slot hslot
      have hzero := (h.recreated before c after hcommits hrecreated).2 slot hslot
      rw [hcommits, storageRef_recreated db hrecreated hslot, Except.ok.injEq] at hzero
      cases hlatest : latestValue a slot (sinceDestroyed a before) with
      | none => exact Or.inl rfl
      | some value =>
        rw [hlatest, Option.getD_some] at hzero
        exact Or.inr (congrArg some hzero)
  · intro h
    constructor
    · intro account haccount hdestroyed
      refine ⟨some account.info, basicRef_commitAll db haccount, ?_⟩
      intro info hinfo
      cases hinfo
      exact h.destroyed account haccount hdestroyed
    · intro before c after hcommits hrecreated
      constructor
      · obtain ⟨account, hcons, hall⟩ := hrecreated.latestAccount_eq
        rw [hcommits]
        exact ⟨account, hcons, basicRef_commitAll db hall⟩
      · intro slot hslot
        rw [hcommits, storageRef_recreated db hrecreated hslot]
        rcases h.recreated before c after hcommits hrecreated slot hslot with hnone | hzero
        · rw [hnone]
          rfl
        · rw [hzero]
          rfl

end

/-- A contract that destroys itself: its balance is gone, its nonce and its code are still there. -/
def destroyedContract : Account :=
  ⟨⟨0, 1, 0x1350878883579ac28a3eb26119b4fab92667b38ad96491cba735ccef23adbe7c, some [0x30, 0xff]⟩, ∅,
    { touched := true, selfDestructed := true }⟩

/-- A fork still has the code and the nonce of the destroyed contract. -/
theorem destroyed_contract_stays :
    ¬∀ (commits : List ForkCommit) (a : Address),
      KeepsLifecycle ((ForkDb.new ()).commitAll commits) commits a := by
  intro h
  have hkeeps := h [(.buckets, (∅ : EvmState).insert 7 destroyedContract)] 7
  obtain ⟨found, hfound, hempty⟩ := hkeeps.destroyed destroyedContract rfl rfl
  cases hfound
  have hnonce : destroyedContract.info.nonce = 0 := (hempty _ rfl).nonce
  exact absurd hnonce (by decide)

end AssertionExecution
