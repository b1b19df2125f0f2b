import Mathlib.Data.List.DropRight
import AssertionExecution.Proofs.CommitAgreement
import AssertionExecution.Proofs.PersistentAccounts

/-!
# The history of a fork

What a fork answers for a slot depends on the commits that touched the account: on the
latest one with the slot after the account was last destroyed. Forks that are cloned from
each other share their inner database and nothing else.
-/

namespace AssertionExecution

open HashMap

/-! ### Histories -/

/-- A state and the order in which its commit visits the accounts. -/
abbrev ForkCommit := Iteration × EvmState

namespace ForkHistory

def touchedAt (a : Address) (c : ForkCommit) : Option Account :=
  (c.2.lookup a).filter Account.isTouched

def destroys (a : Address) (c : ForkCommit) : Bool := (touchedAt a c).any Account.isSelfdestructed

def writes (a : Address) (slot : U256) (c : ForkCommit) : Option U256 :=
  (touchedAt a c).bind fun account =>
    (account.storage.lookup slot).map EvmStorageSlot.presentValue

/-- The commits after the last one that destroys the account. -/
def sinceDestroyed (a : Address) (commits : List ForkCommit) : List ForkCommit :=
  commits.rtakeWhile fun c => !destroys a c

/-- The value of a slot in the latest commit that has it. -/
def latestValue (a : Address) (slot : U256) (commits : List ForkCommit) : Option U256 :=
  commits.reverse.findSome? (writes a slot)

def latestAccount (a : Address) (commits : List ForkCommit) : Option Account :=
  commits.reverse.findSome? (touchedAt a)

variable {a : Address} {slot : U256} {commits : List ForkCommit} {c : ForkCommit}

lemma latestValue_append (commits later : List ForkCommit) :
    latestValue a slot (commits ++ later) =
      (latestValue a slot later).or (latestValue a slot commits) := by
  unfold latestValue
  rw [List.reverse_append, List.findSome?_append]

@[simp] lemma latestValue_singleton : latestValue a slot [c] = writes a slot c :=
  List.findSome?_singleton

lemma latestAccount_append (commits later : List ForkCommit) :
    latestAccount a (commits ++ later) = (latestAccount a later).or (latestAccount a commits) := by
  unfold latestAccount
  rw [List.reverse_append, List.findSome?_append]

@[simp] lemma latestAccount_singleton : latestAccount a [c] = touchedAt a c :=
  List.findSome?_singleton

lemma sinceDestroyed_append_singleton :
    sinceDestroyed a (commits ++ [c]) =
      if destroys a c then [] else sinceDestroyed a commits ++ [c] := by
  unfold sinceDestroyed
  rw [List.rtakeWhile_concat]
  cases destroys a c <;> rfl

end ForkHistory

open ForkHistory

namespace ForkDb

variable {Db : Type}

def commitAll (self : ForkDb Db) (commits : List ForkCommit) : ForkDb Db :=
  commits.foldl (fun db c => db.commit c.1 c.2) self

lemma commitAll_append_singleton (self : ForkDb Db) (commits : List ForkCommit) (c : ForkCommit) :
    self.commitAll (commits ++ [c]) = (self.commitAll commits).commit c.1 c.2 := by
  unfold commitAll
  rw [List.foldl_append]
  rfl

lemma commitAll_innerDb (self : ForkDb Db) (commits : List ForkCommit) :
    (self.commitAll commits).innerDb = self.innerDb := by
  induction commits using List.reverseRecOn with
  | nil => rfl
  | append_singleton commits c ih => rw [commitAll_append_singleton, commit_innerDb, ih]

/-! ### One commit -/

lemma commitAccount_untouched (self : ForkDb Db) (a : Address) {account : Account}
    (h : account.isTouched = false) : self.commitAccount a account = self := by
  unfold commitAccount
  rw [h]
  rfl

lemma slotOf_congr {self other : ForkDb Db} {a : Address}
    (h : self.storage.lookup a = other.storage.lookup a) (slot : U256) :
    self.slotOf a slot = other.slotOf a slot := by
  unfold slotOf
  rw [h]

/-- What a commit leaves of an account it touches, and of one it does not. -/
lemma commit_cases (self : ForkDb Db) (a : Address) (c : ForkCommit) :
    (touchedAt a c = none ∧ (self.commit c.1 c.2).basic.lookup a = self.basic.lookup a ∧
        (self.commit c.1 c.2).storage.lookup a = self.storage.lookup a) ∨
      ∃ account, touchedAt a c = some account ∧ account.isTouched = true ∧
        (self.commit c.1 c.2).basic.lookup a = some account.info ∧
        (self.commit c.1 c.2).storage.lookup a =
          (self.commitAccount a account).storage.lookup a := by
  unfold touchedAt
  cases hlookup : c.2.lookup a with
  | none =>
    exact Or.inl ⟨rfl, self.commit_frame c.1 c.2 (AList.lookup_eq_none.mp hlookup)⟩
  | some account =>
    obtain ⟨hbasic, hstorage⟩ := commit_at c.1 self hlookup
    rw [Option.filter_some]
    cases htouched : account.isTouched with
    | false =>
      rw [commitAccount_untouched self a htouched] at hbasic hstorage
      exact Or.inl ⟨rfl, hbasic, hstorage⟩
    | true =>
      refine Or.inr ⟨account, rfl, htouched, ?_, hstorage⟩
      rw [hbasic]
      unfold commitAccount
      rw [htouched]
      by_cases hdestroyed : account.isSelfdestructed = true <;> simp [hdestroyed]

lemma slotOf_commit (self : ForkDb Db) (a : Address) (slot : U256) (c : ForkCommit) :
    (self.commit c.1 c.2).slotOf a slot =
      if destroys a c then some 0 else (writes a slot c).or (self.slotOf a slot) := by
  rcases self.commit_cases a c with ⟨hnone, -, hstorage⟩ | ⟨account, hsome, htouched, -, hstorage⟩
  · rw [slotOf_congr hstorage, destroys, writes, hnone]
    rfl
  · rw [slotOf_congr hstorage, slotOf_commitAccount self a slot (a, account),
      if_pos ⟨htouched, rfl⟩, destroys, writes, hsome]
    rfl

/-! ### A whole history -/

/-- What a new fork knows about a slot after a history. -/
theorem slotOf_commitAll (db : Db) (commits : List ForkCommit) (a : Address) (slot : U256) :
    ((ForkDb.new db).commitAll commits).slotOf a slot =
      (latestValue a slot (sinceDestroyed a commits)).or
        (if commits.any (destroys a) then some 0 else none) := by
  induction commits using List.reverseRecOn with
  | nil => rfl
  | append_singleton commits c ih =>
    rw [commitAll_append_singleton, slotOf_commit, ih, sinceDestroyed_append_singleton,
      List.any_append, List.any_cons, List.any_nil, Bool.or_false]
    cases hdestroys : destroys a c with
    | true => simp [latestValue]
    | false =>
      simp only [Bool.false_eq_true, if_false, Bool.or_false]
      rw [latestValue_append, latestValue_singleton, Option.or_assoc]

theorem basic_commitAll (db : Db) (commits : List ForkCommit) (a : Address) :
    ((ForkDb.new db).commitAll commits).basic.lookup a =
      (latestAccount a commits).map Account.info := by
  induction commits using List.reverseRecOn with
  | nil => rfl
  | append_singleton commits c ih =>
    rw [commitAll_append_singleton, latestAccount_append, latestAccount_singleton]
    rcases ((ForkDb.new db).commitAll commits).commit_cases a c with
      ⟨hnone, hbasic, -⟩ | ⟨account, hsome, -, hbasic, -⟩
    · rw [hbasic, hnone, ih, Option.none_or]
    · rw [hbasic, hsome, Option.some_or, Option.map_some]

end ForkDb

/-! ### Clones -/

/-- What can happen to forks of one database. -/
inductive CloneOp where
  | clone (i : Nat)
  | commit (i : Nat) (c : ForkCommit)

namespace CloneOp

def CommitsTo (k : Nat) : CloneOp → Prop
  | clone _ => False
  | commit i _ => i = k

variable {Db : Type}

/-- A clone is listed after the other forks. -/
def apply (forks : List (ForkDb Db)) : CloneOp → List (ForkDb Db)
  | clone i => forks ++ forks[i]?.toList
  | commit i c => forks.modify i fun fork => fork.commit c.1 c.2

def applyAll (forks : List (ForkDb Db)) (ops : List CloneOp) : List (ForkDb Db) :=
  ops.foldl apply forks

/-- The commits that each fork has seen, those before it was cloned included. -/
def record (histories : List (List ForkCommit)) : CloneOp → List (List ForkCommit)
  | clone i => histories ++ histories[i]?.toList
  | commit i c => histories.modify i (· ++ [c])

def recordAll (histories : List (List ForkCommit)) (ops : List CloneOp) : List (List ForkCommit) :=
  ops.foldl record histories

lemma apply_record (db : Db) (histories : List (List ForkCommit)) (op : CloneOp) :
    apply (histories.map (ForkDb.new db).commitAll) op =
      (record histories op).map (ForkDb.new db).commitAll := by
  cases op with
  | clone i =>
    change histories.map _ ++ (histories.map _)[i]?.toList =
      (histories ++ histories[i]?.toList).map _
    rw [List.map_append, List.getElem?_map]
    cases histories[i]? <;> rfl
  | commit i c =>
    apply List.ext_getElem?
    intro k
    unfold apply record
    rw [List.getElem?_modify, List.getElem?_map, List.getElem?_map, List.getElem?_modify]
    cases histories[k]? with
    | none => rfl
    | some commits =>
      by_cases hk : i = k
      · simp [hk, ForkDb.commitAll_append_singleton]
      · simp [hk]

/-- Every fork is what its own commits make of a new one. -/
theorem applyAll_eq (db : Db) (ops : List CloneOp) :
    applyAll [ForkDb.new db] ops = (recordAll [[]] ops).map (ForkDb.new db).commitAll := by
  have hgen : ∀ histories : List (List ForkCommit),
      applyAll (histories.map (ForkDb.new db).commitAll) ops =
        (recordAll histories ops).map (ForkDb.new db).commitAll := by
    unfold applyAll recordAll
    induction ops with
    | nil => exact fun histories => rfl
    | cons op ops ih =>
      intro histories
      rw [List.foldl_cons, List.foldl_cons, apply_record, ih]
  exact hgen [[]]

lemma getElem?_applyAll {forks : List (ForkDb Db)} {ops : List CloneOp} {k : Nat} {fork : ForkDb Db}
    (hfork : forks[k]? = some fork) (hops : ∀ op ∈ ops, ¬op.CommitsTo k) :
    (applyAll forks ops)[k]? = some fork := by
  induction ops generalizing forks with
  | nil => exact hfork
  | cons op ops ih =>
    apply ih
    · cases op with
      | clone i =>
        rw [apply, List.getElem?_append_left (List.getElem?_eq_some_iff.mp hfork).1, hfork]
      | commit i c =>
        have hne : i ≠ k := hops _ List.mem_cons_self
        rw [apply, List.getElem?_modify_ne _ _ hne, hfork]
    · intro op hop
      exact hops op (List.mem_cons_of_mem _ hop)

end CloneOp

/-! ### Reads -/

def touchedAccounts (c : ForkCommit) : List (Address × Account) :=
  (iter c.1 c.2).filter fun e => e.2.isTouched

lemma ForkDb.commit_touchedAccounts {Db : Type} (self : ForkDb Db) (c : ForkCommit) :
    self.commit c.1 c.2 =
      (touchedAccounts c).foldl (fun db e => db.commitAccount e.1 e.2) self := by
  unfold ForkDb.commit touchedAccounts
  induction iter c.1 c.2 generalizing self with
  | nil => rfl
  | cons e l ih =>
    rw [List.foldl_cons, ih, List.filter_cons]
    cases htouched : e.2.isTouched with
    | true => rfl
    | false => rw [self.commitAccount_untouched e.1 htouched]; rfl

section

variable {Db Err : Type} [DatabaseRef Db Err]

/-- What a fork answers for a slot after any history of clones and commits: the value in the latest
commit with the slot since the account was last destroyed, or else zero for an account that was
destroyed and what the inner database answers for others. Untouched accounts have no part in a
commit, the inner database is the same throughout, and a fork keeps its answers while only other
forks commit. -/
theorem fork_reads_history (db : Db) (ops : List CloneOp) (k : Nat) (fork : ForkDb Db)
    (hfork : (CloneOp.applyAll [ForkDb.new db] ops)[k]? = some fork) :
    ∃ commits, (CloneOp.recordAll [[]] ops)[k]? = some commits ∧ fork.innerDb = db ∧
      (∀ a slot, DatabaseRef.storageRef fork a slot =
        match latestValue a slot (sinceDestroyed a commits) with
        | some value => .ok value
        | none => if commits.any (destroys a) then .ok 0 else DatabaseRef.storageRef db a slot) ∧
      (∀ c c' : ForkCommit, touchedAccounts c = touchedAccounts c' →
        fork.commit c.1 c.2 = fork.commit c'.1 c'.2) ∧
      ∀ later : List CloneOp, (∀ op ∈ later, ¬op.CommitsTo k) →
        (CloneOp.applyAll [ForkDb.new db] (ops ++ later))[k]? = some fork := by
  have hmap := hfork
  rw [CloneOp.applyAll_eq, List.getElem?_map] at hmap
  obtain ⟨commits, hcommits, rfl⟩ := Option.map_eq_some_iff.mp hmap
  refine ⟨commits, hcommits, ForkDb.commitAll_innerDb _ _, ?_, ?_, ?_⟩
  · intro a slot
    rw [ForkDb.storageRef_eq, ForkDb.slotOf_commitAll, ForkDb.commitAll_innerDb]
    cases latestValue a slot (sinceDestroyed a commits) with
    | some value => rfl
    | none =>
      cases commits.any (destroys a) <;> rfl
  · intro c c' htouched
    rw [ForkDb.commit_touchedAccounts, ForkDb.commit_touchedAccounts, htouched]
  · intro later hlater
    unfold CloneOp.applyAll at hfork ⊢
    rw [List.foldl_append]
    exact CloneOp.getElem?_applyAll hfork hlater

end

/-- A slot is written, the fork is cloned, and the account is destroyed in the original. -/
def clonedThenDestroyed : List CloneOp :=
  let written : Account := ⟨.default, (∅ : EvmStorage).insert 0 (.new 5), { touched := true }⟩
  [.commit 0 (.buckets, (∅ : EvmState).insert 7 written), .clone 0,
    .commit 0 (.buckets, (∅ : EvmState).insert 7 destroyedAccount)]

/-- The clone has the slot still. -/
theorem fork_reads_history_cloned :
    ∃ fork, (CloneOp.applyAll [ForkDb.new ()] clonedThenDestroyed)[1]? = some fork ∧
      DatabaseRef.storageRef fork 7 0 = .ok 5 := by
  obtain ⟨commits, hcommits, -, hreads, -⟩ := fork_reads_history () clonedThenDestroyed 1 _ rfl
  cases hcommits
  exact ⟨_, rfl, hreads 7 0⟩

end AssertionExecution
