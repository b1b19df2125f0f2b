import AssertionExecution.Proofs.OverlayCommits

/-!
# The three commits

A fork and both overlays commit the same states over the same database. They differ on
accounts that a commit destroys: the fork forgets their storage and hides the one below, the
overlays cache what the destroying transaction left in the account.
-/

namespace AssertionExecution

open HashMap ReadThrough

/-- A read, or a commit of a state. -/
inductive DbOp where
  | query (q : Query)
  | commit (changes : EvmState)

namespace DbOp

def toOverlay : DbOp → OverlayOp
  | query q => .use (.query q)
  | commit changes => .commit changes

def accounts (it : Iteration) : DbOp → List (Address × Account)
  | query _ => []
  | commit changes => iter it changes

end DbOp

def committedAccounts (it : Iteration) (ops : List DbOp) : List (Address × Account) :=
  ops.flatMap (DbOp.accounts it)

def ForkDb.apply {Db : Type} (it : Iteration) (self : ForkDb Db) : DbOp → ForkDb Db
  | .query _ => self
  | .commit changes => self.commit it changes

def ForkDb.applyAll {Db : Type} (it : Iteration) (self : ForkDb Db) (ops : List DbOp) :
    ForkDb Db :=
  ops.foldl (ForkDb.apply it) self

/-! ### Summaries of a history -/

section

variable (accounts : List (Address × Account))

def touches (a : Address) (e : Address × Account) : Prop := e.2.isTouched = true ∧ e.1 = a

instance (a : Address) (e : Address × Account) : Decidable (touches a e) :=
  inferInstanceAs (Decidable (_ ∧ _))

/-- The value of a slot in the last touched account that has the slot. -/
def lastValue (a : Address) (slot : U256) : Option U256 :=
  accounts.foldl (fun held e => if touches a e then
    ((e.2.storage.lookup slot).map EvmStorageSlot.presentValue).or held else held) none

/-- The account has been destroyed, and the slot not written since. -/
def destroyedSince (a : Address) (slot : U256) : Bool :=
  accounts.foldl (fun destroyed e => if touches a e then
    e.2.isSelfdestructed || (destroyed && !(e.2.storage.lookup slot).isSome) else destroyed) false

def lastTouched (a : Address) : Option Account :=
  accounts.foldl (fun account e => if touches a e then some e.2 else account) none

def carriesCode (hash : B256) (e : Address × Account) : Prop :=
  e.2.isTouched = true ∧ e.2.info.codeHash = hash ∧ e.2.info.code.isSome = true

instance (hash : B256) (e : Address × Account) : Decidable (carriesCode hash e) :=
  inferInstanceAs (Decidable (_ ∧ _ ∧ _))

def lastCode (hash : B256) : Option Bytecode :=
  accounts.foldl (fun code e => if carriesCode hash e then e.2.info.code else code) none

/-- The code under the hash was last committed with an account that is destroyed. -/
def codeOfDestroyed (hash : B256) : Bool :=
  accounts.foldl (fun destroyed e =>
    if carriesCode hash e then e.2.isSelfdestructed else destroyed) false

def surviving : List (Address × Account) := accounts.filter fun e => !e.2.isSelfdestructed

end

lemma lastCode_of_codeOfDestroyed {accounts : List (Address × Account)} {hash : B256}
    (h : codeOfDestroyed accounts hash = true) : ∃ code, lastCode accounts hash = some code := by
  induction accounts using List.reverseRecOn with
  | nil => exact (Bool.false_ne_true h).elim
  | append_singleton accounts e ih =>
    unfold codeOfDestroyed at h ih
    unfold lastCode at ih ⊢
    simp only [List.foldl_append, List.foldl_cons, List.foldl_nil] at h ⊢
    by_cases hcarries : carriesCode hash e
    · rw [if_pos hcarries]
      exact Option.isSome_iff_exists.mp hcarries.2.2
    · rw [if_neg hcarries] at h ⊢
      exact ih h

lemma lastCode_surviving {accounts : List (Address × Account)} {hash : B256}
    (h : codeOfDestroyed accounts hash = false) :
    lastCode (surviving accounts) hash = lastCode accounts hash := by
  induction accounts using List.reverseRecOn with
  | nil => rfl
  | append_singleton accounts e ih =>
    rw [surviving, List.filter_append, ← surviving]
    unfold codeOfDestroyed at h ih
    unfold lastCode at ih ⊢
    simp only [List.foldl_append, List.foldl_cons, List.foldl_nil] at h ⊢
    by_cases hcarries : carriesCode hash e
    · rw [if_pos hcarries] at h
      simp [h, hcarries]
    · rw [if_neg hcarries] at h
      by_cases hdestroyed : e.2.isSelfdestructed = true
      · simpa [hdestroyed, hcarries] using ih h
      · simpa [hdestroyed, hcarries] using ih h

/-- The hash is the code hash of an account that exists after the history. -/
def LiveHash {Db Err : Type} [DatabaseRef Db Err] (db : Db) (accounts : List (Address × Account))
    (hash : B256) : Prop :=
  ∃ a, match lastTouched accounts a with
    | some account => account.isSelfdestructed = false ∧ account.info.codeHash = hash
    | none => ∃ info, DatabaseRef.basicRef db a = .ok (some info) ∧ info.codeHash = hash

/-! ### What a fork answers -/

namespace ForkDb

variable {Db : Type}

/-- What a fork itself knows about a slot. -/
def slotOf (self : ForkDb Db) (a : Address) (slot : U256) : Option U256 :=
  match self.storage.lookup a with
  | some s => (s.map.lookup slot).or (if s.dontReadFromInnerDb then some 0 else none)
  | none => none

lemma slotOf_commitAccount (self : ForkDb Db) (a : Address) (slot : U256)
    (e : Address × Account) :
    (self.commitAccount e.1 e.2).slotOf a slot =
      if touches a e then
        if e.2.isSelfdestructed then some 0
        else ((e.2.storage.lookup slot).map EvmStorageSlot.presentValue).or (self.slotOf a slot)
      else self.slotOf a slot := by
  unfold slotOf
  by_cases htouches : touches a e
  · obtain ⟨htouched, rfl⟩ := htouches
    rw [if_pos ⟨htouched, rfl⟩]
    unfold commitAccount
    rw [htouched]
    by_cases hdestroyed : e.2.isSelfdestructed = true
    · simp [hdestroyed, modifyOrDefault]
    · cases hstorage : self.storage.lookup e.1 with
      | none => simp [hdestroyed, lookup_mapValues]
      | some s => simp [hdestroyed, lookup_extend, lookup_mapValues, Option.or_assoc]
  · rw [if_neg htouches]
    by_cases htouched : e.2.isTouched = true
    · have hne : a ≠ e.1 := fun h => htouches ⟨htouched, h.symm⟩
      rw [(self.commitAccount_frame e.2 hne).2]
    · unfold commitAccount
      simp [htouched]

lemma codeByHash_commitAccount (self : ForkDb Db) (hash : B256) (e : Address × Account) :
    (self.commitAccount e.1 e.2).codeByHash.lookup hash =
      if e.2.isSelfdestructed = false ∧ carriesCode hash e then e.2.info.code
      else self.codeByHash.lookup hash := by
  unfold commitAccount carriesCode
  by_cases htouched : e.2.isTouched = true
  · by_cases hdestroyed : e.2.isSelfdestructed = true
    · simp [htouched, hdestroyed]
    · simp only [htouched, hdestroyed, Bool.not_true, Bool.false_eq_true, if_false, true_and]
      cases e.2.info.code with
      | none => simp
      | some code => simp [lookup_insert_ite, eq_comm]
  · simp [htouched]

lemma applyAll_eq (it : Iteration) (self : ForkDb Db) (ops : List DbOp) :
    self.applyAll it ops =
      (committedAccounts it ops).foldl (fun db e => db.commitAccount e.1 e.2) self := by
  unfold applyAll committedAccounts
  induction ops generalizing self with
  | nil => rfl
  | cons op ops ih =>
    rw [List.foldl_cons, ih, List.flatMap_cons, List.foldl_append]
    cases op <;> rfl

lemma slotOf_commits (db : Db) (accounts : List (Address × Account)) (a : Address) (slot : U256) :
    (accounts.foldl (fun db e => db.commitAccount e.1 e.2) (ForkDb.new db)).slotOf a slot =
      if destroyedSince accounts a slot then some 0 else lastValue accounts a slot := by
  induction accounts using List.reverseRecOn with
  | nil => rfl
  | append_singleton accounts e ih =>
    unfold destroyedSince lastValue at ih ⊢
    simp only [List.foldl_append, List.foldl_cons, List.foldl_nil, slotOf_commitAccount]
    by_cases htouches : touches a e
    · simp only [if_pos htouches]
      by_cases hdestroyed : e.2.isSelfdestructed = true
      · simp [hdestroyed]
      · rw [ih]
        cases hslot : e.2.storage.lookup slot <;> simp [hdestroyed]
    · simpa only [if_neg htouches] using ih

lemma codeByHash_commits (db : Db) (accounts : List (Address × Account)) (hash : B256) :
    (accounts.foldl (fun db e => db.commitAccount e.1 e.2)
      (ForkDb.new db)).codeByHash.lookup hash = lastCode (surviving accounts) hash := by
  induction accounts using List.reverseRecOn with
  | nil => rfl
  | append_singleton accounts e ih =>
    rw [surviving, List.filter_append, ← surviving]
    unfold lastCode at ih ⊢
    simp only [List.foldl_append, List.foldl_cons, List.foldl_nil, codeByHash_commitAccount]
    rw [ih]
    by_cases hdestroyed : e.2.isSelfdestructed = true
    · simp [hdestroyed]
    · simp [hdestroyed]

lemma innerDb_commits (db : Db) (accounts : List (Address × Account)) :
    (accounts.foldl (fun db e => db.commitAccount e.1 e.2) (ForkDb.new db)).innerDb = db := by
  induction accounts using List.reverseRecOn with
  | nil => rfl
  | append_singleton accounts e ih =>
    rw [List.foldl_append, List.foldl_cons, List.foldl_nil, commitAccount_innerDb, ih]

variable {Err : Type} [DatabaseRef Db Err]

lemma storageRef_eq (self : ForkDb Db) (a : Address) (slot : U256) :
    DatabaseRef.storageRef self a slot =
      (self.slotOf a slot).elim (DatabaseRef.storageRef self.innerDb a slot) .ok := by
  unfold slotOf
  cases hstorage : self.storage.lookup a with
  | none => exact self.storageRef_of_none hstorage slot
  | some s =>
    by_cases hhidden : s.dontReadFromInnerDb = true
    · rw [self.storageRef_of_hidden hstorage hhidden]
      simp only [hhidden, if_true]
      cases s.map.lookup slot <;> rfl
    · simp only [DatabaseRef.storageRef, hstorage, hhidden]
      cases s.map.lookup slot <;> rfl

lemma codeByHashRef_eq (self : ForkDb Db) (hash : B256) :
    DatabaseRef.codeByHashRef self hash =
      (self.codeByHash.lookup hash).elim (DatabaseRef.codeByHashRef self.innerDb hash) .ok := by
  simp only [DatabaseRef.codeByHashRef]
  cases self.codeByHash.lookup hash <;> rfl

lemma storageRef_commits (db : Db) (accounts : List (Address × Account)) (a : Address)
    (slot : U256) :
    DatabaseRef.storageRef (accounts.foldl (fun db e => db.commitAccount e.1 e.2) (ForkDb.new db))
        a slot =
      (if destroyedSince accounts a slot then some 0 else lastValue accounts a slot).elim
        (DatabaseRef.storageRef db a slot) .ok := by
  rw [storageRef_eq, slotOf_commits, innerDb_commits]

lemma codeByHashRef_commits (db : Db) (accounts : List (Address × Account)) (hash : B256) :
    DatabaseRef.codeByHashRef
        (accounts.foldl (fun db e => db.commitAccount e.1 e.2) (ForkDb.new db)) hash =
      (lastCode (surviving accounts) hash).elim (DatabaseRef.codeByHashRef db hash) .ok := by
  rw [codeByHashRef_eq, codeByHash_commits, innerDb_commits]

end ForkDb

/-! ### What the overlays hold -/

lemma lastWritten_eq_some_iff {writes : List (TableKey × TableValue)}
    (h : (writes.map Prod.fst).Nodup) (key : TableKey) (value : TableValue) :
    lastWritten writes key = some value ↔ (key, value) ∈ writes := by
  induction writes using List.reverseRecOn with
  | nil => simp [lastWritten]
  | append_singleton writes w ih =>
    rw [List.map_append, List.nodup_append] at h
    obtain ⟨hwrites, -, hdisjoint⟩ := h
    rw [lastWritten_append, List.mem_append, ← ih hwrites, List.mem_singleton]
    obtain ⟨key', value'⟩ := w
    by_cases hkey : key = key'
    · subst hkey
      have habsent : lastWritten writes key = none := by
        rw [← Option.not_isSome_iff_eq_none, isSome_lastWritten]
        exact fun hmem => hdisjoint key hmem key (List.mem_singleton_self _) rfl
      rw [habsent]
      simp [lastWritten, eq_comm]
    · simp [lastWritten, hkey]

lemma lastWritten_none (writes : List (TableKey × TableValue)) {key : TableKey}
    (h : ∀ w ∈ writes, w.1 ≠ key) : lastWritten writes key = none := by
  rw [← Option.not_isSome_iff_eq_none, isSome_lastWritten, List.mem_map]
  rintro ⟨w, hw, rfl⟩
  exact h w hw rfl

lemma lastWritten_storage (it : Iteration) (e : Address × Account) (a : Address) (slot : U256) :
    lastWritten (accountWrites it e.1 e.2) (.storage a slot) =
      if touches a e then
        (e.2.storage.lookup slot).map fun s => .storage (b256OfU256 s.presentValue)
      else none := by
  unfold accountWrites touches
  by_cases htouched : e.2.isTouched = true
  · simp only [htouched, Bool.not_true, Bool.false_eq_true, if_false, true_and]
    rw [← List.singleton_append, lastWritten_append, lastWritten_append,
      lastWritten_none [_] (by simp), lastWritten_none (Option.map _ _).toList (by simp),
      Option.or_none, Option.or_none]
    by_cases ha : e.1 = a
    · subst ha
      rw [if_pos rfl]
      apply Option.ext
      intro value
      rw [lastWritten_eq_some_iff, List.mem_map, Option.map_eq_some_iff]
      · constructor
        · rintro ⟨⟨slot', s⟩, hs, heq⟩
          cases heq
          exact ⟨s, (mem_iter_iff it _ _ _).mp hs, rfl⟩
        · rintro ⟨s, hs, rfl⟩
          exact ⟨(slot, s), (mem_iter_iff it _ _ _).mpr hs, rfl⟩
      · rw [List.map_map]
        have hkeys := (iter_keys_nodup it e.2.storage).map
          (f := TableKey.storage e.1) fun _ _ h => (TableKey.storage.inj h).2
        rwa [List.map_map] at hkeys
    · rw [if_neg ha]
      apply lastWritten_none
      intro w hw
      obtain ⟨s, -, rfl⟩ := List.mem_map.mp hw
      exact fun h => ha (TableKey.storage.inj h).1
  · simp [htouched, lastWritten]

lemma lastWritten_codeByHash (it : Iteration) (e : Address × Account) (hash : B256) :
    lastWritten (accountWrites it e.1 e.2) (.codeByHash hash) =
      if carriesCode hash e then e.2.info.code.map .codeByHash else none := by
  unfold accountWrites carriesCode
  by_cases htouched : e.2.isTouched = true
  · have hslots : ∀ w ∈ (iter it e.2.storage).map fun s =>
        (TableKey.storage e.1 s.1, TableValue.storage (b256OfU256 s.2.presentValue)),
        w.1 ≠ .codeByHash hash := by
      intro w hw
      obtain ⟨s, -, rfl⟩ := List.mem_map.mp hw
      exact TableKey.noConfusion
    simp only [htouched, Bool.not_true, Bool.false_eq_true, if_false, true_and]
    rw [← List.singleton_append, lastWritten_append, lastWritten_append,
      lastWritten_none [_] (by simp), lastWritten_none _ hslots, Option.none_or, Option.or_none]
    cases e.2.info.code with
    | none => simp [lastWritten]
    | some code => simp [lastWritten, eq_comm]
  · simp [htouched, lastWritten]

lemma lastWritten_accounts (it : Iteration) (accounts : List (Address × Account)) :
    (∀ a slot, lastWritten (accounts.flatMap fun e => accountWrites it e.1 e.2)
        (.storage a slot) = (lastValue accounts a slot).map (.storage ∘ b256OfU256)) ∧
      ∀ hash, lastWritten (accounts.flatMap fun e => accountWrites it e.1 e.2)
        (.codeByHash hash) = (lastCode accounts hash).map .codeByHash := by
  induction accounts using List.reverseRecOn with
  | nil => exact ⟨fun a slot => rfl, fun hash => rfl⟩
  | append_singleton accounts e ih =>
    unfold lastValue lastCode at ih ⊢
    simp only [List.flatMap_append, List.flatMap_singleton, lastWritten_append,
      lastWritten_storage, lastWritten_codeByHash, List.foldl_append, List.foldl_cons,
      List.foldl_nil, ih.1, ih.2]
    constructor
    · intro a slot
      by_cases htouches : touches a e
      · simp only [if_pos htouches]
        cases e.2.storage.lookup slot <;> rfl
      · simp only [if_neg htouches, Option.none_or]
    · intro hash
      by_cases hcarries : carriesCode hash e
      · obtain ⟨code, hcode⟩ := Option.isSome_iff_exists.mp hcarries.2.2
        simp only [if_pos hcarries, hcode, Option.map_some, Option.some_or]
      · simp only [if_neg hcarries, Option.none_or]

lemma committedValue_toOverlay (it : Iteration) (ops : List DbOp) (key : TableKey) :
    committedValue it (ops.map DbOp.toOverlay) key =
      lastWritten ((committedAccounts it ops).flatMap fun e => accountWrites it e.1 e.2) key := by
  unfold committedValue committedAccounts
  congr 1
  induction ops with
  | nil => rfl
  | cons op ops ih =>
    rw [List.map_cons, List.flatMap_cons, ih, List.flatMap_cons, List.flatMap_append]
    cases op <;> rfl

lemma droppedSince_toOverlay (it : Iteration) (ops : List DbOp) (key : TableKey) :
    droppedSince it (ops.map DbOp.toOverlay) key = false := by
  induction ops using List.reverseRecOn with
  | nil => rfl
  | append_singleton ops op ih =>
    unfold droppedSince at ih ⊢
    rw [List.map_append, List.map_singleton, List.foldl_append, ih]
    cases op with
    | query q => rfl
    | commit changes => exact ite_self _

lemma readThrough_kept {α : Type} {overlay : OverlayCache} {key : TableKey}
    (cached : TableValue → Except (Failure NotFoundError) α) (fetched : Fetched α)
    {kept : Option TableValue}
    (hlookup : overlay.lookup key = kept ∨ kept = none ∧ overlay.lookup key = fetched.entry)
    (hcached : ∀ value, fetched.entry = some value → cached value = fetched.map Prod.fst) :
    (readThrough overlay key cached fetched).1 = kept.elim (fetched.map Prod.fst) cached := by
  cases kept with
  | none =>
    apply readThrough_answer _ hcached
    intro value hvalue
    rcases hlookup with hnone | ⟨-, hsource⟩
    · rw [hnone] at hvalue
      exact (Option.some_ne_none value hvalue.symm).elim
    · rw [← hsource, hvalue]
  | some value =>
    rcases hlookup with hsome | ⟨hnone, -⟩
    · unfold readThrough
      rw [hsome]
      rfl
    · exact (Option.some_ne_none value hnone).elim

/-! ### Agreement -/

section

variable {Db Err : Type} [DatabaseRef Db Err]

lemma overlayAfter_lookup (it : Iteration) (db : Db) (ops : List DbOp) (key : TableKey) :
    (overlayAfter it db (ops.map DbOp.toOverlay)).lookup key =
        committedValue it (ops.map DbOp.toOverlay) key ∨
      committedValue it (ops.map DbOp.toOverlay) key = none ∧
        (overlayAfter it db (ops.map DbOp.toOverlay)).lookup key = sourceEntry db key := by
  have hkept := keptValue_events it (ops.map DbOp.toOverlay) key
  rw [droppedSince_toOverlay, if_neg Bool.false_ne_true] at hkept
  rw [← hkept]
  exact faithful_applyAll _ key

lemma storageRef_afterCommits (it : Iteration) (db : Db) (ops : List DbOp) (a : Address)
    (slot : U256) :
    (OverlayDb.storageRef ⟨some db, overlayAfter it db (ops.map DbOp.toOverlay)⟩ a slot).1 =
      (lastValue (committedAccounts it ops) a slot).elim
        (mapNotFound (DatabaseRef.storageRef db a slot)) .ok := by
  have hanswer := readThrough_kept (fun value => (unwrap value.asStorage).map u256OfB256)
    (fetchStorage db a slot) (overlayAfter_lookup it db ops (.storage a slot)) (by
      intro value hvalue
      obtain ⟨word, rfl, hdb⟩ := fetchStorage_entry hvalue
      rw [fetchStorage_fst, hdb]
      rfl)
  rw [committedValue_toOverlay, (lastWritten_accounts it _).1, fetchStorage_fst] at hanswer
  refine Eq.trans hanswer ?_
  cases lastValue (committedAccounts it ops) a slot with
  | none => rfl
  | some value => exact congrArg Except.ok (u256OfB256_b256OfU256 value)

lemma codeByHashRef_afterCommits (it : Iteration) (db : Db) (ops : List DbOp) (hash : B256) :
    (OverlayDb.codeByHashRef ⟨some db, overlayAfter it db (ops.map DbOp.toOverlay)⟩ hash).1 =
      (lastCode (committedAccounts it ops) hash).elim
        (mapNotFound (DatabaseRef.codeByHashRef db hash)) .ok := by
  have hanswer := readThrough_kept (fun value => unwrap value.asCodeByHash)
    (fetchCodeByHash db hash) (overlayAfter_lookup it db ops (.codeByHash hash)) (by
      intro value hvalue
      obtain ⟨code, rfl, hdb⟩ := fetchCodeByHash_entry hvalue
      rw [fetchCodeByHash_fst, hdb]
      rfl)
  rw [committedValue_toOverlay, (lastWritten_accounts it _).2, fetchCodeByHash_fst] at hanswer
  refine Eq.trans hanswer ?_
  cases lastCode (committedAccounts it ops) hash <;> rfl

/-- The three databases after a history give the same answers, and zero for the slots of
destroyed accounts. -/
structure CommitsAgree (db : Db) (accounts : List (Address × Account)) (fork : ForkDb Db)
    (overlay : OverlayDb Db) (active : ActiveOverlay Db) : Prop where
  storage : ∀ a slot,
    (overlay.storageRef a slot).1 = mapNotFound (DatabaseRef.storageRef fork a slot) ∧
      (active.storageRef a slot).1 = mapNotFound (DatabaseRef.storageRef fork a slot)
  code : ∀ hash, LiveHash db accounts hash →
    (overlay.codeByHashRef hash).1 = mapNotFound (DatabaseRef.codeByHashRef fork hash) ∧
      (active.codeByHashRef hash).1 = mapNotFound (DatabaseRef.codeByHashRef fork hash)
  destroyed : ∀ a slot, destroyedSince accounts a slot = true →
    DatabaseRef.storageRef fork a slot = .ok 0 ∧ (overlay.storageRef a slot).1 = .ok 0 ∧
      (active.storageRef a slot).1 = .ok 0

/-- The accounts that the history destroys had nothing to hide: the slots they are left with
were last committed as zero or are zero in the database, and the code they were committed with
is also found without them. -/
structure DestroyedEmpty (db : Db) (accounts : List (Address × Account)) : Prop where
  storage : ∀ a slot, destroyedSince accounts a slot = true →
    (lastValue accounts a slot).elim (DatabaseRef.storageRef db a slot) .ok = .ok 0
  code : ∀ hash code, LiveHash db accounts hash → codeOfDestroyed accounts hash = true →
    lastCode accounts hash = some code →
    (lastCode (surviving accounts) hash).elim (DatabaseRef.codeByHashRef db hash) .ok = .ok code

omit [DatabaseRef Db Err] in
lemma mapNotFound_elim {α : Type} (value : Option α) (r : Except Err α) :
    mapNotFound (value.elim r .ok) = value.elim (mapNotFound r) .ok := by
  cases value <;> rfl

omit [DatabaseRef Db Err] in
lemma mapNotFound_eq_ok {α : Type} {r : Except Err α} {a : α} :
    mapNotFound r = .ok a ↔ r = .ok a := by
  cases r with
  | error e => exact iff_of_false (fun h => nomatch h) (fun h => nomatch h)
  | ok b => rw [mapNotFound, Except.mapError, Except.ok.injEq, Except.ok.injEq]

/-- A fork and both overlays that commit the same history agree exactly when the accounts that
it destroys had nothing to hide. -/
theorem commits_agree_iff (it : Iteration) (db : Db) (ops : List DbOp) :
    CommitsAgree db (committedAccounts it ops) ((ForkDb.new db).applyAll it ops)
      (OverlayDb.applyAll it (.new (some db)) (ops.map DbOp.toOverlay))
      (ActiveOverlay.applyAll it ((OverlayDb.new (none : Option Db)).createOverlay db)
        (ops.map DbOp.toOverlay)) ↔
    DestroyedEmpty db (committedAccounts it ops) := by
  have hoverlay : OverlayDb.applyAll it (.new (some db)) (ops.map DbOp.toOverlay) =
      ⟨some db, overlayAfter it db (ops.map DbOp.toOverlay)⟩ := OverlayDb.applyAll_eq it db ∅ _
  have hactive : ActiveOverlay.applyAll it ((OverlayDb.new (none : Option Db)).createOverlay db)
      (ops.map DbOp.toOverlay) = ⟨db, overlayAfter it db (ops.map DbOp.toOverlay)⟩ :=
    ActiveOverlay.applyAll_eq it db ∅ _
  rw [hoverlay, hactive, ForkDb.applyAll_eq]
  have hstorage := storageRef_afterCommits it db ops
  have hcode := codeByHashRef_afterCommits it db ops
  generalize hcommitted : committedAccounts it ops = accounts at *
  have hforkStorage := ForkDb.storageRef_commits db accounts
  have hforkCode := ForkDb.codeByHashRef_commits db accounts
  constructor
  · intro h
    constructor
    · intro a slot hdestroyed
      have hzero : (OverlayDb.storageRef _ a slot).1 = .ok 0 := (h.destroyed a slot hdestroyed).2.1
      rwa [hstorage, ← mapNotFound_elim, mapNotFound_eq_ok] at hzero
    · intro hash code hlive hdestroyed hlast
      have hsame := (h.code hash hlive).1
      rw [hcode, hlast, hforkCode] at hsame
      exact mapNotFound_eq_ok.mp hsame.symm
  · intro h
    have hagree : ∀ a slot, (OverlayDb.storageRef
        ⟨some db, overlayAfter it db (ops.map DbOp.toOverlay)⟩ a slot).1 =
        mapNotFound (DatabaseRef.storageRef
          (accounts.foldl (fun db e => db.commitAccount e.1 e.2) (ForkDb.new db)) a slot) := by
      intro a slot
      rw [hstorage, hforkStorage, ← mapNotFound_elim]
      by_cases hdestroyed : destroyedSince accounts a slot = true
      · rw [h.storage a slot hdestroyed, if_pos hdestroyed]
        rfl
      · rw [if_neg hdestroyed]
    have hagreeCode : ∀ hash, LiveHash db accounts hash → (OverlayDb.codeByHashRef
        ⟨some db, overlayAfter it db (ops.map DbOp.toOverlay)⟩ hash).1 =
        mapNotFound (DatabaseRef.codeByHashRef
          (accounts.foldl (fun db e => db.commitAccount e.1 e.2) (ForkDb.new db)) hash) := by
      intro hash hlive
      rw [hcode, hforkCode]
      by_cases hdestroyed : codeOfDestroyed accounts hash = true
      · obtain ⟨code, hlast⟩ := lastCode_of_codeOfDestroyed hdestroyed
        rw [h.code hash code hlive hdestroyed hlast, hlast]
        rfl
      · rw [lastCode_surviving (Bool.eq_false_iff.mpr hdestroyed), mapNotFound_elim]
    have hzero : ∀ a slot, destroyedSince accounts a slot = true → DatabaseRef.storageRef
        (accounts.foldl (fun db e => db.commitAccount e.1 e.2) (ForkDb.new db)) a slot =
        .ok 0 := by
      intro a slot hdestroyed
      rw [hforkStorage, if_pos hdestroyed]
      rfl
    constructor
    · exact fun a slot => ⟨hagree a slot, hagree a slot⟩
    · exact fun hash hlive => ⟨hagreeCode hash hlive, hagreeCode hash hlive⟩
    · intro a slot hdestroyed
      have hoverlayZero := hagree a slot
      rw [hzero a slot hdestroyed] at hoverlayZero
      exact ⟨hzero a slot hdestroyed, hoverlayZero, hoverlayZero⟩

end

/-- An account that is destroyed with a value in its first slot. -/
def destroyedAccount : Account :=
  ⟨.default, (∅ : EvmStorage).insert 0 (.new 5), { touched := true, selfDestructed := true }⟩

/-- The slot of a destroyed account still has its value in the overlays. -/
theorem destroyed_slot_stays :
    ¬∀ ops : List DbOp, CommitsAgree () (committedAccounts .buckets ops)
      ((ForkDb.new ()).applyAll .buckets ops)
      (OverlayDb.applyAll .buckets (.new (some ())) (ops.map DbOp.toOverlay))
      (ActiveOverlay.applyAll .buckets ((OverlayDb.new (none : Option Unit)).createOverlay ())
        (ops.map DbOp.toOverlay)) := by
  intro h
  have hzero : (OverlayDb.storageRef (OverlayDb.applyAll .buckets (.new (some ()))
      [.commit ((∅ : EvmState).insert 7 destroyedAccount)]) 7 0).1 = .ok 0 :=
    ((h [.commit ((∅ : EvmState).insert 7 destroyedAccount)]).destroyed 7 0 (by decide)).2.1
  have hstays : (OverlayDb.storageRef (OverlayDb.applyAll .buckets (.new (some ()))
      [.commit ((∅ : EvmState).insert 7 destroyedAccount)]) 7 0).1 =
      .ok (u256OfB256 (b256OfU256 5)) := rfl
  rw [hstays, u256OfB256_b256OfU256] at hzero
  exact absurd hzero (by decide)

end AssertionExecution
