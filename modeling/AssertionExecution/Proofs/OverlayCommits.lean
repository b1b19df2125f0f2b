import AssertionExecution.Proofs.ForkIsolation
import AssertionExecution.Proofs.OverlayReads

/-!
# What an overlay keeps of its commits

A commit writes to the cache only. It is seen as long as the cache keeps its entries; an
entry that is dropped is read from the database below again.
-/

namespace AssertionExecution

open ReadThrough

/-! ### The writes of a commit -/

/-- What a commit writes for one account, in order. -/
def accountWrites (it : Iteration) (address : Address) (account : Account) :
    List (TableKey × TableValue) :=
  if !account.isTouched then []
  else (.basic address, .basic account.info) ::
    ((account.info.code.map fun code =>
        (TableKey.codeByHash account.info.codeHash, TableValue.codeByHash code)).toList ++
      (HashMap.iter it account.storage).map fun e =>
        (TableKey.storage address e.1, TableValue.storage (b256OfU256 e.2.presentValue)))

def commitWrites (it : Iteration) (changes : EvmState) : List (TableKey × TableValue) :=
  (HashMap.iter it changes).flatMap fun e => accountWrites it e.1 e.2

def writeAll (overlay : OverlayCache) (writes : List (TableKey × TableValue)) : OverlayCache :=
  writes.foldl (fun overlay w => overlay.insert w.1 w.2) overlay

lemma commitToOverlay_eq (it : Iteration) (overlay : OverlayCache) (address : Address)
    (account : Account) :
    commitToOverlay it overlay address account =
      writeAll overlay (accountWrites it address account) := by
  unfold commitToOverlay accountWrites writeAll
  by_cases htouched : account.isTouched = true
  · cases hcode : account.info.code <;> simp [htouched, List.foldl_map]
  · simp [htouched]

lemma commitAllToOverlay_eq (it : Iteration) (overlay : OverlayCache) (changes : EvmState) :
    commitAllToOverlay it overlay changes = writeAll overlay (commitWrites it changes) := by
  unfold commitAllToOverlay commitWrites
  generalize HashMap.iter it changes = accounts
  induction accounts generalizing overlay with
  | nil => rfl
  | cons e accounts ih =>
    rw [List.foldl_cons, ih, commitToOverlay_eq, List.flatMap_cons]
    exact List.foldl_append.symm

lemma accountWrites_holds (it : Iteration) {address : Address} {account : Account}
    {w : TableKey × TableValue} (h : w ∈ accountWrites it address account) : w.1.Holds w.2 := by
  unfold accountWrites at h
  split_ifs at h
  · exact (List.not_mem_nil h).elim
  · rw [List.mem_cons, List.mem_append, Option.mem_toList, Option.map_eq_some_iff,
      List.mem_map] at h
    rcases h with rfl | ⟨code, -, rfl⟩ | ⟨e, -, rfl⟩ <;> trivial

/-! ### Runs with commits -/

namespace OverlayOp

def writes (it : Iteration) : OverlayOp → List (TableKey × TableValue)
  | use _ => []
  | commit changes => commitWrites it changes

def drops (key : TableKey) : OverlayOp → Bool
  | use (.evict key') => key = key'
  | use .invalidateAll => true
  | _ => false

def events (it : Iteration) : OverlayOp → List (Event TableKey TableValue)
  | use u => [u.event]
  | commit changes => (commitWrites it changes).map fun w => .write w.1 w.2

end OverlayOp

/-- The value most recently committed for a key. -/
def lastWritten (writes : List (TableKey × TableValue)) (key : TableKey) : Option TableValue :=
  writes.foldl (fun value w => if key = w.1 then some w.2 else value) none

def committedValue (it : Iteration) (ops : List OverlayOp) (key : TableKey) : Option TableValue :=
  lastWritten (ops.flatMap (OverlayOp.writes it)) key

/-- The entry of the key has been dropped since it was last committed. -/
def droppedSince (it : Iteration) (ops : List OverlayOp) (key : TableKey) : Bool :=
  ops.foldl (fun dropped op =>
    if key ∈ (op.writes it).map Prod.fst then false else dropped || op.drops key) false

lemma foldl_lastWritten (writes : List (TableKey × TableValue)) (key : TableKey)
    (value : Option TableValue) :
    writes.foldl (fun value w => if key = w.1 then some w.2 else value) value =
      (lastWritten writes key).or value := by
  induction writes using List.reverseRecOn with
  | nil => rfl
  | append_singleton writes w ih =>
    unfold lastWritten at ih ⊢
    simp only [List.foldl_append, List.foldl_cons, List.foldl_nil]
    split_ifs
    · rfl
    · exact ih

lemma lastWritten_append (writes writes' : List (TableKey × TableValue)) (key : TableKey) :
    lastWritten (writes ++ writes') key =
      (lastWritten writes' key).or (lastWritten writes key) := by
  rw [lastWritten, List.foldl_append, foldl_lastWritten]
  rfl

lemma isSome_lastWritten (writes : List (TableKey × TableValue)) (key : TableKey) :
    (lastWritten writes key).isSome ↔ key ∈ writes.map Prod.fst := by
  induction writes using List.reverseRecOn with
  | nil => simp [lastWritten]
  | append_singleton writes w ih =>
    rw [lastWritten_append, Option.isSome_or, Bool.or_eq_true, ih, List.map_append, List.mem_append]
    by_cases h : key = w.1 <;> simp [lastWritten, h, or_comm]

/-- What a cache keeps of a run: the last commit of a key, unless it has been dropped. -/
theorem keptValue_events (it : Iteration) (ops : List OverlayOp) (key : TableKey) :
    keptValue (ops.flatMap (OverlayOp.events it)) key =
      if droppedSince it ops key then none else committedValue it ops key := by
  induction ops using List.reverseRecOn with
  | nil => rfl
  | append_singleton ops op ih =>
    have hkept : keptValue ((ops ++ [op]).flatMap (OverlayOp.events it)) key =
        (op.events it).foldl (keep key) (keptValue (ops.flatMap (OverlayOp.events it)) key) := by
      simp only [keptValue, List.flatMap_append, List.flatMap_singleton, List.foldl_append]
    have hcommitted : committedValue it (ops ++ [op]) key =
        (lastWritten (op.writes it) key).or (committedValue it ops key) := by
      simp only [committedValue, List.flatMap_append, List.flatMap_singleton, lastWritten_append]
    have hdropped : droppedSince it (ops ++ [op]) key =
        if key ∈ (op.writes it).map Prod.fst then false
        else droppedSince it ops key || op.drops key := by
      simp only [droppedSince, List.foldl_append, List.foldl_cons, List.foldl_nil]
    rw [hkept, ih, hcommitted, hdropped]
    cases op with
    | commit changes =>
      have hfold : ∀ value, ((commitWrites it changes).map fun w => Event.write w.1 w.2).foldl
          (keep key) value = (lastWritten (commitWrites it changes) key).or value := by
        intro value
        rw [List.foldl_map]
        exact foldl_lastWritten _ _ _
      have hmem := isSome_lastWritten (commitWrites it changes) key
      simp only [OverlayOp.events, OverlayOp.writes, OverlayOp.drops, Bool.or_false]
      rw [hfold]
      cases hwritten : lastWritten (commitWrites it changes) key with
      | some value =>
        rw [hwritten] at hmem
        rw [if_pos (hmem.mp rfl)]
        rfl
      | none =>
        rw [hwritten] at hmem
        rw [if_neg fun h => Bool.false_ne_true (hmem.mpr h), Option.none_or, Option.none_or]
    | use u =>
      cases u with
      | query q =>
        simp [OverlayOp.events, OverlayOp.writes, OverlayOp.drops, CacheUse.event, keep,
          lastWritten]
      | evict key' =>
        simp only [OverlayOp.events, OverlayOp.writes, OverlayOp.drops, CacheUse.event, keep,
          lastWritten, List.foldl_cons, List.foldl_nil, List.map_nil, List.not_mem_nil, if_false,
          Option.none_or]
        by_cases h : key = key' <;> simp [h]
      | invalidateAll =>
        simp [OverlayOp.events, OverlayOp.writes, OverlayOp.drops, CacheUse.event, keep]

section

variable {Db Err : Type} [DatabaseRef Db Err]

def OverlayDb.apply (it : Iteration) (self : OverlayDb Db) : OverlayOp → OverlayDb Db
  | .use u => self.use u
  | .commit changes => self.commit it changes

def OverlayDb.applyAll (it : Iteration) (self : OverlayDb Db) (ops : List OverlayOp) :
    OverlayDb Db :=
  ops.foldl (OverlayDb.apply it) self

def ActiveOverlay.apply (it : Iteration) (self : ActiveOverlay Db) : OverlayOp → ActiveOverlay Db
  | .use u => self.use u
  | .commit changes => self.commit it changes

def ActiveOverlay.applyAll (it : Iteration) (self : ActiveOverlay Db) (ops : List OverlayOp) :
    ActiveOverlay Db :=
  ops.foldl (ActiveOverlay.apply it) self

omit [DatabaseRef Db Err] in
lemma writeAll_eq (source : TableKey → Option TableValue) (overlay : OverlayCache)
    (writes : List (TableKey × TableValue)) :
    writeAll overlay writes =
      ReadThrough.applyAll source overlay (writes.map fun w => .write w.1 w.2) := by
  rw [ReadThrough.applyAll, List.foldl_map]
  rfl

lemma OverlayDb.applyAll_eq (it : Iteration) (db : Db) (overlay : OverlayCache)
    (ops : List OverlayOp) :
    OverlayDb.applyAll it ⟨some db, overlay⟩ ops =
      ⟨some db, ReadThrough.applyAll (sourceEntry db) overlay
        (ops.flatMap (OverlayOp.events it))⟩ := by
  induction ops generalizing overlay with
  | nil => rfl
  | cons op ops ih =>
    have hstep : OverlayDb.apply it ⟨some db, overlay⟩ op =
        ⟨some db, ReadThrough.applyAll (sourceEntry db) overlay (op.events it)⟩ := by
      cases op with
      | use u => exact OverlayDb.use_eq db overlay u
      | commit changes =>
        exact congrArg _ ((commitAllToOverlay_eq it overlay changes).trans (writeAll_eq _ _ _))
    unfold OverlayDb.applyAll at ih ⊢
    rw [List.foldl_cons, hstep, ih, List.flatMap_cons]
    unfold ReadThrough.applyAll
    rw [List.foldl_append]

lemma ActiveOverlay.applyAll_eq (it : Iteration) (db : Db) (overlay : OverlayCache)
    (ops : List OverlayOp) :
    ActiveOverlay.applyAll it ⟨db, overlay⟩ ops =
      ⟨db, ReadThrough.applyAll (sourceEntry db) overlay
        (ops.flatMap (OverlayOp.events it))⟩ := by
  induction ops generalizing overlay with
  | nil => rfl
  | cons op ops ih =>
    have hstep : ActiveOverlay.apply it ⟨db, overlay⟩ op =
        ⟨db, ReadThrough.applyAll (sourceEntry db) overlay (op.events it)⟩ := by
      cases op with
      | use u => exact ActiveOverlay.use_eq db overlay u
      | commit changes =>
        exact congrArg _ ((commitAllToOverlay_eq it overlay changes).trans (writeAll_eq _ _ _))
    unfold ActiveOverlay.applyAll at ih ⊢
    rw [List.foldl_cons, hstep, ih, List.flatMap_cons]
    unfold ReadThrough.applyAll
    rw [List.foldl_append]

def overlayAfter (it : Iteration) (db : Db) (ops : List OverlayOp) : OverlayCache :=
  ReadThrough.applyAll (sourceEntry db) ∅ (ops.flatMap (OverlayOp.events it))

lemma overlayAfter_holds {it : Iteration} {db : Db} {ops : List OverlayOp} {key : TableKey}
    {value : TableValue} (h : (overlayAfter it db ops).lookup key = some value) :
    key.Holds value := by
  apply forall_applyAll (P := TableKey.Holds) (fun _ _ => sourceEntry_holds db) _ h
  intro key value hmem
  obtain ⟨op, -, hop⟩ := List.mem_flatMap.mp hmem
  cases op with
  | use u => cases u <;> simp [OverlayOp.events, CacheUse.event] at hop
  | commit changes =>
    obtain ⟨w, hw, hevent⟩ := List.mem_map.mp hop
    cases hevent
    obtain ⟨e, -, he⟩ := List.mem_flatMap.mp hw
    exact accountWrites_holds it he

lemma overlayAfter_view (it : Iteration) (db : Db) (ops : List OverlayOp) (key : TableKey) :
    ((overlayAfter it db ops).lookup key).or (sourceEntry db key) =
      (if droppedSince it ops key then none else committedValue it ops key).or
        (sourceEntry db key) := by
  rw [← keptValue_events]
  exact (faithful_applyAll _).view key

/-! ### Reading a key -/

/-- The read function of the key's table returns the value. -/
def OverlayDb.Returns (self : OverlayDb Db) : TableKey → TableValue → Prop
  | .basic address, .basic info => (self.basicRef address).1 = .ok (some info)
  | .codeByHash hash, .codeByHash code => (self.codeByHashRef hash).1 = .ok code
  | .storage address slot, .storage word =>
    (self.storageRef address slot).1 = .ok (u256OfB256 word)
  | .blockHash number, .blockHash hash => (self.blockHashRef number).1 = .ok hash
  | _, _ => False

def ActiveOverlay.Returns (self : ActiveOverlay Db) : TableKey → TableValue → Prop
  | .basic address, .basic info => (self.basicRef address).1 = .ok (some info)
  | .codeByHash hash, .codeByHash code => (self.codeByHashRef hash).1 = .ok code
  | .storage address slot, .storage word =>
    (self.storageRef address slot).1 = .ok (u256OfB256 word)
  | .blockHash number, .blockHash hash => (self.blockHashRef number).1 = .ok hash
  | _, _ => False

omit [DatabaseRef Db Err] in
lemma readThrough_eq_ok {α : Type} {overlay : OverlayCache} {key : TableKey}
    {cached : TableValue → Except (Failure NotFoundError) α} {fetched : Fetched α} {a : α}
    {value : TableValue} (hholds : ∀ value, overlay.lookup key = some value → key.Holds value)
    (hcached : ∀ value', key.Holds value' → (cached value' = .ok a ↔ value' = value))
    (hfetched : fetched.map Prod.fst = .ok a ↔ fetched.entry = some value) :
    (readThrough overlay key cached fetched).1 = .ok a ↔
      (overlay.lookup key).or fetched.entry = some value := by
  unfold readThrough
  cases hlookup : overlay.lookup key with
  | some value' =>
    rw [Option.some_or, Option.some_inj]
    exact hcached value' (hholds value' hlookup)
  | none =>
    rw [Option.none_or, ← hfetched]
    rcases fetched with e | ⟨a, _ | value⟩
    · rfl
    · rfl
    · rfl

lemma u256OfB256_inj {word word' : B256} : u256OfB256 word = u256OfB256 word' ↔ word = word' := by
  have hid : ∀ word : B256, u256OfB256 word = word := by
    intro word
    apply BitVec.eq_of_toNat_eq
    rw [u256OfB256, ofBytes_toBytes, BitVec.toNat_ofNat]
    have := word.isLt
    omega
  rw [hid, hid]

lemma OverlayDb.returns_iff (db : Db) (overlay : OverlayCache)
    (hholds : ∀ key value, overlay.lookup key = some value → key.Holds value) (key : TableKey)
    (value : TableValue) :
    (⟨some db, overlay⟩ : OverlayDb Db).Returns key value ↔
      (overlay.lookup key).or (sourceEntry db key) = some value := by
  have hview : ∀ value', (overlay.lookup key).or (sourceEntry db key) = some value' →
      key.Holds value' := by
    intro value' hvalue
    rcases Option.or_eq_some_iff.mp hvalue with hlookup | ⟨-, hsource⟩
    · exact hholds key value' hlookup
    · exact sourceEntry_holds db hsource
  cases key with
  | basic address =>
    cases value with
    | basic info =>
      apply readThrough_eq_ok (hholds _)
      · intro value' hheld
        cases value' with
        | basic info' => simp [TableValue.asBasic]
        | _ => exact hheld.elim
      · unfold fetchBasic
        rcases hdb : DatabaseRef.basicRef db address with e | _ | info' <;>
          simp [hdb, Except.map, Fetched.entry]
    | _ => exact iff_of_false id fun h => hview _ h
  | codeByHash hash =>
    cases value with
    | codeByHash code =>
      apply readThrough_eq_ok (hholds _)
      · intro value' hheld
        cases value' with
        | codeByHash code' => simp [TableValue.asCodeByHash, unwrap]
        | _ => exact hheld.elim
      · unfold fetchCodeByHash
        cases hdb : DatabaseRef.codeByHashRef db hash <;>
          simp [hdb, Except.map, Fetched.entry]
    | _ => exact iff_of_false id fun h => hview _ h
  | storage address slot =>
    cases value with
    | storage word =>
      apply readThrough_eq_ok (hholds _)
      · intro value' hheld
        cases value' with
        | storage word' => simp [TableValue.asStorage, unwrap, Except.map, u256OfB256_inj]
        | _ => exact hheld.elim
      · unfold fetchStorage
        cases hdb : DatabaseRef.storageRef db address slot with
        | error e => simp [hdb, Except.map, Fetched.entry]
        | ok stored =>
          simp only [hdb, Except.map, Fetched.entry, Except.ok.injEq, Option.some.injEq,
            TableValue.storage.injEq]
          conv_lhs => rw [← u256OfB256_b256OfU256 stored]
          exact u256OfB256_inj
    | _ => exact iff_of_false id fun h => hview _ h
  | blockHash number =>
    cases value with
    | blockHash hash =>
      apply readThrough_eq_ok (hholds _)
      · intro value' hheld
        cases value' with
        | blockHash hash' => simp [TableValue.asBlockHash, unwrap]
        | _ => exact hheld.elim
      · unfold fetchBlockHash
        cases hdb : DatabaseRef.blockHashRef db number <;>
          simp [hdb, Except.map, Fetched.entry]
    | _ => exact iff_of_false id fun h => hview _ h

lemma ActiveOverlay.returns_iff (db : Db) (overlay : OverlayCache) (key : TableKey)
    (value : TableValue) :
    (⟨db, overlay⟩ : ActiveOverlay Db).Returns key value ↔
      (⟨some db, overlay⟩ : OverlayDb Db).Returns key value := by
  cases key <;> cases value <;> rfl

/-- After a run of commits, reads, evictions and invalidations from an empty cache, both
overlays return the last committed value of every key exactly when no committed entry has been
dropped since, except for those that the database below holds with the same value. -/
theorem commits_kept_iff (it : Iteration) (db : Db) (ops : List OverlayOp) :
    (∀ key value, committedValue it ops key = some value →
      (OverlayDb.applyAll it (.new (some db)) ops).Returns key value ∧
      (ActiveOverlay.applyAll it ((OverlayDb.new (none : Option Db)).createOverlay db)
        ops).Returns key value) ↔
    ∀ key value, committedValue it ops key = some value → droppedSince it ops key = true →
      sourceEntry db key = some value := by
  have hoverlay : OverlayDb.applyAll it (.new (some db)) ops =
      ⟨some db, overlayAfter it db ops⟩ := OverlayDb.applyAll_eq it db ∅ ops
  have hactive : ActiveOverlay.applyAll it ((OverlayDb.new (none : Option Db)).createOverlay db)
      ops = ⟨db, overlayAfter it db ops⟩ := ActiveOverlay.applyAll_eq it db ∅ ops
  have hreturns : ∀ key value,
      (⟨some db, overlayAfter it db ops⟩ : OverlayDb Db).Returns key value ↔
        (if droppedSince it ops key then none else committedValue it ops key).or
          (sourceEntry db key) = some value := by
    intro key value
    rw [OverlayDb.returns_iff db _ (fun _ _ => overlayAfter_holds), overlayAfter_view]
  rw [hoverlay, hactive]
  constructor
  · intro h key value hcommitted hdropped
    have hread := (hreturns key value).mp (h key value hcommitted).1
    rwa [if_pos hdropped, Option.none_or] at hread
  · intro h key value hcommitted
    have hread : (⟨some db, overlayAfter it db ops⟩ : OverlayDb Db).Returns key value := by
      rw [hreturns]
      by_cases hdropped : droppedSince it ops key = true
      · rw [if_pos hdropped, Option.none_or]
        exact h key value hcommitted hdropped
      · rw [if_neg hdropped, hcommitted, Option.some_or]
    exact ⟨hread, (ActiveOverlay.returns_iff db _ key value).mpr hread⟩

end

/-- An account with a value in its first slot, touched. -/
def storedAccount : Account :=
  ⟨.default, (∅ : EvmStorage).insert 0 (.new 5), { touched := true }⟩

/-- The committed value of a slot is lost with its cache entry. -/
theorem evicted_commit_is_lost :
    ¬∀ (ops : List OverlayOp) (key : TableKey) (value : TableValue),
      committedValue .buckets ops key = some value →
      (OverlayDb.applyAll .buckets (.new (some ())) ops).Returns key value := by
  intro h
  have hread : (OverlayDb.storageRef (OverlayDb.applyAll .buckets (.new (some ()))
      [.commit ((∅ : EvmState).insert 7 storedAccount), .use (.evict (.storage 7 0))]) 7 0).1 =
      .ok (u256OfB256 5) :=
    h _ (.storage 7 0) (.storage 5) (by decide)
  exact absurd hread (by decide)

end AssertionExecution
