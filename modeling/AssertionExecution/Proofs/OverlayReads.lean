import AssertionExecution.Library.ReadThrough
import AssertionExecution.Model.Overlay

/-!
# Reads through an overlay

An overlay that only reads answers like the database below it, whatever its cache has
dropped. Both overlays do to their cache what `ReadThrough` describes.
-/

namespace AssertionExecution

open ReadThrough

/-- A call of one of the four read functions. -/
inductive Query where
  | basicRef (address : Address)
  | codeByHashRef (codeHash : B256)
  | storageRef (address : Address) (slot : U256)
  | blockHashRef (number : Nat)

def Query.key : Query → TableKey
  | basicRef address => .basic address
  | codeByHashRef codeHash => .codeByHash codeHash
  | storageRef address slot => .storage address slot
  | blockHashRef number => .blockHash number

/-- What happens to a cache besides commits. -/
inductive CacheUse where
  | query (q : Query)
  | evict (key : TableKey)
  | invalidateAll

inductive OverlayOp where
  | use (u : CacheUse)
  | commit (changes : EvmState)

def TableKey.Holds : TableKey → TableValue → Prop
  | .basic _, .basic _ => True
  | .codeByHash _, .codeByHash _ => True
  | .storage _ _, .storage _ => True
  | .blockHash _, .blockHash _ => True
  | _, _ => False

/-- The value that is cached for an answer. -/
def Fetched.entry {α : Type} : Fetched α → Option TableValue
  | .ok (_, value) => value
  | .error _ => none

/-- Errors of the database below are reported as `NotFoundError`. -/
def mapNotFound {Err α : Type} (r : Except Err α) : Except (Failure NotFoundError) α :=
  r.mapError fun _ => .error ⟨⟩

/-- A storage value survives its conversion. -/
lemma u256OfB256_b256OfU256 (value : U256) : u256OfB256 (b256OfU256 value) = value := by
  have hbytes : ∀ word : BitVec 256, BitVec.ofNat 256 (ofBytes (toBytes 32 word.toNat)) = word := by
    intro word
    apply BitVec.eq_of_toNat_eq
    rw [ofBytes_toBytes, BitVec.toNat_ofNat]
    have := word.isLt
    omega
  rw [u256OfB256, hbytes, b256OfU256, hbytes]

/-! ### The overlays as caches -/

section

variable {Db Err : Type} [DatabaseRef Db Err]

def sourceEntry (db : Db) : TableKey → Option TableValue
  | .basic address => (fetchBasic db address).entry
  | .codeByHash hash => (fetchCodeByHash db hash).entry
  | .storage address slot => (fetchStorage db address slot).entry
  | .blockHash number => (fetchBlockHash db number).entry

lemma sourceEntry_holds (db : Db) {key : TableKey} {value : TableValue}
    (h : sourceEntry db key = some value) : key.Holds value := by
  cases key with
  | basic address =>
    simp only [sourceEntry, fetchBasic] at h
    split at h
    · cases h
    · cases h
      trivial
    · cases h
  | codeByHash hash =>
    simp only [sourceEntry, fetchCodeByHash] at h
    split at h
    · cases h
    · cases h
      trivial
  | storage address slot =>
    simp only [sourceEntry, fetchStorage] at h
    split at h
    · cases h
    · cases h
      trivial
  | blockHash number =>
    simp only [sourceEntry, fetchBlockHash] at h
    split at h
    · cases h
    · cases h
      trivial

omit [DatabaseRef Db Err] in
lemma readThrough_overlay {α : Type} (overlay : OverlayCache) (key : TableKey)
    (cached : TableValue → Except (Failure NotFoundError) α) (fetched : Fetched α)
    {source : TableKey → Option TableValue} (h : fetched.entry = source key) :
    (readThrough overlay key cached fetched).2 = fill source overlay key := by
  unfold readThrough fill
  rw [← h]
  cases overlay.lookup key with
  | some value => rfl
  | none =>
    rcases fetched with e | ⟨a, _ | value⟩
    · rfl
    · rfl
    · rfl

/-- An overlay that holds what the database holds answers what the database answers. -/
lemma readThrough_answer {α : Type} {overlay : OverlayCache} {key : TableKey}
    {cached : TableValue → Except (Failure NotFoundError) α} {fetched : Fetched α}
    (hentry : ∀ value, overlay.lookup key = some value → fetched.entry = some value)
    (hcached : ∀ value, fetched.entry = some value → cached value = fetched.map Prod.fst) :
    (readThrough overlay key cached fetched).1 = fetched.map Prod.fst := by
  unfold readThrough
  cases h : overlay.lookup key with
  | some value => exact hcached value (hentry value h)
  | none =>
    rcases fetched with e | ⟨a, _ | value⟩
    · rfl
    · rfl
    · rfl

lemma fetchBasic_fst (db : Db) (address : Address) :
    (fetchBasic db address).map Prod.fst = mapNotFound (DatabaseRef.basicRef db address) := by
  unfold fetchBasic
  rcases DatabaseRef.basicRef db address with e | _ | info
  · rfl
  · rfl
  · rfl

lemma fetchCodeByHash_fst (db : Db) (hash : B256) :
    (fetchCodeByHash db hash).map Prod.fst = mapNotFound (DatabaseRef.codeByHashRef db hash) := by
  unfold fetchCodeByHash
  cases DatabaseRef.codeByHashRef db hash <;> rfl

lemma fetchStorage_fst (db : Db) (address : Address) (slot : U256) :
    (fetchStorage db address slot).map Prod.fst =
      mapNotFound (DatabaseRef.storageRef db address slot) := by
  unfold fetchStorage
  cases DatabaseRef.storageRef db address slot <;> rfl

lemma fetchBlockHash_fst (db : Db) (number : Nat) :
    (fetchBlockHash db number).map Prod.fst = mapNotFound (DatabaseRef.blockHashRef db number) := by
  unfold fetchBlockHash
  cases DatabaseRef.blockHashRef db number <;> rfl

end

def CacheUse.event : CacheUse → Event TableKey TableValue
  | query q => .fill q.key
  | evict key => .drop key
  | invalidateAll => .clear

namespace OverlayDb

variable {Db Err : Type} [DatabaseRef Db Err]

def query (self : OverlayDb Db) : Query → OverlayDb Db
  | .basicRef address => (self.basicRef address).2
  | .codeByHashRef codeHash => (self.codeByHashRef codeHash).2
  | .storageRef address slot => (self.storageRef address slot).2
  | .blockHashRef number => (self.blockHashRef number).2

def use (self : OverlayDb Db) : CacheUse → OverlayDb Db
  | .query q => self.query q
  | .evict key => { self with overlay := self.overlay.erase key }
  | .invalidateAll => self.invalidateAll

def useAll (self : OverlayDb Db) (uses : List CacheUse) : OverlayDb Db := uses.foldl use self

lemma use_eq (db : Db) (overlay : OverlayCache) (u : CacheUse) :
    (⟨some db, overlay⟩ : OverlayDb Db).use u =
      ⟨some db, ReadThrough.apply (sourceEntry db) overlay u.event⟩ := by
  cases u with
  | query q =>
    cases q with
    | basicRef address => exact congrArg _ (readThrough_overlay _ _ _ _ rfl)
    | codeByHashRef codeHash => exact congrArg _ (readThrough_overlay _ _ _ _ rfl)
    | storageRef address slot => exact congrArg _ (readThrough_overlay _ _ _ _ rfl)
    | blockHashRef number => exact congrArg _ (readThrough_overlay _ _ _ _ rfl)
  | evict key => rfl
  | invalidateAll => rfl

lemma useAll_eq (db : Db) (overlay : OverlayCache) (uses : List CacheUse) :
    (⟨some db, overlay⟩ : OverlayDb Db).useAll uses =
      ⟨some db, ReadThrough.applyAll (sourceEntry db) overlay (uses.map CacheUse.event)⟩ := by
  induction uses generalizing overlay with
  | nil => rfl
  | cons u uses ih =>
    unfold useAll at ih ⊢
    rw [List.foldl_cons, use_eq, ih]
    rfl

end OverlayDb

namespace ActiveOverlay

variable {Db Err : Type} [DatabaseRef Db Err]

def query (self : ActiveOverlay Db) : Query → ActiveOverlay Db
  | .basicRef address => (self.basicRef address).2
  | .codeByHashRef codeHash => (self.codeByHashRef codeHash).2
  | .storageRef address slot => (self.storageRef address slot).2
  | .blockHashRef number => (self.blockHashRef number).2

def use (self : ActiveOverlay Db) : CacheUse → ActiveOverlay Db
  | .query q => self.query q
  | .evict key => { self with overlay := self.overlay.erase key }
  | .invalidateAll => { self with overlay := ∅ }

def useAll (self : ActiveOverlay Db) (uses : List CacheUse) : ActiveOverlay Db :=
  uses.foldl use self

lemma use_eq (db : Db) (overlay : OverlayCache) (u : CacheUse) :
    (⟨db, overlay⟩ : ActiveOverlay Db).use u =
      ⟨db, ReadThrough.apply (sourceEntry db) overlay u.event⟩ := by
  cases u with
  | query q =>
    cases q with
    | basicRef address => exact congrArg _ (readThrough_overlay _ _ _ _ rfl)
    | codeByHashRef codeHash => exact congrArg _ (readThrough_overlay _ _ _ _ rfl)
    | storageRef address slot => exact congrArg _ (readThrough_overlay _ _ _ _ rfl)
    | blockHashRef number => exact congrArg _ (readThrough_overlay _ _ _ _ rfl)
  | evict key => rfl
  | invalidateAll => rfl

lemma useAll_eq (db : Db) (overlay : OverlayCache) (uses : List CacheUse) :
    (⟨db, overlay⟩ : ActiveOverlay Db).useAll uses =
      ⟨db, ReadThrough.applyAll (sourceEntry db) overlay (uses.map CacheUse.event)⟩ := by
  induction uses generalizing overlay with
  | nil => rfl
  | cons u uses ih =>
    unfold useAll at ih ⊢
    rw [List.foldl_cons, use_eq, ih]
    rfl

end ActiveOverlay

/-! ### Transparency -/

section

variable {Db Err : Type} [DatabaseRef Db Err]

/-- The four read functions over a cache answer like the database, and the cache holds nothing
but answers of the database, each under a key of its own table. -/
structure Transparent (db : Db) (overlay : OverlayCache)
    (basic : Address → Except (Failure NotFoundError) (Option AccountInfo))
    (codeByHash : B256 → Except (Failure NotFoundError) Bytecode)
    (storage : Address → U256 → Except (Failure NotFoundError) U256)
    (blockHash : Nat → Except (Failure NotFoundError) B256) : Prop where
  basicRef : ∀ address, basic address = mapNotFound (DatabaseRef.basicRef db address)
  codeByHashRef : ∀ hash, codeByHash hash = mapNotFound (DatabaseRef.codeByHashRef db hash)
  storageRef : ∀ address slot,
    storage address slot = mapNotFound (DatabaseRef.storageRef db address slot)
  blockHashRef : ∀ number,
    blockHash number = mapNotFound (DatabaseRef.blockHashRef db number)
  cachedBasic : ∀ address value, overlay.lookup (.basic address) = some value →
    ∃ info, value = .basic info ∧ DatabaseRef.basicRef db address = .ok (some info)
  cachedCode : ∀ hash value, overlay.lookup (.codeByHash hash) = some value →
    ∃ code, value = .codeByHash code ∧ DatabaseRef.codeByHashRef db hash = .ok code
  cachedStorage : ∀ address slot value, overlay.lookup (.storage address slot) = some value →
    ∃ word, value = .storage word ∧
      DatabaseRef.storageRef db address slot = .ok (u256OfB256 word)
  cachedBlockHash : ∀ number value, overlay.lookup (.blockHash number) = some value →
    ∃ hash, value = .blockHash hash ∧ DatabaseRef.blockHashRef db number = .ok hash

lemma fetchBasic_entry {db : Db} {address : Address} {value : TableValue}
    (h : (fetchBasic db address).entry = some value) :
    ∃ info, value = .basic info ∧ DatabaseRef.basicRef db address = .ok (some info) := by
  unfold fetchBasic at h
  rcases hdb : DatabaseRef.basicRef db address with e | _ | info
  · rw [hdb] at h
    cases h
  · rw [hdb] at h
    cases h
  · rw [hdb] at h
    cases h
    exact ⟨info, rfl, rfl⟩

lemma fetchCodeByHash_entry {db : Db} {hash : B256} {value : TableValue}
    (h : (fetchCodeByHash db hash).entry = some value) :
    ∃ code, value = .codeByHash code ∧ DatabaseRef.codeByHashRef db hash = .ok code := by
  unfold fetchCodeByHash at h
  cases hdb : DatabaseRef.codeByHashRef db hash with
  | error e =>
    rw [hdb] at h
    cases h
  | ok code =>
    rw [hdb] at h
    cases h
    exact ⟨code, rfl, rfl⟩

lemma fetchStorage_entry {db : Db} {address : Address} {slot : U256} {value : TableValue}
    (h : (fetchStorage db address slot).entry = some value) :
    ∃ word, value = .storage word ∧
      DatabaseRef.storageRef db address slot = .ok (u256OfB256 word) := by
  unfold fetchStorage at h
  cases hdb : DatabaseRef.storageRef db address slot with
  | error e =>
    rw [hdb] at h
    cases h
  | ok stored =>
    rw [hdb] at h
    cases h
    exact ⟨_, rfl, by rw [u256OfB256_b256OfU256]⟩

lemma fetchBlockHash_entry {db : Db} {number : Nat} {value : TableValue}
    (h : (fetchBlockHash db number).entry = some value) :
    ∃ hash, value = .blockHash hash ∧ DatabaseRef.blockHashRef db number = .ok hash := by
  unfold fetchBlockHash at h
  cases hdb : DatabaseRef.blockHashRef db number with
  | error e =>
    rw [hdb] at h
    cases h
  | ok hash =>
    rw [hdb] at h
    cases h
    exact ⟨hash, rfl, rfl⟩

lemma transparent_of_entries (db : Db) (overlay : OverlayCache)
    (h : ∀ key value, overlay.lookup key = some value → sourceEntry db key = some value) :
    Transparent db overlay
      (fun address => (readThrough overlay (.basic address) (fun value => .ok value.asBasic)
        (fetchBasic db address)).1)
      (fun hash => (readThrough overlay (.codeByHash hash) (fun value => unwrap value.asCodeByHash)
        (fetchCodeByHash db hash)).1)
      (fun address slot => (readThrough overlay (.storage address slot)
        (fun value => (unwrap value.asStorage).map u256OfB256) (fetchStorage db address slot)).1)
      (fun number => (readThrough overlay (.blockHash number)
        (fun value => unwrap value.asBlockHash) (fetchBlockHash db number)).1) where
  basicRef address := by
    rw [← fetchBasic_fst]
    apply readThrough_answer (h (.basic address))
    intro value hvalue
    obtain ⟨info, rfl, hdb⟩ := fetchBasic_entry hvalue
    rw [fetchBasic_fst, hdb]
    rfl
  codeByHashRef hash := by
    rw [← fetchCodeByHash_fst]
    apply readThrough_answer (h (.codeByHash hash))
    intro value hvalue
    obtain ⟨code, rfl, hdb⟩ := fetchCodeByHash_entry hvalue
    rw [fetchCodeByHash_fst, hdb]
    rfl
  storageRef address slot := by
    rw [← fetchStorage_fst]
    apply readThrough_answer (h (.storage address slot))
    intro value hvalue
    obtain ⟨word, rfl, hdb⟩ := fetchStorage_entry hvalue
    rw [fetchStorage_fst, hdb]
    rfl
  blockHashRef number := by
    rw [← fetchBlockHash_fst]
    apply readThrough_answer (h (.blockHash number))
    intro value hvalue
    obtain ⟨hash, rfl, hdb⟩ := fetchBlockHash_entry hvalue
    rw [fetchBlockHash_fst, hdb]
    rfl
  cachedBasic address value hvalue := fetchBasic_entry (h _ _ hvalue)
  cachedCode hash value hvalue := fetchCodeByHash_entry (h _ _ hvalue)
  cachedStorage address slot value hvalue := fetchStorage_entry (h _ _ hvalue)
  cachedBlockHash number value hvalue := fetchBlockHash_entry (h _ _ hvalue)

def OverlayDb.ReadsLike (db : Db) (self : OverlayDb Db) : Prop :=
  Transparent db self.overlay (fun address => (self.basicRef address).1)
    (fun hash => (self.codeByHashRef hash).1)
    (fun address slot => (self.storageRef address slot).1)
    (fun number => (self.blockHashRef number).1)

def ActiveOverlay.ReadsLike (db : Db) (self : ActiveOverlay Db) : Prop :=
  Transparent db self.overlay (fun address => (self.basicRef address).1)
    (fun hash => (self.codeByHashRef hash).1)
    (fun address slot => (self.storageRef address slot).1)
    (fun number => (self.blockHashRef number).1)

/-- After any reads, evictions and invalidations that start from an empty cache, both overlays
answer every read like the database below, and cache nothing but its answers. -/
theorem overlay_reads_transparent (db : Db) (uses : List CacheUse) :
    ((OverlayDb.new (some db)).useAll uses).ReadsLike db ∧
      (((OverlayDb.new (none : Option Db)).createOverlay db).useAll uses).ReadsLike db := by
  have hentries : ∀ key value, (ReadThrough.applyAll (sourceEntry db) ∅
      (uses.map CacheUse.event)).lookup key = some value → sourceEntry db key = some value := by
    intro key value hvalue
    apply forall_applyAll (P := fun key value => sourceEntry db key = some value)
      (fun _ _ h => h) _ hvalue
    intro key value hmem
    obtain ⟨u, -, hu⟩ := List.mem_map.mp hmem
    cases u <;> cases hu
  have hactive : (OverlayDb.new (none : Option Db)).createOverlay db = ⟨db, ∅⟩ := rfl
  rw [OverlayDb.new, OverlayDb.useAll_eq, hactive, ActiveOverlay.useAll_eq]
  exact ⟨transparent_of_entries db _ hentries, transparent_of_entries db _ hentries⟩

end

end AssertionExecution
