import AssertionExecution.Model.AssertionStore
import AssertionExecution.Model.ForkDb

/-!
# Overlay databases

A bounded cache of four tables in front of a database. `OverlayDb` may go without a
database, `ActiveOverlay` borrows one. Both read through the cache and commit to it alone.
-/

namespace AssertionExecution

inductive TableKey where
  | basic (address : Address)
  | codeByHash (hash : B256)
  | storage (address : Address) (slot : U256)
  | blockHash (number : Nat)
deriving DecidableEq, Repr

inductive TableValue where
  | basic (info : AccountInfo)
  | codeByHash (code : Bytecode)
  | storage (value : B256)
  | blockHash (hash : B256)
deriving DecidableEq, Repr

namespace TableValue

def asBasic : TableValue → Option AccountInfo
  | basic info => some info
  | _ => none

def asCodeByHash : TableValue → Option Bytecode
  | codeByHash code => some code
  | _ => none

def asStorage : TableValue → Option B256
  | storage value => some value
  | _ => none

def asBlockHash : TableValue → Option B256
  | blockHash hash => some hash
  | _ => none

end TableValue

/-- The error of an overlay, whatever the database below reports. -/
structure NotFoundError where
deriving DecidableEq, Repr

/-- `moka::sync::Cache<TableKey, TableValue>` -/
abbrev OverlayCache := HashMap TableKey TableValue

/-- `value.to_be_bytes().into()` -/
def b256OfU256 (value : U256) : B256 := BitVec.ofNat 256 (ofBytes (toBytes 32 value.toNat))

/-- `U256::from_be_bytes` of the 32 bytes. -/
def u256OfB256 (value : B256) : U256 := BitVec.ofNat 256 (ofBytes (toBytes 32 value.toNat))

/-- `Option::unwrap` -/
def unwrap {α : Type} : Option α → Except (Failure NotFoundError) α
  | some a => .ok a
  | none => .error .panicked

/-! ### Reading through the cache -/

/-- The answer of the database below, with the value that is cached for it. -/
abbrev Fetched (α : Type) := Except (Failure NotFoundError) (α × Option TableValue)

section

variable {Db Err : Type} [DatabaseRef Db Err]

/-- An absent account is not cached. -/
def fetchBasic (db : Db) (address : Address) : Fetched (Option AccountInfo) :=
  match DatabaseRef.basicRef db address with
  | .error _ => .error (.error ⟨⟩)
  | .ok (some info) => .ok (some info, some (.basic info))
  | .ok none => .ok (none, none)

def fetchCodeByHash (db : Db) (hash : B256) : Fetched Bytecode :=
  match DatabaseRef.codeByHashRef db hash with
  | .error _ => .error (.error ⟨⟩)
  | .ok code => .ok (code, some (.codeByHash code))

def fetchStorage (db : Db) (address : Address) (slot : U256) : Fetched U256 :=
  match DatabaseRef.storageRef db address slot with
  | .error _ => .error (.error ⟨⟩)
  | .ok value => .ok (value, some (.storage (b256OfU256 value)))

def fetchBlockHash (db : Db) (number : Nat) : Fetched B256 :=
  match DatabaseRef.blockHashRef db number with
  | .error _ => .error (.error ⟨⟩)
  | .ok hash => .ok (hash, some (.blockHash hash))

end

/-- Answers from the cache, or from the database and caches what it finds there. -/
def readThrough {α : Type} (overlay : OverlayCache) (key : TableKey)
    (cached : TableValue → Except (Failure NotFoundError) α) (fetched : Fetched α) :
    Except (Failure NotFoundError) α × OverlayCache :=
  match overlay.lookup key with
  | some value => (cached value, overlay)
  | none =>
    match fetched with
    | .error e => (.error e, overlay)
    | .ok (a, none) => (.ok a, overlay)
    | .ok (a, some value) => (.ok a, overlay.insert key value)

/-! ### Committing -/

/-- The loop body of both `commit`s. -/
def commitToOverlay (it : Iteration) (overlay : OverlayCache) (address : Address)
    (account : Account) : OverlayCache :=
  if !account.isTouched then overlay
  else
    let overlay := overlay.insert (.basic address) (.basic account.info)
    let overlay := match account.info.code with
      | some code => overlay.insert (.codeByHash account.info.codeHash) (.codeByHash code)
      | none => overlay
    (HashMap.iter it account.storage).foldl (fun overlay e =>
      overlay.insert (.storage address e.1) (.storage (b256OfU256 e.2.presentValue))) overlay

def commitAllToOverlay (it : Iteration) (overlay : OverlayCache) (changes : EvmState) :
    OverlayCache :=
  (HashMap.iter it changes).foldl (fun overlay e => commitToOverlay it overlay e.1 e.2) overlay

/-! ### The overlays -/

structure OverlayDb (Db : Type) where
  underlyingDb : Option Db
  overlay : OverlayCache

structure ActiveOverlay (Db : Type) where
  activeDb : Db
  overlay : OverlayCache

namespace OverlayDb

variable {Db Err : Type} [DatabaseRef Db Err]

/-- An overlay with an empty cache. The capacity bounds the cache by evictions alone. -/
def new (underlyingDb : Option Db) : OverlayDb Db := ⟨underlyingDb, ∅⟩

def invalidateAll (self : OverlayDb Db) : OverlayDb Db := { self with overlay := ∅ }

def createOverlay {ActiveDb : Type} (self : OverlayDb Db) (activeDb : ActiveDb) :
    ActiveOverlay ActiveDb :=
  ⟨activeDb, self.overlay⟩

def isCached (self : OverlayDb Db) (key : TableKey) : Bool := (self.overlay.lookup key).isSome

def read {α : Type} (self : OverlayDb Db) (key : TableKey)
    (cached : TableValue → Except (Failure NotFoundError) α) (fetch : Db → Fetched α)
    (absent : Fetched α) : Except (Failure NotFoundError) α × OverlayDb Db :=
  let (answer, overlay) := readThrough self.overlay key cached (match self.underlyingDb with
    | some db => fetch db
    | none => absent)
  (answer, { self with overlay := overlay })

def basicRef (self : OverlayDb Db) (address : Address) :
    Except (Failure NotFoundError) (Option AccountInfo) × OverlayDb Db :=
  self.read (.basic address) (fun value => .ok value.asBasic) (fetchBasic · address)
    (.ok (none, none))

def codeByHashRef (self : OverlayDb Db) (codeHash : B256) :
    Except (Failure NotFoundError) Bytecode × OverlayDb Db :=
  self.read (.codeByHash codeHash) (fun value => unwrap value.asCodeByHash)
    (fetchCodeByHash · codeHash) (.error (.error ⟨⟩))

def storageRef (self : OverlayDb Db) (address : Address) (slot : U256) :
    Except (Failure NotFoundError) U256 × OverlayDb Db :=
  self.read (.storage address slot) (fun value => (unwrap value.asStorage).map u256OfB256)
    (fetchStorage · address slot) (.ok (0, none))

def blockHashRef (self : OverlayDb Db) (number : Nat) :
    Except (Failure NotFoundError) B256 × OverlayDb Db :=
  self.read (.blockHash number) (fun value => unwrap value.asBlockHash) (fetchBlockHash · number)
    (.error (.error ⟨⟩))

def commit (it : Iteration) (self : OverlayDb Db) (changes : EvmState) : OverlayDb Db :=
  { self with overlay := commitAllToOverlay it self.overlay changes }

end OverlayDb

namespace ActiveOverlay

variable {Db Err : Type} [DatabaseRef Db Err]

def read {α : Type} (self : ActiveOverlay Db) (key : TableKey)
    (cached : TableValue → Except (Failure NotFoundError) α) (fetch : Db → Fetched α) :
    Except (Failure NotFoundError) α × ActiveOverlay Db :=
  let (answer, overlay) := readThrough self.overlay key cached (fetch self.activeDb)
  (answer, { self with overlay := overlay })

def basicRef (self : ActiveOverlay Db) (address : Address) :
    Except (Failure NotFoundError) (Option AccountInfo) × ActiveOverlay Db :=
  self.read (.basic address) (fun value => .ok value.asBasic) (fetchBasic · address)

def codeByHashRef (self : ActiveOverlay Db) (codeHash : B256) :
    Except (Failure NotFoundError) Bytecode × ActiveOverlay Db :=
  self.read (.codeByHash codeHash) (fun value => unwrap value.asCodeByHash)
    (fetchCodeByHash · codeHash)

def storageRef (self : ActiveOverlay Db) (address : Address) (slot : U256) :
    Except (Failure NotFoundError) U256 × ActiveOverlay Db :=
  self.read (.storage address slot) (fun value => (unwrap value.asStorage).map u256OfB256)
    (fetchStorage · address slot)

def blockHashRef (self : ActiveOverlay Db) (number : Nat) :
    Except (Failure NotFoundError) B256 × ActiveOverlay Db :=
  self.read (.blockHash number) (fun value => unwrap value.asBlockHash) (fetchBlockHash · number)

def commit (it : Iteration) (self : ActiveOverlay Db) (changes : EvmState) : ActiveOverlay Db :=
  { self with overlay := commitAllToOverlay it self.overlay changes }

end ActiveOverlay

end AssertionExecution
