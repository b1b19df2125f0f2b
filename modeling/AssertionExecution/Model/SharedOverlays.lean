import AssertionExecution.Library.SharedCache
import AssertionExecution.Proofs.OverlayCommits

/-!
# Overlays that share a cache

Clones of an `OverlayDb`, the `ActiveOverlay`s created from it and the forks of both share one
cache, and threads use them at the same time. Each access to the cache is a step of its own.
-/

namespace AssertionExecution

/-! ### Asking a database -/

/-- What one of the four read functions returns. -/
inductive Reply where
  | basic (info : Option AccountInfo)
  | codeByHash (code : Bytecode)
  | storage (value : U256)
  | blockHash (hash : B256)
deriving DecidableEq, Repr

def ask {Db Err : Type} [DatabaseRef Db Err] (db : Db) : Query → Except Err Reply
  | .basicRef address => (basicRef db address).map .basic
  | .codeByHashRef codeHash => (codeByHashRef db codeHash).map .codeByHash
  | .storageRef address slot => (storageRef db address slot).map .storage
  | .blockHashRef number => (blockHashRef db number).map .blockHash

section

variable {Db Err : Type} [DatabaseRef Db Err]

instance : DatabaseRef (OverlayDb Db) (Failure NotFoundError) where
  basicRef self address := (self.basicRef address).1
  storageRef self address slot := (self.storageRef address slot).1
  codeByHashRef self codeHash := (self.codeByHashRef codeHash).1
  blockHashRef self number := (self.blockHashRef number).1

instance : DatabaseRef (ActiveOverlay Db) (Failure NotFoundError) where
  basicRef self address := (self.basicRef address).1
  storageRef self address slot := (self.storageRef address slot).1
  codeByHashRef self codeHash := (self.codeByHashRef codeHash).1
  blockHashRef self number := (self.blockHashRef number).1

end

/-! ### Handles of the cache -/

/-- An overlay without the cache that it shares. -/
inductive Handle (Db ActiveDb : Type) where
  | overlayDb (underlyingDb : Option Db)
  | activeOverlay (activeDb : ActiveDb)

structure CachedHandle (Db ActiveDb : Type) where
  handle : Handle Db ActiveDb
  overlay : OverlayCache

section

variable {Db Err ActiveDb ActiveErr : Type} [DatabaseRef Db Err] [DatabaseRef ActiveDb ActiveErr]

instance : DatabaseRef (CachedHandle Db ActiveDb) (Failure NotFoundError) where
  basicRef self address :=
    match self.handle with
    | .overlayDb db => basicRef (OverlayDb.mk db self.overlay) address
    | .activeOverlay db => basicRef (ActiveOverlay.mk db self.overlay) address
  storageRef self address slot :=
    match self.handle with
    | .overlayDb db => storageRef (OverlayDb.mk db self.overlay) address slot
    | .activeOverlay db => storageRef (ActiveOverlay.mk db self.overlay) address slot
  codeByHashRef self codeHash :=
    match self.handle with
    | .overlayDb db => codeByHashRef (OverlayDb.mk db self.overlay) codeHash
    | .activeOverlay db => codeByHashRef (ActiveOverlay.mk db self.overlay) codeHash
  blockHashRef self number :=
    match self.handle with
    | .overlayDb db => blockHashRef (OverlayDb.mk db self.overlay) number
    | .activeOverlay db => blockHashRef (ActiveOverlay.mk db self.overlay) number

/-- What the database of a handle holds for a key. Without one there is nothing to cache. -/
def Handle.entry (self : Handle Db ActiveDb) (key : TableKey) : Option TableValue :=
  match self with
  | overlayDb none => none
  | overlayDb (some db) => sourceEntry db key
  | activeOverlay db => sourceEntry db key

end

/-- A fork that reads through the cache as it is. -/
def ForkDb.withCache {Db ActiveDb : Type} (self : ForkDb (Handle Db ActiveDb))
    (overlay : OverlayCache) : ForkDb (CachedHandle Db ActiveDb) :=
  ⟨self.storage, self.basic, self.codeByHash, self.innerDb, overlay⟩

/-- The fork answers the query without its inner database. -/
def ForkDb.AnswersAlone {Inner : Type} (self : ForkDb Inner) : Query → Prop
  | .basicRef address => (self.basic.lookup address).isSome
  | .codeByHashRef codeHash => (self.codeByHash.lookup codeHash).isSome
  | .storageRef address slot => ∃ s, self.storage.lookup address = some s ∧
      (s.dontReadFromInnerDb = true ∨ (s.map.lookup slot).isSome)
  | .blockHashRef _ => False

/-! ### Steps -/

/-- The shared cache, the overlays and forks, the reads that have missed, with the overlay that
they go through, and the inserts that each commit still has to make. -/
structure SharedOverlays (Db ActiveDb : Type) where
  overlay : OverlayCache
  handles : List (Handle Db ActiveDb)
  forks : List (ForkDb (Handle Db ActiveDb))
  fetching : List (Handle Db ActiveDb × TableKey)
  committing : List (List (TableKey × TableValue))

namespace SharedOverlays

variable {Db Err ActiveDb ActiveErr : Type} [DatabaseRef Db Err] [DatabaseRef ActiveDb ActiveErr]

def start (handles : List (Handle Db ActiveDb)) : SharedOverlays Db ActiveDb :=
  ⟨∅, handles, [], [], []⟩

/-- One step of one thread, with what it does to the cache. A read that hits changes nothing. -/
inductive Step (it : Iteration) : SharedOverlays Db ActiveDb →
    Option (SharedCache.Event (Handle Db ActiveDb) TableKey TableValue) →
    SharedOverlays Db ActiveDb → Prop
  /-- `self.overlay.get` finds nothing. -/
  | miss {w : SharedOverlays Db ActiveDb} {handle : Handle Db ActiveDb}
      (h : handle ∈ w.handles) (q : Query) (hmiss : w.overlay.lookup q.key = none) :
      Step it w (some (.miss handle q.key))
        { w with fetching := (handle, q.key) :: w.fetching }
  | forkMiss {w : SharedOverlays Db ActiveDb} {fork : ForkDb (Handle Db ActiveDb)}
      (h : fork ∈ w.forks) (q : Query) (hinner : ¬fork.AnswersAlone q)
      (hmiss : w.overlay.lookup q.key = none) :
      Step it w (some (.miss fork.innerDb q.key))
        { w with fetching := (fork.innerDb, q.key) :: w.fetching }
  /-- The database has answered, and `self.overlay.insert` caches what it holds. -/
  | put {w : SharedOverlays Db ActiveDb} {before after : List (Handle Db ActiveDb × TableKey)}
      (handle : Handle Db ActiveDb) (key : TableKey)
      (h : w.fetching = before ++ (handle, key) :: after) :
      Step it w (some (.put handle key))
        { w with
          overlay := SharedCache.put Handle.entry w.overlay handle key
          fetching := before ++ after }
  | commit {w : SharedOverlays Db ActiveDb} {handle : Handle Db ActiveDb}
      (h : handle ∈ w.handles) (changes : EvmState) :
      Step it w none { w with committing := commitWrites it changes :: w.committing }
  /-- A commit makes its next insert. -/
  | write {w : SharedOverlays Db ActiveDb} {before after : List (List (TableKey × TableValue))}
      {rest : List (TableKey × TableValue)} (key : TableKey) (value : TableValue)
      (h : w.committing = before ++ ((key, value) :: rest) :: after) :
      Step it w (some (.write key value))
        { w with
          overlay := w.overlay.insert key value
          committing := before ++ rest :: after }
  | evict {w : SharedOverlays Db ActiveDb} (key : TableKey) :
      Step it w (some (.drop key)) { w with overlay := w.overlay.erase key }
  | invalidateAll {w : SharedOverlays Db ActiveDb} :
      Step it w (some .clear) { w with overlay := ∅ }
  | clone {w : SharedOverlays Db ActiveDb} {handle : Handle Db ActiveDb} (h : handle ∈ w.handles) :
      Step it w none { w with handles := w.handles ++ [handle] }
  | createOverlay {w : SharedOverlays Db ActiveDb} {underlyingDb : Option Db}
      (h : .overlayDb underlyingDb ∈ w.handles) (activeDb : ActiveDb) :
      Step it w none { w with handles := w.handles ++ [.activeOverlay activeDb] }
  /-- The cache keeps what it has of the old database. -/
  | replaceUnderlying {w : SharedOverlays Db ActiveDb} {before after : List (Handle Db ActiveDb)}
      {underlyingDb : Option Db} (h : w.handles = before ++ .overlayDb underlyingDb :: after)
      (newDb : Option Db) :
      Step it w none { w with handles := before ++ .overlayDb newDb :: after }
  | fork {w : SharedOverlays Db ActiveDb} {handle : Handle Db ActiveDb} (h : handle ∈ w.handles) :
      Step it w none { w with forks := w.forks ++ [.new handle] }
  | forkClone {w : SharedOverlays Db ActiveDb} {fork : ForkDb (Handle Db ActiveDb)}
      (h : fork ∈ w.forks) : Step it w none { w with forks := w.forks ++ [fork] }
  | forkCommit {w : SharedOverlays Db ActiveDb} {before after : List (ForkDb (Handle Db ActiveDb))}
      {fork : ForkDb (Handle Db ActiveDb)} (h : w.forks = before ++ fork :: after)
      (changes : EvmState) :
      Step it w none { w with forks := before ++ fork.commit it changes :: after }

inductive Run (it : Iteration) : SharedOverlays Db ActiveDb →
    List (SharedCache.Event (Handle Db ActiveDb) TableKey TableValue) →
    SharedOverlays Db ActiveDb → Prop
  | refl (w : SharedOverlays Db ActiveDb) : Run it w [] w
  | step {w w' w'' : SharedOverlays Db ActiveDb}
      {events : List (SharedCache.Event (Handle Db ActiveDb) TableKey TableValue)}
      {e : Option (SharedCache.Event (Handle Db ActiveDb) TableKey TableValue)}
      (h : Run it w events w') (hstep : Step it w' e w'') : Run it w (events ++ e.toList) w''

end SharedOverlays

end AssertionExecution
