import AssertionExecution.Model.JournaledState

/-!
# Databases with a pre- and a post-transaction fork

The active fork's database sits under one `ForkDb` layer that survives every switch;
the other fork waits in `inactiveForks` with the journaled state it was left in.
-/

namespace AssertionExecution

/-- Journaled state of these accounts is persisted across forks. -/
def defaultPersistentAccounts : List Address :=
  [assertionContractAddress, callerAddress, precompileAddress]

/-- A fork of the database; its journaled state is `none` until it is initialized. -/
structure Fork (ExtDb : Type) where
  db : ExtDb
  journaledState : Option JournaledState

inductive ForkId where
  | preTx
  | postTx
deriving DecidableEq, Repr

structure MultiForkDb (ExtDb : Type) where
  activeDb : ForkDb ExtDb
  activeForkId : ForkId
  inactiveForks : HashMap ForkId (Fork ExtDb)

inductive ForkError where
  | forkNotFound (id : ForkId)
deriving DecidableEq, Repr

def mergeJournaledStateData (addr : Address) (active fork : JournaledState) : JournaledState :=
  match active.state.lookup addr with
  | none => fork
  | some acc =>
    match fork.state.lookup addr with
    | none => fork.setAccount addr acc
    | some forkAccount =>
      fork.setAccount addr
        { acc with storage := HashMap.extend forkAccount.storage acc.storage }

def padJournal (length : Nat) (journal : List (List JournalEntry)) : List (List JournalEntry) :=
  journal ++ List.replicate (length - journal.length) []

/-- Clones the given accounts from the active into the target state and hands the depth over. -/
def updateJournaledState (accounts : List Address) (active target : JournaledState) :
    JournaledState :=
  let merged := accounts.foldl (fun target addr => mergeJournaledStateData addr active target)
    target
  { merged with
    journal := padJournal active.journal.length merged.journal
    depth := active.depth }

namespace MultiForkDb

variable {ExtDb Err : Type} [DatabaseRef ExtDb Err]

instance : DatabaseRef (MultiForkDb ExtDb) Err where
  basicRef db := basicRef db.activeDb
  storageRef db := storageRef db.activeDb
  codeByHashRef db := codeByHashRef db.activeDb
  blockHashRef db := blockHashRef db.activeDb

omit [DatabaseRef ExtDb Err]

/-- Defaults to the post-tx state. -/
def new (preTxDb postTxDb : ExtDb) : MultiForkDb ExtDb :=
  { activeForkId := .postTx
    activeDb := .new postTxDb
    inactiveForks := AList.singleton .preTx ⟨preTxDb, none⟩ }

/-- Commits to the layer above the forks. -/
def commit (it : Iteration) (db : MultiForkDb ExtDb) (changes : EvmState) : MultiForkDb ExtDb :=
  { db with activeDb := db.activeDb.commit it changes }

def switchFork (db : MultiForkDb ExtDb) (forkId : ForkId) (active init : JournaledState) :
    Except ForkError (MultiForkDb ExtDb × JournaledState) :=
  if forkId = db.activeForkId then .ok (db, active)
  else match db.inactiveForks.lookup forkId with
    | none => .error (.forkNotFound forkId)
    | some targetFork =>
      let target := updateJournaledState defaultPersistentAccounts active
        (targetFork.journaledState.getD init)
      let (activeDb, prevForkDb) := db.activeDb.replaceInnerDb targetFork.db
      .ok ({ activeDb := activeDb
             activeForkId := forkId
             inactiveForks := (db.inactiveForks.erase forkId).insert db.activeForkId
               ⟨prevForkDb, some active⟩ }, target)

end MultiForkDb

end AssertionExecution
