import AssertionExecution.Model.JournaledState

/-!
# Checkpoints of a journaled state

A call frame takes a checkpoint when it is entered. It is committed or reverted when the
frame ends; a revert undoes the journal from the checkpoint on, the newest entry first.
-/

namespace AssertionExecution

structure JournalCheckpoint where
  logI : Nat
  journalI : Nat
deriving DecidableEq, Repr

/-- The RIPEMD-160 precompile, whose touch is never undone from Spurious Dragon on. -/
def precompile3 : Address := 3

namespace JournaledState

/-- Records where logs and journal end and opens a new list in the journal. -/
def checkpoint (js : JournaledState) : JournaledState × JournalCheckpoint :=
  ({ js with depth := js.depth + 1, journal := js.journal ++ [[]] },
    ⟨js.logs.length, js.journal.length⟩)

/-- Leaves a frame and keeps what it did. It fails where the depth would underflow. -/
def checkpointCommit (js : JournaledState) : Option JournaledState :=
  if js.depth = 0 then none else some { js with depth := js.depth - 1 }

/-- `state.get_mut(&address).unwrap()` -/
def modifyAccount (js : JournaledState) (address : Address) (f : Account → Account) :
    Option JournaledState :=
  (js.state.lookup address).map fun account => js.setAccount address (f account)

/-- `state.get_mut(&address).unwrap().storage.get_mut(&key).unwrap()` -/
def modifySlot (js : JournaledState) (address : Address) (key : U256)
    (f : EvmStorageSlot → EvmStorageSlot) : Option JournaledState :=
  match js.state.lookup address with
  | none => none
  | some account => (account.storage.lookup key).map fun slot =>
    js.setAccount address { account with storage := account.storage.insert key (f slot) }

/-- Undoes one journal entry, or fails where the account or slot it names is missing. -/
def undo (js : JournaledState) : JournalEntry → Option JournaledState
  | .accountWarmed address => js.modifyAccount address fun account =>
    { account with status := { account.status with cold := true } }
  | .accountTouched address =>
    if address = precompile3 then some js
    else js.modifyAccount address fun account =>
      { account with status := { account.status with touched := false } }
  | .accountDestroyed address target wasDestroyed hadBalance =>
    (js.modifyAccount address fun account =>
      { account with
        status := { account.status with selfDestructed := wasDestroyed }
        info := { account.info with balance := account.info.balance + hadBalance } }).bind
    fun js => if address = target then some js
      else js.modifyAccount target fun account =>
        { account with info := { account.info with balance := account.info.balance - hadBalance } }
  | .balanceTransfer source target balance =>
    (js.modifyAccount source fun account =>
      { account with info := { account.info with balance := account.info.balance + balance } }).bind
    fun js => js.modifyAccount target fun account =>
      { account with info := { account.info with balance := account.info.balance - balance } }
  | .nonceChange address => js.modifyAccount address fun account =>
    { account with info := { account.info with nonce := account.info.nonce - 1 } }
  | .accountCreated address => js.modifyAccount address fun account =>
    { account with
      status := { account.status with created := false }
      storage := account.storage.mapValues fun slot => { slot with isCold := true }
      info := { account.info with nonce := 0 } }
  | .storageWarmed address key => js.modifySlot address key fun slot => { slot with isCold := true }
  | .storageChanged address key hadValue =>
    js.modifySlot address key fun slot => { slot with presentValue := hadValue }
  | .transientStorageChange address key hadValue => some { js with
      transientStorage :=
        if hadValue = 0 then js.transientStorage.erase (address, key)
        else js.transientStorage.insert (address, key) hadValue }
  | .codeChange address => js.modifyAccount address fun account =>
    { account with info := { account.info with codeHash := keccakEmpty, code := none } }

def journalRevert (js : JournaledState) (entries : List JournalEntry) : Option JournaledState :=
  entries.reverse.foldlM undo js

/-- Undoes the lists of the journal that were opened since the checkpoint, the last one first,
and truncates logs and journal. It fails where a length or the depth would underflow. -/
def checkpointRevert (js : JournaledState) (checkpoint : JournalCheckpoint) :
    Option JournaledState :=
  if js.depth = 0 ∨ js.journal.length < checkpoint.journalI then none
  else
    ((js.journal.drop checkpoint.journalI).reverse.foldlM journalRevert js).map fun undone =>
      { undone with
        depth := js.depth - 1
        logs := js.logs.take checkpoint.logI
        journal := js.journal.take checkpoint.journalI }

end JournaledState

end AssertionExecution
