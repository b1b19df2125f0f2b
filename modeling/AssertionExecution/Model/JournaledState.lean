import AssertionExecution.Model.ForkDb

/-!
# The journaled state of a running EVM

The operations of revm's `JournaledState` that an assertion performs on its active
fork. An account must be loaded before its storage or info is used.
-/

namespace AssertionExecution

/-- Why an operation on a journaled state does not complete. -/
inductive JournalError (Err : Type) where
  | database (e : Err)
  | accountNotLoaded
deriving DecidableEq

def pushLast (entry : JournalEntry) : List (List JournalEntry) → List (List JournalEntry)
  | [] => []
  | [l] => [l ++ [entry]]
  | l :: ls => l :: pushLast entry ls

namespace JournaledState

variable {DB E : Type} [DatabaseRef DB E]

def push (js : JournaledState) (entry : JournalEntry) : JournaledState :=
  { js with journal := pushLast entry js.journal }

def setAccount (js : JournaledState) (address : Address) (account : Account) : JournaledState :=
  { js with state := js.state.insert address account }

/-- Loads an account from the database unless it is tracked already. -/
def loadAccount (js : JournaledState) (db : DB) (address : Address) :
    Except (JournalError E) JournaledState :=
  match js.state.lookup address with
  | some account =>
    let warmed := js.setAccount address
      { account with status := { account.status with cold := false } }
    .ok (if account.status.cold then warmed.push (.accountWarmed address) else warmed)
  | none =>
    match basicRef db address with
    | .error e => .error (.database e)
    | .ok info =>
      let loaded := js.setAccount address (match info with
        | some info => .ofInfo info
        | none => .newNotExisting)
      .ok (if address ∈ js.warmPreloadedAddresses then loaded
        else loaded.push (.accountWarmed address))

/-- Reads a storage slot, tracking it from now on. -/
def sload (js : JournaledState) (db : DB) (address : Address) (key : U256) :
    Except (JournalError E) (U256 × JournaledState) :=
  match js.state.lookup address with
  | none => .error .accountNotLoaded
  | some account =>
    match account.storage.lookup key with
    | some slot =>
      let warmed := js.setAccount address
        { account with storage := account.storage.insert key { slot with isCold := false } }
      .ok (slot.presentValue,
        if slot.isCold then warmed.push (.storageWarmed address key) else warmed)
    | none =>
      -- The storage of an account created in this transaction is known to be empty.
      match if account.isCreated then .ok 0 else storageRef db address key with
      | .error e => .error (.database e)
      | .ok value =>
        .ok (value, (js.setAccount address
          { account with storage := account.storage.insert key (.new value) }).push
            (.storageWarmed address key))

def sstore (js : JournaledState) (db : DB) (address : Address) (key value : U256) :
    Except (JournalError E) JournaledState :=
  match js.sload db address key with
  | .error e => .error e
  | .ok (present, js) =>
    match js.state.lookup address with
    | none => .error .accountNotLoaded
    | some account =>
      match account.storage.lookup key with
      | none => .error .accountNotLoaded
      | some slot =>
        if present = value then .ok js
        else .ok ((js.push (.storageChanged address key present)).setAccount address
          { account with
            storage := account.storage.insert key { slot with presentValue := value } })

/-- Changes the balance and nonce of a loaded account and marks it touched. -/
def setBalanceNonce (js : JournaledState) (address : Address) (balance : U256) (nonce : Nat) :
    Except (JournalError E) JournaledState :=
  match js.state.lookup address with
  | none => .error .accountNotLoaded
  | some account => .ok (js.setAccount address
      { account with
        info := { account.info with balance := balance, nonce := nonce }
        status := { account.status with touched := true } })

end JournaledState

end AssertionExecution
