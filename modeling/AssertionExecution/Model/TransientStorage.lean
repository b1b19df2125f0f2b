import AssertionExecution.Model.JournaledState

/-!
# Transient storage

The transient storage of a journaled state. It lasts for one transaction and has no entry for
a zero.
-/

namespace AssertionExecution

namespace JournaledState

def tload (js : JournaledState) (address : Address) (key : U256) : U256 :=
  (js.transientStorage.lookup (address, key)).getD 0

/-- Writes a transient slot, and journals the value it had if that changes. -/
def tstore (js : JournaledState) (address : Address) (key value : U256) : JournaledState :=
  let hadValue :=
    if value = 0 then js.transientStorage.lookup (address, key)
    else
      let previousValue := (js.transientStorage.lookup (address, key)).getD 0
      if previousValue ≠ value then some previousValue else none
  let stored := { js with
    transientStorage :=
      if value = 0 then js.transientStorage.erase (address, key)
      else js.transientStorage.insert (address, key) value }
  match hadValue with
  | some hadValue => stored.push (.transientStorageChange address key hadValue)
  | none => stored

end JournaledState

end AssertionExecution
