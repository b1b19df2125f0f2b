import AssertionExecution.Model.Primitives

/-!
# Fork databases

`ForkDb` layers mutations over an existing database.
-/

namespace AssertionExecution

class DatabaseRef (DB : Type) (Err : outParam Type) where
  basicRef : DB → Address → Except Err (Option AccountInfo)
  storageRef : DB → Address → U256 → Except Err U256
  codeByHashRef : DB → B256 → Except Err Bytecode
  blockHashRef : DB → Nat → Except Err B256

export DatabaseRef (basicRef storageRef codeByHashRef blockHashRef)

/-- Storage slots of an account, with a flag that hides the inner database. -/
structure ForkStorageMap where
  map : HashMap U256 U256
  dontReadFromInnerDb : Bool

/-- `ForkStorageMap::default()` -/
def ForkStorageMap.default : ForkStorageMap := ⟨∅, false⟩

structure ForkDb (ExtDb : Type) where
  storage : HashMap Address ForkStorageMap
  basic : HashMap Address AccountInfo
  codeByHash : HashMap B256 Bytecode
  innerDb : ExtDb

namespace ForkDb

variable {ExtDb Err : Type} [DatabaseRef ExtDb Err]

instance : DatabaseRef (ForkDb ExtDb) Err where
  basicRef db address :=
    match db.basic.lookup address with
    | some b => .ok (some b)
    | none => basicRef db.innerDb address
  storageRef db address slot :=
    match db.storage.lookup address with
    | some s =>
      -- A hidden inner database answers zero for the slots this layer does not hold.
      if s.dontReadFromInnerDb then .ok ((s.map.lookup slot).getD 0)
      else match s.map.lookup slot with
        | some v => .ok v
        | none => storageRef db.innerDb address slot
    | none => storageRef db.innerDb address slot
  codeByHashRef db hash :=
    match db.codeByHash.lookup hash with
    | some code => .ok code
    | none => codeByHashRef db.innerDb hash
  blockHashRef db number := blockHashRef db.innerDb number

omit [DatabaseRef ExtDb Err]

/-- The loop body of `ForkDb::commit`. -/
def commitAccount (db : ForkDb ExtDb) (address : Address) (account : Account) : ForkDb ExtDb :=
  if !account.isTouched then db
  else if account.isSelfdestructed then
    { db with
      basic := db.basic.insert address account.info
      storage := HashMap.modifyOrDefault db.storage address .default
        (fun _ => { map := ∅, dontReadFromInnerDb := true }) }
  else
    let slots := HashMap.mapValues EvmStorageSlot.presentValue account.storage
    { db with
      codeByHash := match account.info.code with
        | some code => db.codeByHash.insert account.info.codeHash code
        | none => db.codeByHash
      basic := db.basic.insert address account.info
      storage := match db.storage.lookup address with
        | some s => db.storage.insert address { s with map := HashMap.extend s.map slots }
        | none => db.storage.insert address ⟨slots, false⟩ }

def commit (it : Iteration) (db : ForkDb ExtDb) (changes : EvmState) : ForkDb ExtDb :=
  (HashMap.iter it changes).foldl (fun db e => db.commitAccount e.1 e.2) db

/-- `ForkDb::new` -/
def new (innerDb : ExtDb) : ForkDb ExtDb := ⟨∅, ∅, ∅, innerDb⟩

def replaceInnerDb (db : ForkDb ExtDb) (newDb : ExtDb) : ForkDb ExtDb × ExtDb :=
  ({ db with innerDb := newDb }, db.innerDb)

def insertAccountInfo (db : ForkDb ExtDb) (address : Address) (info : AccountInfo) :
    ForkDb ExtDb :=
  { db with basic := db.basic.insert address info }

/-- Hides an account's storage in the inner database:
`storage.entry(address).or_default().dont_read_from_inner_db = true`. -/
def hideInnerStorage (db : ForkDb ExtDb) (address : Address) : ForkDb ExtDb :=
  { db with
    storage := HashMap.modifyOrDefault db.storage address .default
      (fun s => { s with dontReadFromInnerDb := true }) }

end ForkDb

end AssertionExecution
