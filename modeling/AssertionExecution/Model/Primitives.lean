import Mathlib.Data.BitVec
import AssertionExecution.Library.HashMap
import AssertionExecution.Library.Positional

/-!
# Primitive types

Addresses, words, accounts, journals and call records as the executor and its EVM
exchange them. Fixed-width byte strings are bit vectors, so the big-endian conversion
between a storage key and a 32-byte slot is the identity.
-/

namespace AssertionExecution

abbrev Address := BitVec 160
abbrev B256 := BitVec 256
abbrev U256 := BitVec 256

/-- A function selector, `FixedBytes<4>`. -/
abbrev Selector := BitVec 32

abbrev Bytes := List (BitVec 8)
abbrev Bytecode := Bytes

/-- Bit vectors in numeric order, which is the byte order of their big-endian encodings. -/
instance bitVecLinearOrder {n : Nat} : LinearOrder (BitVec n) where
  le_refl a := BitVec.le_refl a
  le_trans _ _ _ := BitVec.le_trans
  le_antisymm _ _ := BitVec.le_antisymm
  le_total a b := BitVec.le_total a b
  lt_iff_le_not_ge a b := by
    rw [BitVec.lt_def, BitVec.le_def, BitVec.le_def]
    omega
  toDecidableLE := inferInstance
  toDecidableLT := inferInstance
  toDecidableEq := inferInstance

/-- `address!("00000000000000000000000000000000000001A4")` -/
def callerAddress : Address := 0x00000000000000000000000000000000000001A4

/-- The address the caller deploys to at nonce 0. -/
def assertionContractAddress : Address := 0x63f9abbe8aa6ba1261ef3b0cbfb25a5ff8eeed10

/-- `address(uint160(uint256(keccak256("Kim Jong Un Sucks"))))` -/
def precompileAddress : Address := 0x4461812e00718ff8D80929E3bF595AEaaa7b881E

/-- `address(uint160(uint256(keccak256("TriggerRecorder"))))` -/
def triggerRecorderAddress : Address := 0x55BB9AD8Dc1EE06D47279fC2B23Cd755B7f2d326

/-- The hash of empty code. -/
def keccakEmpty : B256 :=
  0xc5d2460186f7233c927e7db2dcc703c0e500b653ca82273b7bfad8045d85a470

def u256Max : U256 := BitVec.allOnes 256

def u64Max : Nat := 2 ^ 64 - 1

/-! ### Accounts -/

structure AccountInfo where
  balance : U256
  nonce : Nat
  codeHash : B256
  code : Option Bytecode
deriving DecidableEq, Repr

/-- `AccountInfo::default()` -/
def AccountInfo.default : AccountInfo := ⟨0, 0, keccakEmpty, some []⟩

structure EvmStorageSlot where
  originalValue : U256
  presentValue : U256
  isCold : Bool
deriving DecidableEq, Repr

/-- `EvmStorageSlot::new` -/
def EvmStorageSlot.new (value : U256) : EvmStorageSlot := ⟨value, value, false⟩

structure AccountStatus where
  created : Bool := false
  selfDestructed : Bool := false
  touched : Bool := false
  loadedAsNotExisting : Bool := false
  cold : Bool := false
deriving DecidableEq, Repr

abbrev EvmStorage := HashMap U256 EvmStorageSlot

structure Account where
  info : AccountInfo
  storage : EvmStorage
  status : AccountStatus
deriving DecidableEq

abbrev EvmState := HashMap Address Account

namespace Account

def isTouched (a : Account) : Bool := a.status.touched

def isSelfdestructed (a : Account) : Bool := a.status.selfDestructed

def isCreated (a : Account) : Bool := a.status.created

/-- `Account::from(info)` -/
def ofInfo (info : AccountInfo) : Account := ⟨info, ∅, {}⟩

/-- `Account::newNotExisting()` -/
def newNotExisting : Account := ⟨.default, ∅, { loadedAsNotExisting := true }⟩

end Account

/-- An assertion contract as the extractor records it. -/
structure AssertionContract where
  /-- The hash of the deployment data. -/
  id : B256
  deployedCode : Bytecode
  codeHash : B256
  /-- The storage after deployment against an empty state. -/
  storage : EvmStorage
  /-- The account state after deployment against an empty state. -/
  accountStatus : AccountStatus
deriving DecidableEq

/-! ### Journals, calls and results -/

inductive JournalEntry where
  | accountWarmed (address : Address)
  | accountDestroyed (address target : Address) (wasDestroyed : Bool) (hadBalance : U256)
  | accountTouched (address : Address)
  | balanceTransfer (source target : Address) (balance : U256)
  | nonceChange (address : Address)
  | accountCreated (address : Address)
  | storageChanged (address : Address) (key hadValue : U256)
  | storageWarmed (address : Address) (key : U256)
  | transientStorageChange (address : Address) (key hadValue : U256)
  | codeChange (address : Address)
deriving DecidableEq, Repr

structure EvmLog where
  address : Address
  topics : List B256
  data : Bytes
deriving DecidableEq, Repr

structure JournaledState where
  state : EvmState
  transientStorage : HashMap (Address × U256) U256
  logs : List EvmLog
  depth : Nat
  journal : List (List JournalEntry)
  warmPreloadedAddresses : List Address

/-- `JournaledState::new` -/
def JournaledState.new (warmPreloadedAddresses : List Address) : JournaledState :=
  ⟨∅, ∅, [], 0, [[]], warmPreloadedAddresses⟩

structure CallInputs where
  input : Bytes
  gasLimit : Nat
  bytecodeAddress : Address
  targetAddress : Address
  caller : Address
  value : U256
deriving DecidableEq, Repr

inductive EvmExecutionResult where
  | success (gasUsed : Nat) (logs : List EvmLog) (output : Bytes)
  | revert (gasUsed : Nat) (output : Bytes)
  | halt (gasUsed : Nat)
deriving DecidableEq, Repr

namespace EvmExecutionResult

def isSuccess : EvmExecutionResult → Bool
  | success .. => true
  | _ => false

def gasUsed : EvmExecutionResult → Nat
  | success gas _ _ => gas
  | revert gas _ => gas
  | halt gas => gas

def logs : EvmExecutionResult → List EvmLog
  | success _ logs _ => logs
  | _ => []

end EvmExecutionResult

structure ResultAndState where
  result : EvmExecutionResult
  state : EvmState

structure BlockEnv where
  number : U256
  basefee : U256
deriving DecidableEq, Repr

inductive TxKind where
  | create
  | call (address : Address)
deriving DecidableEq, Repr

structure TxEnv where
  caller : Address
  gasLimit : Nat
  gasPrice : U256
  transactTo : TxKind
  value : U256
  data : Bytes
deriving DecidableEq, Repr

/-! ### Byte strings -/

/-- The last `n` big-endian bytes of a number. -/
def toBytes : Nat → Nat → Bytes
  | 0, _ => []
  | n + 1, k => toBytes n (k / 256) ++ [BitVec.ofNat 8 k]

/-- The number that big-endian bytes spell. -/
def ofBytes (bytes : Bytes) : Nat := bytes.foldl (fun n b => n * 256 + b.toNat) 0

@[simp] lemma length_toBytes (n k : Nat) : (toBytes n k).length = n := by
  induction n generalizing k with
  | zero => rfl
  | succ n ih => rw [toBytes, List.length_append, ih, List.length_singleton]

lemma ofBytes_eq_value (bytes : Bytes) :
    ofBytes bytes = Positional.value 256 BitVec.toNat bytes := rfl

lemma ofBytes_append_singleton (bytes : Bytes) (b : BitVec 8) :
    ofBytes (bytes ++ [b]) = ofBytes bytes * 256 + b.toNat :=
  Positional.value_append_singleton bytes b

lemma ofBytes_toBytes (n k : Nat) : ofBytes (toBytes n k) = k % 256 ^ n := by
  induction n generalizing k with
  | zero => rw [Nat.pow_zero, Nat.mod_one]; rfl
  | succ n ih =>
    have hlast : (BitVec.ofNat 8 k).toNat = k % 256 := BitVec.toNat_ofNat k 8
    rw [toBytes, ofBytes_append_singleton, hlast, ih, Nat.pow_succ', Nat.mod_mul]
    omega

lemma toBytes_ofBytes (bytes : Bytes) : toBytes bytes.length (ofBytes bytes) = bytes := by
  induction bytes using List.reverseRecOn with
  | nil => rfl
  | append_singleton bytes b ih =>
    have hb := b.isLt
    have hdiv : (ofBytes bytes * 256 + b.toNat) / 256 = ofBytes bytes := by omega
    have hlast : BitVec.ofNat 8 (ofBytes bytes * 256 + b.toNat) = b := by
      apply BitVec.eq_of_toNat_eq
      rw [BitVec.toNat_ofNat]
      omega
    rw [ofBytes_append_singleton, List.length_append, List.length_singleton, toBytes, hdiv, ih,
      hlast]

lemma ofBytes_lt (bytes : Bytes) : ofBytes bytes < 256 ^ bytes.length :=
  Positional.value_lt BitVec.isLt bytes

/-- The first four bytes, or zero for a shorter input. -/
def leadingSelector (input : Bytes) : Selector :=
  if 4 ≤ input.length then BitVec.ofNat 32 (ofBytes (input.take 4)) else 0

lemma leadingSelector_toBytes_append (selector : Selector) (rest : Bytes) :
    leadingSelector (toBytes 4 selector.toNat ++ rest) = selector := by
  have htake : (toBytes 4 selector.toNat ++ rest).take 4 = toBytes 4 selector.toNat :=
    List.take_left' (length_toBytes 4 _)
  unfold leadingSelector
  rw [if_pos (by simp), htake, ofBytes_toBytes]
  apply BitVec.eq_of_toNat_eq
  rw [BitVec.toNat_ofNat]
  have := selector.isLt
  omega

end AssertionExecution
