import AssertionExecution.Model.Primitives

/-!
# Transaction envelopes

The transactions of a network, one format after the other, and the filling of the
transaction environment of the EVM from one of them. The signature and the hash around a
transaction and the sidecar of a blob transaction are not read.
-/

namespace AssertionExecution

abbrev U128 := BitVec 128

structure AccessListItem where
  address : Address
  storageKeys : List B256
deriving DecidableEq, Repr

structure Authorization where
  chainId : U256
  address : Address
  nonce : Nat
deriving DecidableEq, Repr

structure SignedAuthorization where
  inner : Authorization
  yParity : BitVec 8
  r : U256
  s : U256
deriving DecidableEq, Repr

/-- A recovered authorization names its authority where the signature is valid. -/
inductive AuthorizationList where
  | signed (authorizations : List SignedAuthorization)
  | recovered (authorizations : List (Authorization × Option Address))
deriving DecidableEq, Repr

/-! ### The formats -/

structure TxLegacy where
  chainId : Option Nat
  nonce : Nat
  gasPrice : U128
  gasLimit : Nat
  toKind : TxKind
  value : U256
  input : Bytes
deriving DecidableEq, Repr

structure TxEip2930 where
  chainId : Nat
  nonce : Nat
  gasPrice : U128
  gasLimit : Nat
  toKind : TxKind
  value : U256
  accessList : List AccessListItem
  input : Bytes
deriving DecidableEq, Repr

structure TxEip1559 where
  chainId : Nat
  nonce : Nat
  gasLimit : Nat
  maxFeePerGas : U128
  maxPriorityFeePerGas : U128
  toKind : TxKind
  value : U256
  accessList : List AccessListItem
  input : Bytes
deriving DecidableEq, Repr

structure TxEip4844 where
  chainId : Nat
  nonce : Nat
  gasLimit : Nat
  maxFeePerGas : U128
  maxPriorityFeePerGas : U128
  toAddress : Address
  value : U256
  accessList : List AccessListItem
  blobVersionedHashes : List B256
  maxFeePerBlobGas : U128
  input : Bytes
deriving DecidableEq, Repr

structure TxEip7702 where
  chainId : Nat
  nonce : Nat
  gasLimit : Nat
  maxFeePerGas : U128
  maxPriorityFeePerGas : U128
  toAddress : Address
  value : U256
  accessList : List AccessListItem
  authorizationList : List SignedAuthorization
  input : Bytes
deriving DecidableEq, Repr

inductive TxEnvelope where
  | legacy (tx : TxLegacy)
  | eip2930 (tx : TxEip2930)
  | eip1559 (tx : TxEip1559)
  | eip4844 (tx : TxEip4844)
  | eip7702 (tx : TxEip7702)
deriving DecidableEq, Repr

/-! ### The environment -/

/-- The whole `TxEnv`. `Optimism` is the type of the fields it has on an Optimism chain. -/
structure FullTxEnv (Optimism : Type) extends TxEnv where
  nonce : Option Nat
  chainId : Option Nat
  accessList : List AccessListItem
  gasPriorityFee : Option U256
  blobHashes : List B256
  maxFeePerBlobGas : Option U256
  authorizationList : Option AuthorizationList
  optimism : Optimism
deriving DecidableEq, Repr

variable {Optimism : Type}

/-- `U256::from` of a `u128` -/
def u256OfU128 (n : U128) : U256 := n.setWidth 256

/-- The authorizations, each built again of its parts and pushed behind those before it. -/
def rebuildAuthorizations (authorizations : List SignedAuthorization) :
    List SignedAuthorization :=
  authorizations.foldl (fun authList item =>
    authList ++ [⟨item.inner, item.yParity, item.r, item.s⟩]) []

/-- `fill_tx_env` -/
def fillTxEnv (inputTx : TxEnvelope) (txEnv : FullTxEnv Optimism) (sender : Address) :
    FullTxEnv Optimism :=
  let txEnv := { txEnv with caller := sender }
  match inputTx with
  | .legacy tx =>
    { txEnv with
      gasLimit := tx.gasLimit
      gasPrice := u256OfU128 tx.gasPrice
      gasPriorityFee := none
      transactTo := tx.toKind
      value := tx.value
      data := tx.input
      chainId := tx.chainId
      nonce := some tx.nonce
      accessList := []
      blobHashes := []
      maxFeePerBlobGas := none
      authorizationList := none }
  | .eip2930 tx =>
    { txEnv with
      gasLimit := tx.gasLimit
      gasPrice := u256OfU128 tx.gasPrice
      gasPriorityFee := none
      transactTo := tx.toKind
      value := tx.value
      data := tx.input
      chainId := some tx.chainId
      nonce := some tx.nonce
      accessList := tx.accessList
      blobHashes := []
      maxFeePerBlobGas := none
      authorizationList := none }
  | .eip1559 tx =>
    { txEnv with
      gasLimit := tx.gasLimit
      gasPrice := u256OfU128 tx.maxFeePerGas
      gasPriorityFee := some (u256OfU128 tx.maxPriorityFeePerGas)
      transactTo := tx.toKind
      value := tx.value
      data := tx.input
      chainId := some tx.chainId
      nonce := some tx.nonce
      accessList := tx.accessList
      blobHashes := []
      maxFeePerBlobGas := none
      authorizationList := none }
  | .eip4844 tx =>
    { txEnv with
      gasLimit := tx.gasLimit
      gasPrice := u256OfU128 tx.maxFeePerGas
      gasPriorityFee := some (u256OfU128 tx.maxPriorityFeePerGas)
      transactTo := .call tx.toAddress
      value := tx.value
      data := tx.input
      chainId := some tx.chainId
      nonce := some tx.nonce
      accessList := tx.accessList
      blobHashes := tx.blobVersionedHashes
      maxFeePerBlobGas := some (u256OfU128 tx.maxFeePerBlobGas)
      authorizationList := none }
  | .eip7702 tx =>
    { txEnv with
      authorizationList := some (.signed (rebuildAuthorizations tx.authorizationList))
      gasLimit := tx.gasLimit
      gasPrice := u256OfU128 tx.maxFeePerGas
      gasPriorityFee := some (u256OfU128 tx.maxPriorityFeePerGas)
      transactTo := .call tx.toAddress
      value := tx.value
      data := tx.input
      chainId := some tx.chainId
      nonce := some tx.nonce
      accessList := tx.accessList
      blobHashes := []
      maxFeePerBlobGas := none }

@[simp] lemma rebuildAuthorizations_eq (authorizations : List SignedAuthorization) :
    rebuildAuthorizations authorizations = authorizations := by
  rw [rebuildAuthorizations]
  induction authorizations using List.reverseRecOn with
  | nil => rfl
  | append_singleton authorizations item ih => simp [ih]

@[simp] lemma setWidth_u256OfU128 (n : U128) : (u256OfU128 n).setWidth 128 = n := by
  simp [u256OfU128]

@[simp] lemma caller_fillTxEnv (tx : TxEnvelope) (env : FullTxEnv Optimism) (sender : Address) :
    (fillTxEnv tx env sender).caller = sender := by
  cases tx <;> rfl

@[simp] lemma optimism_fillTxEnv (tx : TxEnvelope) (env : FullTxEnv Optimism)
    (sender : Address) : (fillTxEnv tx env sender).optimism = env.optimism := by
  cases tx <;> rfl

end AssertionExecution
