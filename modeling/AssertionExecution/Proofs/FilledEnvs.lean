import AssertionExecution.Model.TxEnvelope

/-!
# Filled environments

One transaction environment is filled again and again. What it was filled with before leaves
nothing behind, and the transaction it was filled with last can be read back from it.
-/

namespace AssertionExecution

variable {Optimism : Type}

/-- An environment after it was filled with one transaction after the other. -/
def FullTxEnv.filledWith (env : FullTxEnv Optimism) (fills : List (TxEnvelope × Address)) :
    FullTxEnv Optimism :=
  fills.foldl (fun env fill => fillTxEnv fill.1 env fill.2) env

def FullTxEnv.transaction (env : FullTxEnv Optimism) : TxEnvelope :=
  let toAddress := match env.transactTo with
    | .create => 0
    | .call address => address
  match env.authorizationList, env.maxFeePerBlobGas, env.gasPriorityFee with
  | some (.signed authorizationList), _, priorityFee => .eip7702
    { chainId := env.chainId.getD 0
      nonce := env.nonce.getD 0
      gasLimit := env.gasLimit
      maxFeePerGas := env.gasPrice.setWidth 128
      maxPriorityFeePerGas := (priorityFee.getD 0).setWidth 128
      toAddress
      value := env.value
      accessList := env.accessList
      authorizationList
      input := env.data }
  | _, some maxFeePerBlobGas, priorityFee => .eip4844
    { chainId := env.chainId.getD 0
      nonce := env.nonce.getD 0
      gasLimit := env.gasLimit
      maxFeePerGas := env.gasPrice.setWidth 128
      maxPriorityFeePerGas := (priorityFee.getD 0).setWidth 128
      toAddress
      value := env.value
      accessList := env.accessList
      blobVersionedHashes := env.blobHashes
      maxFeePerBlobGas := maxFeePerBlobGas.setWidth 128
      input := env.data }
  | _, none, some priorityFee => .eip1559
    { chainId := env.chainId.getD 0
      nonce := env.nonce.getD 0
      gasLimit := env.gasLimit
      maxFeePerGas := env.gasPrice.setWidth 128
      maxPriorityFeePerGas := priorityFee.setWidth 128
      toKind := env.transactTo
      value := env.value
      accessList := env.accessList
      input := env.data }
  | _, none, none =>
    if env.accessList = [] then .legacy
      { chainId := env.chainId
        nonce := env.nonce.getD 0
        gasPrice := env.gasPrice.setWidth 128
        gasLimit := env.gasLimit
        toKind := env.transactTo
        value := env.value
        input := env.data }
    else .eip2930
      { chainId := env.chainId.getD 0
        nonce := env.nonce.getD 0
        gasPrice := env.gasPrice.setWidth 128
        gasLimit := env.gasLimit
        toKind := env.transactTo
        value := env.value
        accessList := env.accessList
        input := env.data }

/-- An access-list transaction without an access list counts as the legacy one. -/
def TxEnvelope.canonical : TxEnvelope → TxEnvelope
  | .eip2930 tx =>
    if tx.accessList = [] then .legacy
      { chainId := some tx.chainId
        nonce := tx.nonce
        gasPrice := tx.gasPrice
        gasLimit := tx.gasLimit
        toKind := tx.toKind
        value := tx.value
        input := tx.input }
    else .eip2930 tx
  | tx => tx

@[simp] lemma optimism_filledWith (env : FullTxEnv Optimism) (fills : List (TxEnvelope × Address)) :
    (env.filledWith fills).optimism = env.optimism := by
  rw [FullTxEnv.filledWith]
  induction fills using List.reverseRecOn with
  | nil => rfl
  | append_singleton fills fill ih => simp [ih]

lemma fillTxEnv_congr (tx : TxEnvelope) {env env' : FullTxEnv Optimism} (sender : Address)
    (h : env.optimism = env'.optimism) : fillTxEnv tx env sender = fillTxEnv tx env' sender := by
  cases tx <;> simp [fillTxEnv, h]

lemma fillTxEnv_canonical (tx : TxEnvelope) (env : FullTxEnv Optimism) (sender : Address) :
    fillTxEnv tx.canonical env sender = fillTxEnv tx env sender := by
  cases tx with
  | eip2930 tx =>
    by_cases h : tx.accessList = []
    · simp [TxEnvelope.canonical, fillTxEnv, h]
    · simp [TxEnvelope.canonical, h]
  | legacy tx => rfl
  | eip1559 tx => rfl
  | eip4844 tx => rfl
  | eip7702 tx => rfl

lemma transaction_fillTxEnv (tx : TxEnvelope) (env : FullTxEnv Optimism) (sender : Address) :
    (fillTxEnv tx env sender).transaction = tx.canonical := by
  cases tx with
  | legacy tx => simp [fillTxEnv, FullTxEnv.transaction, TxEnvelope.canonical]
  | eip2930 tx =>
    by_cases h : tx.accessList = []
    · simp [fillTxEnv, FullTxEnv.transaction, TxEnvelope.canonical, h]
    · simp [fillTxEnv, FullTxEnv.transaction, TxEnvelope.canonical, h]
  | eip1559 tx => simp [fillTxEnv, FullTxEnv.transaction, TxEnvelope.canonical]
  | eip4844 tx => simp [fillTxEnv, FullTxEnv.transaction, TxEnvelope.canonical]
  | eip7702 tx => simp [fillTxEnv, FullTxEnv.transaction, TxEnvelope.canonical]

/-- Two environments, whatever each was filled with before, are filled alike exactly when
their senders, the fields that are not filled and their transactions agree. -/
theorem filled_alike_iff (env env' : FullTxEnv Optimism)
    (earlier earlier' : List (TxEnvelope × Address)) (tx tx' : TxEnvelope)
    (sender sender' : Address) :
    fillTxEnv tx (env.filledWith earlier) sender =
        fillTxEnv tx' (env'.filledWith earlier') sender' ↔
      sender = sender' ∧ env.optimism = env'.optimism ∧ tx.canonical = tx'.canonical := by
  apply Iff.intro
  · intro h
    have hcaller := congrArg (fun env => env.caller) h
    have hoptimism := congrArg FullTxEnv.optimism h
    have htransaction := congrArg FullTxEnv.transaction h
    rw [transaction_fillTxEnv, transaction_fillTxEnv] at htransaction
    exact ⟨by simpa using hcaller, by simpa using hoptimism, htransaction⟩
  · intro ⟨hsender, hoptimism, hcanonical⟩
    rw [← fillTxEnv_canonical tx, hcanonical, fillTxEnv_canonical, hsender]
    apply fillTxEnv_congr
    simp [hoptimism]

end AssertionExecution
