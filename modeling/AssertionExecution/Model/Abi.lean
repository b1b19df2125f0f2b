import AssertionExecution.Model.Triggers

/-!
# The ABI of static arguments

Each static argument takes one word: `bytes4` is padded on the right, `address` on the
left. A decoding that validates encodes what it read again and compares.
-/

namespace AssertionExecution

structure AbiArgs (Args : Type) where
  length : Nat
  encode : Args → Bytes
  decode : Bytes → Args
  length_encode : ∀ args, (encode args).length = length
  decode_encode : ∀ args, decode (encode args) = args

namespace AbiArgs

lemma ofNat_ofBytes_toBytes {n m : Nat} (h : 2 ^ n = 256 ^ m) (x : BitVec n) :
    BitVec.ofNat n (ofBytes (toBytes m x.toNat)) = x := by
  rw [ofBytes_toBytes, ← h, Nat.mod_eq_of_lt x.isLt, BitVec.ofNat_toNat, BitVec.setWidth_eq]

def bytes4 : AbiArgs Selector where
  length := 32
  encode x := toBytes 4 x.toNat ++ List.replicate 28 0
  decode bytes := BitVec.ofNat 32 (ofBytes (bytes.take 4))
  length_encode x := by simp
  decode_encode x := by
    rw [List.take_left' (length_toBytes 4 _)]
    exact ofNat_ofBytes_toBytes (by decide) x

def bytes32 : AbiArgs B256 where
  length := 32
  encode x := toBytes 32 x.toNat
  decode bytes := BitVec.ofNat 256 (ofBytes bytes)
  length_encode x := by simp
  decode_encode x := ofNat_ofBytes_toBytes (by decide) x

def address : AbiArgs Address where
  length := 32
  encode x := List.replicate 12 0 ++ toBytes 20 x.toNat
  decode bytes := BitVec.ofNat 160 (ofBytes (bytes.drop 12))
  length_encode x := by simp
  decode_encode x := by
    rw [List.drop_left' List.length_replicate]
    exact ofNat_ofBytes_toBytes (by decide) x

variable {A B : Type}

def pair (a : AbiArgs A) (b : AbiArgs B) : AbiArgs (A × B) where
  length := a.length + b.length
  encode x := a.encode x.1 ++ b.encode x.2
  decode bytes := (a.decode (bytes.take a.length), b.decode (bytes.drop a.length))
  length_encode x := by rw [List.length_append, a.length_encode, b.length_encode]
  decode_encode x := by
    rw [List.take_left' (a.length_encode _), List.drop_left' (a.length_encode _),
      a.decode_encode, b.decode_encode]

end AbiArgs

def SolCall.ofArgs {Args : Type} (selector : Selector) (args : AbiArgs Args) : SolCall Args where
  selector := selector
  abiEncode x := toBytes 4 selector.toNat ++ args.encode x
  abiDecode input :=
    let x := args.decode (input.drop 4)
    if input = toBytes 4 selector.toNat ++ args.encode x then some x else none

theorem SolCall.ofArgs_lawful {Args : Type} (selector : Selector) (args : AbiArgs Args) :
    (SolCall.ofArgs selector args).Lawful where
  decode_iff input x := by
    have hread : args.decode ((toBytes 4 selector.toNat ++ args.encode x).drop 4) = x := by
      rw [List.drop_left' (length_toBytes 4 _), args.decode_encode]
    unfold SolCall.ofArgs
    dsimp only
    constructor
    · intro h
      rw [ite_eq_iff] at h
      rcases h with ⟨h, hx⟩ | ⟨-, hx⟩
      · rw [Option.some.inj hx] at h
        exact h
      · exact (Option.some_ne_none x hx.symm).elim
    · rintro rfl
      rw [hread, if_pos rfl]
  encode_selector x := leadingSelector_toBytes_append selector _

def ITriggerRecorder.solidity : ITriggerRecorder where
  registerCallTrigger_0 := .ofArgs 0xdfcd3e3c .bytes4
  registerCallTrigger_1 := .ofArgs 0x1096d171 (.pair .bytes4 .bytes4)
  registerStorageChangeTrigger_0 := .ofArgs 0x671f82f2 .bytes4
  registerStorageChangeTrigger_1 := .ofArgs 0x2cf24c8d (.pair .bytes4 .bytes32)
  registerBalanceChangeTrigger := .ofArgs 0x45a1b5c0 .bytes4

theorem ITriggerRecorder.solidity_lawful : ITriggerRecorder.solidity.Lawful where
  registerCallTrigger_0 := SolCall.ofArgs_lawful _ _
  registerCallTrigger_1 := SolCall.ofArgs_lawful _ _
  registerStorageChangeTrigger_0 := SolCall.ofArgs_lawful _ _
  registerStorageChangeTrigger_1 := SolCall.ofArgs_lawful _ _
  registerBalanceChangeTrigger := SolCall.ofArgs_lawful _ _
  selectors_nodup := by decide

end AssertionExecution
