import Mathlib.Algebra.BigOperators.Group.List.Basic
import AssertionExecution.Model.Repricing

/-!
# Runs with repriced storage

A run that pays for its storage instructions goes the same way when they are repriced. Only the
gas that is left differs, by what the storage instructions would have cost.
-/

namespace AssertionExecution

open Interpreter (Gas)

namespace Repricing

variable {State Halt Host : Type}

/-- What an instruction costs, refunds and does, and the gas that must be left for it. -/
structure Price (State Halt Host : Type) where
  floor : Nat
  cost : State → Host → Nat
  refund : State → Host → Int
  effect : State → Host → InstructionResult Halt × State × Host

def Price.pay (price : Price State Halt Host) (gas : Gas) (state : State) (host : Host) : Gas :=
  ⟨gas.limit, gas.remaining - price.cost state host, gas.refunded + price.refund state host⟩

def Price.outcome (price : Price State Halt Host) (gas : Gas) (state : State) (host : Host) :
    Interpreter State Halt × Host :=
  (⟨gas, (price.effect state host).1, (price.effect state host).2.1⟩,
    (price.effect state host).2.2)

/-- The instruction looks at the gas only to pay its price, and runs out of gas when it cannot. -/
structure Price.IsPriceOf (price : Price State Halt Host)
    (instruction : Instruction State Halt Host) : Prop where
  pays : ∀ gas result state host, price.floor ≤ gas.remaining →
    price.cost state host ≤ gas.remaining →
    instruction ⟨gas, result, state⟩ host = price.outcome (price.pay gas state host) state host
  fails : ∀ gas result state host,
    ¬(price.floor ≤ gas.remaining ∧ price.cost state host ≤ gas.remaining) →
    (instruction ⟨gas, result, state⟩ host).1.instructionResult = .outOfGas

def IsStorage (opcode : Nat) : Prop := opcode = sloadOpcode ∨ opcode = sstoreOpcode

instance (opcode : Nat) : Decidable (IsStorage opcode) := inferInstanceAs (Decidable (_ ∨ _))

lemma phInstructionTable_storage (table : Nat → Instruction State Halt Host) {opcode : Nat}
    (h : IsStorage opcode) :
    phInstructionTable table opcode = repriceGas (table opcode) 100 := by
  unfold phInstructionTable
  rcases h with rfl | rfl
  · rw [Function.update_of_ne (by decide), Function.update_self]
    rfl
  · rw [Function.update_self]
    rfl

lemma phInstructionTable_other (table : Nat → Instruction State Halt Host) {opcode : Nat}
    (h : ¬IsStorage opcode) : phInstructionTable table opcode = table opcode := by
  unfold phInstructionTable
  rw [Function.update_of_ne fun hsstore => h (.inr hsstore),
    Function.update_of_ne fun hsload => h (.inl hsload)]

/-- A repriced instruction has the same effect, for 100 gas and no refund. -/
lemma repriceGas_of_isPriceOf {price : Price State Halt Host}
    {instruction : Instruction State Halt Host} (h : price.IsPriceOf instruction) {gas : Gas}
    (result : InstructionResult Halt) {state : State} {host : Host}
    (hfloor : price.floor ≤ u64Max) (hcost : price.cost state host ≤ u64Max)
    (hgas : 100 ≤ gas.remaining) :
    repriceGas instruction 100 ⟨gas, result, state⟩ host =
      price.outcome ⟨gas.limit, gas.remaining - 100, gas.refunded⟩ state host := by
  unfold repriceGas recordCost
  dsimp only
  rw [if_pos hgas]
  dsimp only
  rw [h.pays (Gas.new u64Max) result state host hfloor hcost]
  rfl

/-! ### Whole runs -/

section

variable (prices : Nat → Price State Halt Host)

/-- What the storage instructions of a run cost without the repricing. -/
def storageCost (trace : List (Nat × State × Host)) : Nat :=
  ((trace.filter fun e => IsStorage e.1).map fun e => (prices e.1).cost e.2.1 e.2.2).sum

def storageCount (trace : List (Nat × State × Host)) : Nat :=
  trace.countP fun e => IsStorage e.1

def otherRefunds (trace : List (Nat × State × Host)) : Int :=
  ((trace.filter fun e => ¬IsStorage e.1).map fun e => (prices e.1).refund e.2.1 e.2.2).sum

variable {prices} {fetch : State → Nat × State} {table : Nat → Instruction State Halt Host}

section Trace

variable {opcode : Nat} {state : State} {host : Host} {trace : List (Nat × State × Host)}

lemma storageCount_storage (h : IsStorage opcode) :
    storageCount ((opcode, state, host) :: trace) = storageCount trace + 1 := by
  simp [storageCount, h]

lemma storageCount_other (h : ¬IsStorage opcode) :
    storageCount ((opcode, state, host) :: trace) = storageCount trace := by
  simp [storageCount, h]

lemma storageCost_storage (h : IsStorage opcode) :
    storageCost prices ((opcode, state, host) :: trace) =
      (prices opcode).cost state host + storageCost prices trace := by
  simp [storageCost, h]

lemma storageCost_other (h : ¬IsStorage opcode) :
    storageCost prices ((opcode, state, host) :: trace) = storageCost prices trace := by
  simp [storageCost, h]

lemma otherRefunds_storage (h : IsStorage opcode) :
    otherRefunds prices ((opcode, state, host) :: trace) = otherRefunds prices trace := by
  simp [otherRefunds, h]

lemma otherRefunds_other (h : ¬IsStorage opcode) :
    otherRefunds prices ((opcode, state, host) :: trace) =
      (prices opcode).refund state host + otherRefunds prices trace := by
  simp [otherRefunds, h]

end Trace

lemma Runs.of_outOfGas {interpreter interpreter' : Interpreter State Halt} {host host' : Host}
    {trace : List (Nat × State × Host)}
    (h : Runs fetch table interpreter host trace interpreter' host')
    (hresult : interpreter.instructionResult = .outOfGas) :
    interpreter'.instructionResult = .outOfGas := by
  cases h with
  | done => exact hresult
  | step hcontinues =>
    rw [hresult] at hcontinues
    cases hcontinues

/-- A run that does not run out of gas executes the same instructions on the same states when
storage is repriced and at least as much gas is left, and ends in the same state. The storage
instructions take 100 gas each and refund nothing. -/
theorem repriced_run {interpreter interpreter' : Interpreter State Halt} {host host' : Host}
    {trace : List (Nat × State × Host)}
    (hrun : Runs fetch table interpreter host trace interpreter' host')
    (hend : interpreter'.instructionResult ≠ .outOfGas)
    (hprices : ∀ e ∈ trace, (prices e.1).IsPriceOf (table e.1))
    (hstorage : ∀ e ∈ trace, IsStorage e.1 → (prices e.1).floor ≤ u64Max ∧
      100 ≤ (prices e.1).cost e.2.1 e.2.2 ∧ (prices e.1).cost e.2.1 e.2.2 ≤ u64Max)
    {gas : Gas} (hgas : interpreter.gas.remaining ≤ gas.remaining) :
    ∃ gas', Runs fetch (phInstructionTable table) { interpreter with gas := gas } host trace
        { interpreter' with gas := gas' } host' ∧
      gas'.limit = gas.limit ∧ gas'.refunded = gas.refunded + otherRefunds prices trace ∧
      gas'.remaining + interpreter.gas.remaining + 100 * storageCount trace =
        gas.remaining + interpreter'.gas.remaining + storageCost prices trace := by
  induction hrun generalizing gas with
  | done host h =>
    refine ⟨gas, .done host h, rfl, ?_, rfl⟩
    exact (add_zero _).symm
  | @step interpreter interpreter' host host' trace hcontinues hrest ih =>
    let opcode := (fetch interpreter.state).1
    let state := (fetch interpreter.state).2
    have hprice : (prices opcode).IsPriceOf (table opcode) := hprices _ List.mem_cons_self
    have hpaid : (prices opcode).floor ≤ interpreter.gas.remaining ∧
        (prices opcode).cost state host ≤ interpreter.gas.remaining := by
      by_contra hpoor
      exact hend (hrest.of_outOfGas
        (hprice.fails interpreter.gas interpreter.instructionResult state host hpoor))
    have hstep : step fetch table interpreter host = (prices opcode).outcome
        ((prices opcode).pay interpreter.gas state host) state host :=
      hprice.pays interpreter.gas interpreter.instructionResult state host hpaid.1 hpaid.2
    rw [hstep] at hrest ih
    have hih := fun gas => @ih hend (fun e he => hprices e (List.mem_cons_of_mem _ he))
      (fun e he => hstorage e (List.mem_cons_of_mem _ he)) gas
    have hlimits : IsStorage opcode → (prices opcode).floor ≤ u64Max ∧
        100 ≤ (prices opcode).cost state host ∧ (prices opcode).cost state host ≤ u64Max :=
      hstorage _ List.mem_cons_self
    by_cases hop : IsStorage opcode
    · -- A storage instruction takes 100 gas instead of its cost.
      obtain ⟨hfloor, hmin, hmax⟩ := hlimits hop
      have hrich : 100 ≤ gas.remaining := by omega
      have hrepriced : step fetch (phInstructionTable table) { interpreter with gas := gas } host =
          (prices opcode).outcome ⟨gas.limit, gas.remaining - 100, gas.refunded⟩ state host := by
        unfold step
        rw [phInstructionTable_storage table hop]
        exact repriceGas_of_isPriceOf hprice _ hfloor hmax hrich
      have hless : interpreter.gas.remaining - (prices opcode).cost state host ≤
          gas.remaining - 100 := by omega
      obtain ⟨gas', hruns, hlimit, hrefunded, hremaining⟩ :=
        hih ⟨gas.limit, gas.remaining - 100, gas.refunded⟩ hless
      refine ⟨gas', .step hcontinues (hrepriced ▸ hruns), hlimit, ?_, ?_⟩
      · rw [otherRefunds_storage hop]
        exact hrefunded
      · have hcharged : storageCost prices ((opcode, state, host) :: trace) =
            (prices opcode).cost state host + storageCost prices trace := storageCost_storage hop
        have hcount : storageCount ((opcode, state, host) :: trace) = storageCount trace + 1 :=
          storageCount_storage hop
        rw [hcount, hcharged]
        change gas'.remaining + (interpreter.gas.remaining - (prices opcode).cost state host) +
          100 * storageCount trace = gas.remaining - 100 + interpreter'.gas.remaining +
            storageCost prices trace at hremaining
        omega
    · have hsame : step fetch (phInstructionTable table) { interpreter with gas := gas } host =
          (prices opcode).outcome ((prices opcode).pay gas state host) state host := by
        unfold step
        rw [phInstructionTable_other table hop]
        exact hprice.pays gas interpreter.instructionResult state host (hpaid.1.trans hgas)
          (hpaid.2.trans hgas)
      have hless : interpreter.gas.remaining - (prices opcode).cost state host ≤
          gas.remaining - (prices opcode).cost state host := Nat.sub_le_sub_right hgas _
      obtain ⟨gas', hruns, hlimit, hrefunded, hremaining⟩ :=
        hih ((prices opcode).pay gas state host) hless
      refine ⟨gas', .step hcontinues (hsame ▸ hruns), hlimit, ?_, ?_⟩
      · rw [otherRefunds_other hop, ← add_assoc]
        exact hrefunded
      · rw [storageCount_other hop, storageCost_other hop]
        change gas'.remaining + (interpreter.gas.remaining - (prices opcode).cost state host) +
          100 * storageCount trace = gas.remaining - (prices opcode).cost state host +
            interpreter'.gas.remaining + storageCost prices trace at hremaining
        have hcost := hpaid.2.trans hgas
        omega

end

def Price.instruction (price : Price State Halt Host) : Instruction State Halt Host :=
  fun interpreter host =>
    if price.floor ≤ interpreter.gas.remaining ∧
        price.cost interpreter.state host ≤ interpreter.gas.remaining then
      price.outcome (price.pay interpreter.gas interpreter.state host) interpreter.state host
    else ({ interpreter with instructionResult := .outOfGas }, host)

lemma Price.isPriceOf_instruction (price : Price State Halt Host) :
    price.IsPriceOf price.instruction where
  pays gas result state host hfloor hcost := if_pos ⟨hfloor, hcost⟩
  fails gas result state host h := by
    unfold instruction
    rw [if_neg h]

/-- A load is cold at first. Opcode 0 stops. -/
def loadPrices (opcode : Nat) : Price (List Nat) Unit Nat where
  floor := 0
  cost _ loads := if opcode = sloadOpcode then (if loads = 0 then 2100 else 100) else 0
  refund _ _ := 0
  effect code loads :=
    if opcode = sloadOpcode then (.continues, code, loads + 1) else (.halted (), code, loads)

def nextOpcode : List Nat → Nat × List Nat
  | [] => (0, [])
  | opcode :: code => (opcode, code)

/-- Two loads of a slot leave 2000 gas of what they cost without the repricing. -/
theorem repriced_run_loads :
    ∃ gas' : Gas, gas'.remaining = 2000 ∧
      Runs nextOpcode (phInstructionTable fun opcode => (loadPrices opcode).instruction)
        ⟨.new 2200, .continues, [sloadOpcode, sloadOpcode]⟩ 0
        [(sloadOpcode, [sloadOpcode], 0), (sloadOpcode, [], 1), (0, [], 2)]
        ⟨gas', .halted (), []⟩ 2 := by
  let table := fun opcode => (loadPrices opcode).instruction
  have hrun : Runs nextOpcode table ⟨.new 2200, .continues, [sloadOpcode, sloadOpcode]⟩ 0
      [(sloadOpcode, [sloadOpcode], 0), (sloadOpcode, [], 1), (0, [], 2)]
      ⟨⟨2200, 0, 0⟩, .halted (), []⟩ 2 :=
    .step rfl (.step rfl (.step rfl (.done 2 nofun)))
  have hstorage : ∀ e ∈ [(sloadOpcode, [sloadOpcode], 0), (sloadOpcode, [], 1), (0, [], 2)],
      IsStorage e.1 → (loadPrices e.1).floor ≤ u64Max ∧
        100 ≤ (loadPrices e.1).cost e.2.1 e.2.2 ∧ (loadPrices e.1).cost e.2.1 e.2.2 ≤ u64Max := by
    decide
  have hgas : (Gas.new 2200).remaining ≤ (Gas.new 2200).remaining := Nat.le_refl 2200
  obtain ⟨gas', hruns, -, -, hremaining⟩ := repriced_run hrun nofun
    (fun e _ => (loadPrices e.1).isPriceOf_instruction) hstorage hgas
  refine ⟨gas', ?_, hruns⟩
  have hcharged : gas'.remaining + 2200 + 100 * 2 = 2200 + 0 + 2200 := hremaining
  omega

end Repricing

end AssertionExecution
