import Mathlib.Logic.Function.Basic
import AssertionExecution.Model.PrecompileCalls

/-!
# Repriced storage instructions

Assertions run on an EVM whose storage instructions cost the same whatever they touch. The
interpreter, the host and the instructions themselves are those of the EVM below.
-/

namespace AssertionExecution

open Interpreter (Gas)

namespace Repricing

/-- Whether an interpreter goes on, and else why not. -/
inductive InstructionResult (Halt : Type) where
  | continues
  | outOfGas
  | halted (halt : Halt)

/-- The gas and the result of an interpreter, and the rest of it: its code, stack and memory. -/
structure Interpreter (State Halt : Type) where
  gas : Gas
  instructionResult : InstructionResult Halt
  state : State

abbrev Instruction (State Halt Host : Type) :=
  Interpreter State Halt → Host → Interpreter State Halt × Host

variable {State Halt Host : Type}

/-- `Gas::record_cost` -/
def recordCost (gas : Gas) (cost : Nat) : Option Gas :=
  if cost ≤ gas.remaining then some { gas with remaining := gas.remaining - cost } else none

/-- `reprice_gas!` -/
def repriceGas (operation : Instruction State Halt Host) (gas : Nat) :
    Instruction State Halt Host := fun interpreter host =>
  match recordCost interpreter.gas gas with
  | none => ({ interpreter with instructionResult := .outOfGas }, host)
  | some expected =>
    -- The operation runs on all the gas there can be, so its own costs are not enforced.
    let (interpreter, host) := operation { interpreter with gas := Gas.new u64Max } host
    ({ interpreter with gas := expected }, host)

def phSload (sload : Instruction State Halt Host) : Instruction State Halt Host :=
  repriceGas sload 100

def phSstore (sstore : Instruction State Halt Host) : Instruction State Halt Host :=
  repriceGas sstore 100

def sloadOpcode : Nat := 0x54

def sstoreOpcode : Nat := 0x55

/-- The instruction table of `new_phevm`. -/
def phInstructionTable (table : Nat → Instruction State Halt Host) :
    Nat → Instruction State Halt Host :=
  Function.update
    (Function.update table sloadOpcode (phSload (table sloadOpcode)))
    sstoreOpcode (phSstore (table sstoreOpcode))

def step (fetch : State → Nat × State) (table : Nat → Instruction State Halt Host)
    (interpreter : Interpreter State Halt) (host : Host) : Interpreter State Halt × Host :=
  table (fetch interpreter.state).1
    { interpreter with state := (fetch interpreter.state).2 } host

/-- The loop of the interpreter, with the opcodes it executes and what they are executed on. -/
inductive Runs (fetch : State → Nat × State) (table : Nat → Instruction State Halt Host) :
    Interpreter State Halt → Host → List (Nat × State × Host) → Interpreter State Halt → Host → Prop
  | done {interpreter : Interpreter State Halt} (host : Host)
      (h : interpreter.instructionResult ≠ .continues) :
      Runs fetch table interpreter host [] interpreter host
  | step {interpreter interpreter' : Interpreter State Halt} {host host' : Host}
      {trace : List (Nat × State × Host)} (h : interpreter.instructionResult = .continues)
      (hrest : Runs fetch table (step fetch table interpreter host).1
        (step fetch table interpreter host).2 trace interpreter' host') :
      Runs fetch table interpreter host
        (((fetch interpreter.state).1, (fetch interpreter.state).2, host) :: trace)
        interpreter' host'

end Repricing

end AssertionExecution
