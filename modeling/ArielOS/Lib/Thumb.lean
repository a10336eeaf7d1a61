import Mathlib.Data.List.OfFn
import ArielOS.Lib.WordMemory

namespace Thumb

open WordMemory

inductive Reg
  | r0 | r1 | r2 | r3 | r4 | r5 | r6 | r7 | r8 | r9 | r10 | r11 | r12 | sp | lr
  deriving DecidableEq, Repr

/-- The core and floating-point registers, the zero flag and the word at each aligned address. -/
structure State where
  core : Reg → Word
  float : Fin 32 → Word
  zero : Bool
  memory : Word → Word

inductive Instr
  | mov (d m : Reg)
  | movw (d : Reg) (imm : BitVec 16)
  | movt (d : Reg) (imm : BitVec 16)
  | cmp (n : Reg) (imm : Word)
  | tst (n : Reg) (imm : Word)
  | str (t n : Reg) (offset : Word)
  | ldr (t n : Reg) (offset : Word)
  | ldrLiteral (t : Reg) (value : Word)
  | stmia (n : Reg) (writeback : Bool) (regs : List Reg)
  | ldmia (n : Reg) (writeback : Bool) (regs : List Reg)
  | stmdb (n : Reg) (regs : List Reg)
  | vstmiaeq (n : Reg) (regs : List (Fin 32))
  | vldmiaeq (n : Reg) (regs : List (Fin 32))

inductive Line (ℓ : Type)
  | instr (i : Instr)
  | label (l : ℓ)
  | beq (l : ℓ)
  | bne (l : ℓ)
  | bl
  | bx (m : Reg)

def State.setReg (σ : State) (d : Reg) (value : Word) : State :=
  { σ with core := Function.update σ.core d value }

def ifAligned (a : Word) (next : State) : Option State := if Aligned a then some next else none

namespace Instr

def run (σ : State) : Instr → Option State
  | mov d m => some (σ.setReg d (σ.core m))
  | movw d imm => some (σ.setReg d (imm.setWidth 32))
  | movt d imm => some (σ.setReg d (imm ++ (σ.core d).setWidth 16))
  | cmp n imm => some { σ with zero := σ.core n == imm }
  | tst n imm => some { σ with zero := σ.core n &&& imm == 0 }
  | str t n off =>
    let a := σ.core n + off
    ifAligned a { σ with memory := Function.update σ.memory a (σ.core t) }
  | ldr t n off => ifAligned (σ.core n + off) (σ.setReg t (σ.memory (σ.core n + off)))
  | ldrLiteral t value => some (σ.setReg t value)
  | stmia n writeback regs =>
    let a := σ.core n
    let τ := { σ with memory := storeWords σ.memory a (regs.map σ.core) }
    ifAligned a (if writeback then τ.setReg n (offset a regs.length) else τ)
  | ldmia n writeback regs =>
    let a := σ.core n
    let τ := if writeback then σ.setReg n (offset a regs.length) else σ
    ifAligned a { τ with core := loadWords σ.memory τ.core a regs }
  | stmdb n regs =>
    let a := σ.core n - BitVec.ofNat 32 (4 * regs.length)
    ifAligned a
      ({ σ with memory := storeWords σ.memory a (regs.map σ.core) }.setReg n a)
  | vstmiaeq n regs =>
    let a := σ.core n
    let τ := { σ with memory := storeWords σ.memory a (regs.map σ.float) }
    if σ.zero then ifAligned a (τ.setReg n (offset a regs.length)) else some σ
  | vldmiaeq n regs =>
    let a := σ.core n
    let τ := { σ with float := loadWords σ.memory σ.float a regs }
    if σ.zero then ifAligned a (τ.setReg n (offset a regs.length)) else some σ

end Instr

/-- Runs code up to its `bx`, with a function that `bl` calls. Branches lead forward; the result
    is where the code branches to at its end. -/
def run {ℓ : Type} [DecidableEq ℓ] (call : State → State) :
    List (Line ℓ) → Option ℓ → State → Option (Word × State)
  | [], _, _ => none
  | .label l :: code, some target, σ => run call code (if l = target then none else some target) σ
  | _ :: code, some target, σ => run call code (some target) σ
  | .label _ :: code, none, σ => run call code none σ
  | .instr i :: code, none, σ => (i.run σ).bind (run call code none)
  | .beq l :: code, none, σ => run call code (if σ.zero then some l else none) σ
  | .bne l :: code, none, σ => run call code (if σ.zero then none else some l) σ
  | .bl :: code, none, σ => run call code none (call σ)
  | .bx m :: _, none, σ => some (σ.core m, σ)

/-- Instructions without a branch. -/
def runBlock (σ : State) : List Instr → Option State
  | [] => some σ
  | i :: block => (i.run σ).bind fun τ => runBlock τ block

theorem run_block {ℓ : Type} [DecidableEq ℓ] (call : State → State) (block : List Instr)
    (code : List (Line ℓ)) (σ : State) :
    run call (block.map .instr ++ code) none σ = (runBlock σ block).bind (run call code none) := by
  induction block generalizing σ with
  | nil => rfl
  | cons i block ih =>
    show (i.run σ).bind _ = ((i.run σ).bind _).bind _
    rw [Option.bind_assoc]
    congr 1
    funext τ
    exact ih τ

/-- A branch passes them. -/
theorem run_passed {ℓ : Type} [DecidableEq ℓ] (call : State → State) (block : List Instr)
    (code : List (Line ℓ)) (target : ℓ) (σ : State) :
    run call (block.map .instr ++ code) (some target) σ = run call code (some target) σ := by
  induction block with
  | nil => rfl
  | cons i block ih => exact ih

end Thumb
