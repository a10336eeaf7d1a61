import ArielOS.Lib.Thumb

namespace ArielOS.CortexM

open Thumb WordMemory

inductive Variant
  | armv6m
  | armv7m
  | armv7mEabihf
  | armv8m
  | armv8mEabihf
  deriving DecidableEq, Repr

def Variant.eabihf : Variant → Bool
  | .armv7mEabihf | .armv8mEabihf => true
  | _ => false

def excReturnThreadNoFpu : Word := 0xFFFFFFFD

/-- The fields after `high_regs` exist with an FPU only. -/
structure ThreadData where
  sp : Word
  highRegs : Fin 8 → Word
  highRegsFloat : Fin 16 → Word
  excReturn : Word

def defaultThreadData : ThreadData where
  sp := 0
  highRegs := fun _ => 0
  highRegsFloat := fun _ => 0
  excReturn := excReturnThreadNoFpu

section Code

def r4ToR11 : List Reg := [.r4, .r5, .r6, .r7, .r8, .r9, .r10, .r11]

def s16ToS31 : List (Fin 32) := List.ofFn fun i : Fin 16 => i.natAdd 16

/-- `offset_of!(ThreadData, exc_return) - offset_of!(ThreadData, high_regs)`. -/
def excReturnOff : Word := 96

inductive Label
  | skip
  | fullContextSwitch
  | firstThreadStart
  | currentThreadContinues
  deriving DecidableEq

open Line Instr

def pendsvWithoutFpu : List (Line Label) :=
  [bl,
    instr (cmp .r0 0),
    beq .skip,
    instr (stmia .r0 false r4ToR11),
    instr (ldmia .r1 false r4ToR11),
    label .skip,
    instr (movw .lr 0xFFFD),
    instr (movt .lr 0xFFFF),
    bx .lr]

def pendsvWithFpu : List (Line Label) :=
  [instr (stmdb .sp [.r2, .lr]),
    bl,
    instr (ldmia .sp true [.r2, .lr]),
    instr (cmp .r0 0),
    bne .fullContextSwitch,
    instr (cmp .r1 0),
    beq .currentThreadContinues,
    label .firstThreadStart,
    instr (movw .lr 0xFFFD),
    instr (movt .lr 0xFFFF),
    bx .lr,
    label .currentThreadContinues,
    bx .lr,
    label .fullContextSwitch,
    instr (str .lr .r0 excReturnOff),
    instr (stmia .r0 true r4ToR11),
    instr (tst .lr 0x10),
    instr (vstmiaeq .r0 s16ToS31),
    instr (ldr .lr .r1 excReturnOff),
    instr (ldmia .r1 true r4ToR11),
    instr (tst .lr 0x10),
    instr (vldmiaeq .r1 s16ToS31),
    bx .lr]

def pendsvArmv6m : List (Line Label) :=
  [bl,
    instr (cmp .r0 0),
    beq .skip,
    instr (str .r4 .r0 16),
    instr (str .r5 .r0 20),
    instr (str .r6 .r0 24),
    instr (str .r7 .r0 28),
    instr (mov .r4 .r8),
    instr (mov .r5 .r9),
    instr (mov .r6 .r10),
    instr (mov .r7 .r11),
    instr (str .r4 .r0 0),
    instr (str .r5 .r0 4),
    instr (str .r6 .r0 8),
    instr (str .r7 .r0 12),
    instr (ldmia .r1 true [.r4, .r5, .r6, .r7]),
    instr (mov .r11 .r7),
    instr (mov .r10 .r6),
    instr (mov .r9 .r5),
    instr (mov .r8 .r4),
    instr (ldmia .r1 true [.r4, .r5, .r6, .r7]),
    label .skip,
    instr (ldrLiteral .r0 0xFFFFFFFD),
    instr (mov .lr .r0),
    bx .lr]

def pendsv : Variant → List (Line Label)
  | .armv6m => pendsvArmv6m
  | .armv7m | .armv8m => pendsvWithoutFpu
  | .armv7mEabihf | .armv8mEabihf => pendsvWithFpu

end Code

/-- What a context switch exchanges: the process stack pointer, r4 to r11, s16 to s31, and the
    EXC_RETURN value with which an exception of the thread is entered. -/
structure Registers where
  psp : Word
  high : Fin 8 → Word
  float : Fin 16 → Word
  excReturn : Word

/-- Bit 4 of EXC_RETURN is clear if the thread has an active floating-point context. -/
def fpActive (excReturn : Word) : Bool := excReturn &&& 0x10 == 0

/-- Where `high_regs` holds a register: the code for ARMv6-M stores r8 to r11 first. -/
def slot (v : Variant) (i : Fin 8) : Fin 8 :=
  match v with
  | .armv6m => i + 4
  | _ => i

theorem slot_slot (v : Variant) (i : Fin 8) : slot v (slot v i) = i := by
  cases v with
  | armv6m =>
    show i + 4 + 4 = i
    omega
  | armv7m | armv7mEabihf | armv8m | armv8mEabihf => rfl

namespace Registers

variable (v : Variant) (r : Registers) (d : ThreadData)

def savesFloat (excReturn : Word) : Bool := v.eabihf && fpActive excReturn

def save : ThreadData where
  sp := d.sp
  highRegs := fun i => r.high (slot v i)
  highRegsFloat := if savesFloat v r.excReturn then r.float else d.highRegsFloat
  excReturn := if v.eabihf then r.excReturn else d.excReturn

def restore : Registers where
  psp := r.psp
  high := fun i => d.highRegs (slot v i)
  float := if savesFloat v d.excReturn then d.highRegsFloat else r.float
  excReturn := if v.eabihf then d.excReturn else excReturnThreadNoFpu

def start : Registers := { r with excReturn := excReturnThreadNoFpu }

end Registers

/-- What `sched` returns in r0 and r1: two null pointers, a null pointer and the context of the next
    thread, or the contexts of the current and the next thread. -/
inductive Outcome
  | continues
  | starts (next : Nat)
  | switches (current next : Nat)
  deriving DecidableEq, Repr

namespace Outcome

def registers (v : Variant) (r : Registers) (data : Nat → ThreadData) : Outcome → Registers
  | continues => if v.eabihf then r else r.start
  | starts _ => r.start
  | switches _ next => r.restore v (data next)

def data (v : Variant) (r : Registers) (data : Nat → ThreadData) : Outcome → Nat → ThreadData
  | continues | starts _ => data
  | switches current _ => Function.update data current (r.save v (data current))

end Outcome

end ArielOS.CortexM
