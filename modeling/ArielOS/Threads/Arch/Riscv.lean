import ArielOS.Lib.Rv32
import ArielOS.Threads.Config

namespace ArielOS.Riscv

open Rv32 WordMemory

structure ThreadData where
  core : Reg → Word
  mstatus : Word
  mepc : Word

/-- The word of `ThreadData` that holds a register. -/
def index : Reg → Nat
  | .ra => 0 | .sp => 1 | .gp => 2 | .tp => 3 | .t0 => 4 | .t1 => 5 | .t2 => 6 | .s0 => 7 | .s1 => 8
  | .a0 => 9 | .a1 => 10 | .a2 => 11 | .a3 => 12 | .a4 => 13 | .a5 => 14 | .a6 => 15 | .a7 => 16
  | .s2 => 17 | .s3 => 18 | .s4 => 19 | .s5 => 20 | .s6 => 21 | .s7 => 22 | .s8 => 23 | .s9 => 24
  | .s10 => 25 | .s11 => 26 | .t3 => 27 | .t4 => 28 | .t5 => 29 | .t6 => 30

def defaultTrapFrame : ThreadData where
  core := fun _ => 0
  mstatus := 0x80
  mepc := 0

/-- `setup_stack`, without the stack's bounds and its painting. -/
def setupStack (data : ThreadData) (stackStart stackLen : Word) (cleanup func : Word)
    (arg : Option Word) : ThreadData :=
  let stackPos := (stackStart + stackLen) &&& 0xFFFFFFE0
  { data with
    core := Function.update (Function.update (Function.update data.core .sp stackPos)
      .a0 (arg.getD 0)) .ra cleanup
    mepc := func }

section Code

inductive Symbol
  | currentCtxPtr
  | nextCtxPtr
  deriving DecidableEq

inductive Label
  | restore
  deriving DecidableEq

open Line Instr

def sysSwitch : List (Line Label Symbol) :=
  [instr (addi .sp .sp (-0x10)),
    instr (sw .a0 0 .sp),
    instr (sw .a1 4 .sp),
    instr (sw .t0 8 .sp),
    instr (la .a0 .currentCtxPtr),
    instr (lw .a0 0 .a0),
    beqz .a0 .restore,
    instr (sw .ra (0*4) .a0),
    instr (sw .gp (2*4) .a0),
    instr (sw .tp (3*4) .a0),
    instr (lw .t0 8 .sp),
    instr (sw .t0 (4*4) .a0),
    instr (sw .t1 (5*4) .a0),
    instr (sw .t2 (6*4) .a0),
    instr (sw .s0 (7*4) .a0),
    instr (sw .s1 (8*4) .a0),
    instr (lw .t0 0 .sp),
    instr (sw .t0 (9*4) .a0),
    instr (lw .t0 4 .sp),
    instr (sw .t0 (10*4) .a0),
    instr (sw .a2 (11*4) .a0),
    instr (sw .a3 (12*4) .a0),
    instr (sw .a4 (13*4) .a0),
    instr (sw .a5 (14*4) .a0),
    instr (sw .a6 (15*4) .a0),
    instr (sw .a7 (16*4) .a0),
    instr (sw .s2 (17*4) .a0),
    instr (sw .s3 (18*4) .a0),
    instr (sw .s4 (19*4) .a0),
    instr (sw .s5 (20*4) .a0),
    instr (sw .s6 (21*4) .a0),
    instr (sw .s7 (22*4) .a0),
    instr (sw .s8 (23*4) .a0),
    instr (sw .s9 (24*4) .a0),
    instr (sw .s10 (25*4) .a0),
    instr (sw .s11 (26*4) .a0),
    instr (sw .t3 (27*4) .a0),
    instr (sw .t4 (28*4) .a0),
    instr (sw .t5 (29*4) .a0),
    instr (sw .t6 (30*4) .a0),
    instr (addi .t0 .sp 0x10),
    instr (sw .t0 (1*4) .a0),
    label .restore,
    instr (la .a1 .nextCtxPtr),
    instr (lw .a1 0 .a1),
    instr (lw .t0 (31*4) .a1),
    instr (csrw .mstatus .t0),
    instr (lw .t0 (32*4) .a1),
    instr (csrw .mepc .t0),
    instr (lw .ra (0*4) .a1),
    instr (lw .sp (1*4) .a1),
    instr (lw .gp (2*4) .a1),
    instr (lw .tp (3*4) .a1),
    instr (lw .t0 (4*4) .a1),
    instr (lw .t1 (5*4) .a1),
    instr (lw .t2 (6*4) .a1),
    instr (lw .s0 (7*4) .a1),
    instr (lw .s1 (8*4) .a1),
    instr (lw .a0 (9*4) .a1),
    instr (lw .a2 (11*4) .a1),
    instr (lw .a3 (12*4) .a1),
    instr (lw .a4 (13*4) .a1),
    instr (lw .a5 (14*4) .a1),
    instr (lw .a6 (15*4) .a1),
    instr (lw .a7 (16*4) .a1),
    instr (lw .s2 (17*4) .a1),
    instr (lw .s3 (18*4) .a1),
    instr (lw .s4 (19*4) .a1),
    instr (lw .s5 (20*4) .a1),
    instr (lw .s6 (21*4) .a1),
    instr (lw .s7 (22*4) .a1),
    instr (lw .s8 (23*4) .a1),
    instr (lw .s9 (24*4) .a1),
    instr (lw .s10 (25*4) .a1),
    instr (lw .s11 (26*4) .a1),
    instr (lw .t3 (27*4) .a1),
    instr (lw .t4 (28*4) .a1),
    instr (lw .t5 (29*4) .a1),
    instr (lw .t6 (30*4) .a1),
    instr (lw .a1 (10*4) .a1),
    mret]

end Code

/-- The registers of the thread that the interrupt of `sched` came upon, with the `mstatus` of the
    interrupt. -/
structure Registers where
  core : Reg → Word
  mstatus : Word
  mepc : Word

/-- The thread that `sched` switches from, if there is one, and the next one. -/
structure Switch where
  current : Option Nat
  next : Nat

namespace Switch

/-- What `sched` writes. -/
def scheduled (switch : Switch) (r : Registers) (data : Nat → ThreadData) : Nat → ThreadData :=
  let data :=
    match switch.current with
    | some t => Function.update data t { data t with mepc := r.mepc }
    | none => data
  Function.update data switch.next { data switch.next with mstatus := r.mstatus }

/-- The `ThreadData` after the switch. -/
def data (switch : Switch) (r : Registers) (data : Nat → ThreadData) : Nat → ThreadData :=
  let data := switch.scheduled r data
  match switch.current with
  | some t => Function.update data t { data t with core := r.core }
  | none => data

/-- The registers after the switch. -/
def registers (switch : Switch) (r : Registers) (data : Nat → ThreadData) : Registers where
  core := (data switch.next).core
  mstatus := r.mstatus
  mepc := (data switch.next).mepc

end Switch

end ArielOS.Riscv
