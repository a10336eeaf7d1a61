import ArielOS.Lib.Bytes
import ArielOS.Threads.Arch.CortexM

namespace ArielOS.CortexM

open Bytes WordMemory

/-- The registers that an exception pushes, from the lowest address on. -/
structure Frame where
  r0 : Word
  r1 : Word
  r2 : Word
  r3 : Word
  r12 : Word
  lr : Word
  pc : Word
  xpsr : Word
  deriving DecidableEq

def Frame.read (m : Bytes.Memory) (psp : Nat) : Frame where
  r0 := readWord m psp
  r1 := readWord m (psp + 4)
  r2 := readWord m (psp + 8)
  r3 := readWord m (psp + 12)
  r12 := readWord m (psp + 16)
  lr := readWord m (psp + 20)
  pc := readWord m (psp + 24)
  xpsr := readWord m (psp + 28)

/-- The return from an exception to a thread. With an active floating-point context, s0 to s15, FPSCR
    and a reserved word lie above the frame; bit 9 of the stacked xPSR tells of a word that aligns
    the stack. -/
def unstack (m : Bytes.Memory) (excReturn : Word) (psp : Nat) : Frame × Nat :=
  let frame := Frame.read m psp
  let size := if fpActive excReturn then 104 else 32
  (frame, psp + size + if frame.xpsr.getLsbD 9 then 4 else 0)

def stackPaintColor : Words.Octet := 0xCC

/-- What `setup_stack` leaves behind. -/
structure NewStack where
  memory : Bytes.Memory
  sp : Nat
  lowest : Nat
  highest : Nat

def stackPaintInit (m : Bytes.Memory) (lowest sp : Nat) : Bytes.Memory := fill m lowest sp stackPaintColor

def setupStack (m : Bytes.Memory) (stackStart stackLen : Nat) (cleanup func : Word)
    (arg : Option Word) : NewStack :=
  let stackHighest := (stackStart + stackLen) / 8 * 8
  let stackPos := stackHighest - 32
  let m := writeWords m stackPos [arg.getD 0, 1, 2, 3, 12, cleanup, func, 0x01000000]
  { memory := stackPaintInit m stackStart stackPos
    sp := stackPos
    lowest := stackStart
    highest := stackHighest }

variable {m : Bytes.Memory} {stackStart stackLen : Nat} {cleanup func : Word} {arg : Option Word}

/-- The frame of a thread that has not run yet. -/
def Frame.initial (cleanup func : Word) (arg : Option Word) : Frame :=
  ⟨arg.getD 0, 1, 2, 3, 12, cleanup, func, 0x01000000⟩

theorem read_setupStack :
    Frame.read (setupStack m stackStart stackLen cleanup func arg).memory
      (setupStack m stackStart stackLen cleanup func arg).sp = Frame.initial cleanup func arg := by
  have word : ∀ i : Fin 8,
      readWord (setupStack m stackStart stackLen cleanup func arg).memory
        ((setupStack m stackStart stackLen cleanup func arg).sp + 4 * i) =
        [arg.getD 0, 1, 2, 3, 12, cleanup, func, 0x01000000].get i := by
    intro i
    show readWord (fill _ _ _ _) _ = _
    rw [readWord_congr fun j _ => fill_of_outside (by simp only [setupStack]; omega)]
    exact readWord_writeWords i.isLt
  exact (Frame.mk.injEq ..).mpr ⟨word 0, word 1, word 2, word 3, word 4, word 5, word 6, word 7⟩

theorem unstack_initial {psp : Nat} (read : Frame.read m psp = Frame.initial cleanup func arg)
    (excReturn : Word) : unstack m excReturn psp =
      (Frame.initial cleanup func arg, psp + 32 + if fpActive excReturn then 72 else 0) := by
  have unaligned : (Frame.initial cleanup func arg).xpsr.getLsbD 9 = false := by
    show (0x01000000 : Word).getLsbD 9 = false
    decide
  unfold unstack
  rw [read]
  refine Prod.ext rfl ?_
  simp only [unaligned, Bool.false_eq_true, ↓reduceIte]
  cases fpActive excReturn with
  | true =>
    show psp + 104 + 0 = psp + 32 + 72
    omega
  | false => rfl

/-- A new thread enters its function at the top of its own stack, unless its slot still tells of a
    floating-point context: then more is unstacked than was set up. -/
theorem setup_stack_enters (m : Bytes.Memory) (stackStart stackLen : Nat) (cleanup func : Word)
    (arg : Option Word) (room : stackStart + 32 ≤ (stackStart + stackLen) / 8 * 8)
    (excReturn : Word) :
    let new := setupStack m stackStart stackLen cleanup func arg
    unstack new.memory excReturn new.sp =
        (Frame.initial cleanup func arg, new.highest + if fpActive excReturn then 72 else 0) ∧
      (new.lowest ≤ new.sp ∧ new.highest ≤ stackStart + stackLen ∧ new.highest % 8 = 0) ∧
      ((unstack new.memory excReturn new.sp).2 ≤ stackStart + stackLen ↔
        fpActive excReturn = false) ∧
      (∀ x, new.lowest ≤ x → x < new.sp → new.memory x = stackPaintColor) ∧
      ∀ x, x < stackStart ∨ stackStart + stackLen ≤ x → new.memory x = m x := by
  intro new
  have lowest : new.lowest = stackStart := rfl
  have highest : new.highest = (stackStart + stackLen) / 8 * 8 := rfl
  have sp : new.sp = new.highest - 32 := rfl
  have top : unstack new.memory excReturn new.sp =
      (Frame.initial cleanup func arg, new.highest + if fpActive excReturn then 72 else 0) := by
    rw [unstack_initial read_setupStack]
    have back : new.sp + 32 = new.highest := by omega
    rw [back]
  refine ⟨top, ⟨by omega, by omega, by omega⟩, ?_, ?_, ?_⟩
  · rw [top]
    cases fpActive excReturn with
    | true =>
      have above : ¬ new.highest + 72 ≤ stackStart + stackLen := by omega
      exact iff_of_false above (by decide)
    | false =>
      have inside : new.highest + 0 ≤ stackStart + stackLen := by omega
      exact iff_of_true inside rfl
  · exact fun x low high => fill_inside low high
  · intro x outside
    show fill _ _ _ _ _ = _
    rw [fill_of_outside (by omega)]
    exact writeWords_of_outside (by simp only [List.length_cons, List.length_nil]; omega)

theorem setup_stack_enters_sample :
    let new := setupStack (fun _ => 0) 0x1003 100 0x201 0x401 none
    unstack new.memory excReturnThreadNoFpu new.sp = (Frame.initial 0x201 0x401 none, 4192) ∧
      unstack new.memory 0xFFFFFFED new.sp = (Frame.initial 0x201 0x401 none, 4264) := by
  have enters := setup_stack_enters (fun _ => 0) 0x1003 100 0x201 0x401 none (by decide)
  exact ⟨(enters excReturnThreadNoFpu).1, (enters 0xFFFFFFED).1⟩

end ArielOS.CortexM
