import Mathlib.Tactic.FinCases
import ArielOS.Threads.Arch.CortexM
import ArielOS.Threads.Scheduler

namespace ArielOS.CortexM

open Thumb WordMemory

variable {call : State → State} {v : Variant} {σ τ : State} {a b : Word}

def high (i : Fin 8) : Reg := r4ToR11.get i

def low (i : Fin 16) : Fin 32 := i.natAdd 16

/-- The size of `ThreadData` behind `sp`, in words. -/
def Variant.words (v : Variant) : Nat := if v.eabihf then 25 else 8

theorem Variant.one_lt (v : Variant) : 1 < 1 + v.words := by
  unfold Variant.words
  split <;> decide

/-- The words that the code stores to `high_regs`. -/
def saved (v : Variant) (τ : State) : List Word := List.ofFn fun i => τ.core (high (slot v i))

theorem storeWords_saved (memory : Word → Word) (i : Fin 8) :
    storeWords memory a (saved v τ) (offset a i) = τ.core (high (slot v i)) := by
  have bound : i.val < (saved v τ).length := by simp [saved]
  rw [storeWords_offset (by simp [saved]) bound]
  exact List.getElem_ofFn ..

def floats (τ : State) : List Word := s16ToS31.map τ.float

/-- The memory after the context behind `lr` was saved at this address. -/
def savedMemory (v : Variant) (a : Word) (τ : State) : Word → Word :=
  let memory :=
    if v.eabihf then Function.update τ.memory (offset a 24) (τ.core .lr) else τ.memory
  let memory := storeWords memory a (saved v τ)
  if Registers.savesFloat v (τ.core .lr) then storeWords memory (offset a 8) (floats τ) else memory

/-- The part of the code that saves the context, and what it does. -/
structure Saves (v : Variant) (τ ρ : State) : Prop where
  memory : ρ.memory = savedMemory v (τ.core .r0) τ
  next : ρ.core .r1 = τ.core .r1
  sp : ρ.core .sp = τ.core .sp
  float : ρ.float = τ.float

/-- The part of the code that loads the context, and what it does. -/
structure Loads (v : Variant) (τ ρ : State) : Prop where
  memory : ρ.memory = τ.memory
  high : ∀ i, ρ.core (high i) = τ.memory (offset (τ.core .r1) (slot v i))
  sp : ρ.core .sp = τ.core .sp
  lr : v.eabihf → ρ.core .lr = τ.memory (offset (τ.core .r1) 24)
  float : ∀ i, ρ.float (low i) =
    if Registers.savesFloat v (τ.memory (offset (τ.core .r1) 24)) then
      τ.memory (offset (τ.core .r1) (8 + i))
    else
      τ.float (low i)

def saveCode : Variant → List Instr
  | .armv6m =>
    [.str .r4 .r0 16, .str .r5 .r0 20, .str .r6 .r0 24, .str .r7 .r0 28, .mov .r4 .r8, .mov .r5 .r9,
      .mov .r6 .r10, .mov .r7 .r11, .str .r4 .r0 0, .str .r5 .r0 4, .str .r6 .r0 8, .str .r7 .r0 12]
  | .armv7m | .armv8m => [.stmia .r0 false r4ToR11]
  | .armv7mEabihf | .armv8mEabihf =>
    [.str .lr .r0 excReturnOff, .stmia .r0 true r4ToR11, .tst .lr 0x10, .vstmiaeq .r0 s16ToS31]

def loadCode : Variant → List Instr
  | .armv6m =>
    [.ldmia .r1 true [.r4, .r5, .r6, .r7], .mov .r11 .r7, .mov .r10 .r6, .mov .r9 .r5, .mov .r8 .r4,
      .ldmia .r1 true [.r4, .r5, .r6, .r7]]
  | .armv7m | .armv8m => [.ldmia .r1 false r4ToR11]
  | .armv7mEabihf | .armv8mEabihf =>
    [.ldr .lr .r1 excReturnOff, .ldmia .r1 true r4ToR11, .tst .lr 0x10, .vldmiaeq .r1 s16ToS31]

section Save

theorem savedMemory_withoutFpu (without : v.eabihf = false) (a : Word) (τ : State) :
    savedMemory v a τ = storeWords τ.memory a (saved v τ) := by
  simp [savedMemory, Registers.savesFloat, without]

theorem saved_eq_map (other : v ≠ .armv6m) (τ : State) : saved v τ = r4ToR11.map τ.core := by
  cases v with
  | armv6m => exact absurd rfl other
  | armv7m | armv7mEabihf | armv8m | armv8mEabihf => rfl

theorem saves_armv6m (aligned : Aligned (τ.core .r0)) :
    ∃ ρ, runBlock τ (saveCode .armv6m) = some ρ ∧ Saves .armv6m τ ρ := by
  have each := fun i => aligned.offset i
  have at1 := each 1
  have at2 := each 2
  have at3 := each 3
  have at4 := each 4
  have at5 := each 5
  have at6 := each 6
  have at7 := each 7
  have memory : savedMemory .armv6m (τ.core .r0) τ =
      storeWords (storeWords τ.memory (offset (τ.core .r0) 4) [τ.core .r4, τ.core .r5, τ.core .r6,
        τ.core .r7]) (τ.core .r0) [τ.core .r8, τ.core .r9, τ.core .r10, τ.core .r11] := by
    have words : saved .armv6m τ = [τ.core .r8, τ.core .r9, τ.core .r10, τ.core .r11] ++
      [τ.core .r4, τ.core .r5, τ.core .r6, τ.core .r7] := rfl
    rw [savedMemory_withoutFpu rfl, words, storeWords_append, storeWords_comm]
    · rfl
    · intro i below j inside same
      rw [offset_offset] at same
      simp only [List.length_cons, List.length_nil] at below inside same
      have := offset_inj (by omega) (by omega) same
      omega
  simp only [offset, Nat.reduceMul] at at1 at2 at3 at4 at5 at6 at7
  have ends : ∃ ρ, runBlock τ (saveCode .armv6m) = some ρ ∧
      ρ.memory = savedMemory .armv6m (τ.core .r0) τ ∧ ρ.core .r1 = τ.core .r1 ∧
      ρ.core .sp = τ.core .sp ∧ ρ.float = τ.float := by
    rw [memory]
    simp [saveCode, runBlock, Instr.run, ifAligned, State.setReg, storeWords, offset, aligned,
      at1, at2, at3, at4, at5, at6, at7, BitVec.add_assoc]
  obtain ⟨ρ, ends, memory, next, sp, float⟩ := ends
  exact ⟨ρ, ends, memory, next, sp, float⟩

theorem saves_withoutFpu (same : v = .armv7m ∨ v = .armv8m) (aligned : Aligned (τ.core .r0)) :
    ∃ ρ, runBlock τ (saveCode v) = some ρ ∧ Saves v τ ρ := by
  refine ⟨{ τ with memory := storeWords τ.memory (τ.core .r0) (r4ToR11.map τ.core) }, ?_, ?_, rfl,
    rfl, rfl⟩
  · rcases same with rfl | rfl
    all_goals simp [saveCode, runBlock, Instr.run, ifAligned, aligned]
  · rcases same with rfl | rfl
    all_goals rw [savedMemory_withoutFpu rfl, saved_eq_map (by decide)]

theorem saves_withFpu (same : v = .armv7mEabihf ∨ v = .armv8mEabihf)
    (aligned : Aligned (τ.core .r0)) :
    ∃ ρ, runBlock τ (saveCode v) = some ρ ∧ Saves v τ ρ := by
  have at8 := aligned.offset 8
  have at24 := aligned.offset 24
  have last : τ.core .r0 + excReturnOff = offset (τ.core .r0) 24 := rfl
  have ends : ∃ ρ, runBlock τ (saveCode v) = some ρ ∧
      ρ.memory = savedMemory v (τ.core .r0) τ ∧ ρ.core .r1 = τ.core .r1 ∧
      ρ.core .sp = τ.core .sp ∧ ρ.float = τ.float := by
    rcases same with rfl | rfl
    all_goals
      rw [savedMemory, saved_eq_map (by decide)]
      by_cases active : τ.core .lr &&& 16#32 = 0#32
      all_goals
        simp [saveCode, runBlock, Instr.run, ifAligned, State.setReg, aligned, at8, at24, last,
          r4ToR11, Variant.eabihf, Registers.savesFloat, fpActive, floats, active]
  obtain ⟨ρ, ends, memory, next, sp, float⟩ := ends
  exact ⟨ρ, ends, memory, next, sp, float⟩

theorem saves (v : Variant) (aligned : Aligned (τ.core .r0)) :
    ∃ ρ, runBlock τ (saveCode v) = some ρ ∧ Saves v τ ρ := by
  cases v with
  | armv6m => exact saves_armv6m aligned
  | armv7m => exact saves_withoutFpu (Or.inl rfl) aligned
  | armv8m => exact saves_withoutFpu (Or.inr rfl) aligned
  | armv7mEabihf => exact saves_withFpu (Or.inl rfl) aligned
  | armv8mEabihf => exact saves_withFpu (Or.inr rfl) aligned

end Save

section Load

theorem slot_eq (other : v ≠ .armv6m) (i : Fin 8) : slot v i = i := by
  cases v with
  | armv6m => exact absurd rfl other
  | armv7m | armv7mEabihf | armv8m | armv8mEabihf => rfl

theorem loadWords_high (memory : Word → Word) (core : Reg → Word) (i : Fin 8) :
    loadWords memory core b r4ToR11 (high i) = memory (offset b i) :=
  loadWords_getElem (by decide) i.isLt

theorem high_ne (i : Fin 8) {r : Reg} (other : r ∉ r4ToR11) : high i ≠ r :=
  fun same => other (same ▸ List.get_mem r4ToR11 i)

theorem loads_armv6m (aligned : Aligned (τ.core .r1)) :
    ∃ ρ, runBlock τ (loadCode .armv6m) = some ρ ∧ Loads .armv6m τ ρ := by
  have at4 := aligned.offset 4
  have ends : ∃ ρ, runBlock τ (loadCode .armv6m) = some ρ ∧ ρ.memory = τ.memory ∧
      (∀ i, ρ.core (high i) = τ.memory (offset (τ.core .r1) (slot .armv6m i))) ∧
      ρ.core .sp = τ.core .sp ∧ ρ.float = τ.float := by
    simp [loadCode, runBlock, Instr.run, ifAligned, State.setReg, loadWords, aligned, at4]
    intro i
    fin_cases i <;> simp [high, r4ToR11, slot]
  obtain ⟨ρ, ends, memory, high, sp, float⟩ := ends
  refine ⟨ρ, ends, memory, high, sp, ?_, fun i => ?_⟩
  · simp [Variant.eabihf]
  · rw [float]
    rfl

theorem loads_withoutFpu (same : v = .armv7m ∨ v = .armv8m) (aligned : Aligned (τ.core .r1)) :
    ∃ ρ, runBlock τ (loadCode v) = some ρ ∧ Loads v τ ρ := by
  have other : v ≠ .armv6m := by rcases same with rfl | rfl <;> decide
  have without : v.eabihf = false := by rcases same with rfl | rfl <;> rfl
  refine ⟨{ τ with core := loadWords τ.memory τ.core (τ.core .r1) r4ToR11 }, ?_, rfl, ?_, ?_, ?_, ?_⟩
  · rcases same with rfl | rfl
    all_goals simp [loadCode, runBlock, Instr.run, ifAligned, aligned]
  · intro i
    rw [slot_eq other]
    exact loadWords_high ..
  · exact loadWords_of_notMem (by decide)
  · simp [without]
  · simp [Registers.savesFloat, without]

theorem loads_withFpu (same : v = .armv7mEabihf ∨ v = .armv8mEabihf)
    (aligned : Aligned (τ.core .r1)) :
    ∃ ρ, runBlock τ (loadCode v) = some ρ ∧ Loads v τ ρ := by
  have other : v ≠ .armv6m := by rcases same with rfl | rfl <;> decide
  have has : v.eabihf = true := by rcases same with rfl | rfl <;> rfl
  have at8 := aligned.offset 8
  have at24 := aligned.offset 24
  have last : τ.core .r1 + excReturnOff = offset (τ.core .r1) 24 := rfl
  have stays : ∀ core r, r ∉ r4ToR11 →
      loadWords τ.memory core (τ.core .r1) r4ToR11 r = core r :=
    fun _ _ absent => loadWords_of_notMem absent
  have sp := fun core => stays core .sp (by decide)
  have lr := fun core => stays core .lr (by decide)
  have r1 := fun core => stays core .r1 (by decide)
  have float : ∀ i : Fin 16, loadWords τ.memory τ.float (offset (τ.core .r1) 8) s16ToS31 (low i) =
      τ.memory (offset (τ.core .r1) (8 + i)) := by
    intro i
    have bound : i.val < s16ToS31.length := by simp [s16ToS31]
    have here : s16ToS31[i.val] = low i := List.getElem_ofFn ..
    rw [← here, loadWords_getElem (by decide) bound, offset_offset]
  have ends : ∃ ρ, runBlock τ (loadCode v) = some ρ ∧ ρ.memory = τ.memory ∧
      (∀ i, ρ.core (high i) = τ.memory (offset (τ.core .r1) i)) ∧ ρ.core .sp = τ.core .sp ∧
      ρ.core .lr = τ.memory (offset (τ.core .r1) 24) ∧
      ∀ i, ρ.float (low i) =
        if fpActive (τ.memory (offset (τ.core .r1) 24)) then
          τ.memory (offset (τ.core .r1) (8 + i))
        else
          τ.float (low i) := by
    have code : loadCode v =
        [.ldr .lr .r1 excReturnOff, .ldmia .r1 true r4ToR11, .tst .lr 0x10,
          .vldmiaeq .r1 s16ToS31] := by
      rcases same with rfl | rfl <;> rfl
    have eight : r4ToR11.length = 8 := rfl
    have apart := fun i => high_ne i (r := .r1) (by decide)
    rw [code]
    by_cases active : τ.memory (offset (τ.core .r1) 24) &&& 16#32 = 0#32
    all_goals
      simp [runBlock, Instr.run, ifAligned, State.setReg, aligned, at8, at24, last, sp, lr, r1, float,
        fpActive, active, loadWords_high, eight, apart]
  obtain ⟨ρ, ends, memory, high, sp, lr, float⟩ := ends
  refine ⟨ρ, ends, memory, fun i => ?_, sp, fun _ => lr, ?_⟩
  · rw [slot_eq other]
    exact high i
  · simpa [Registers.savesFloat, has] using float

theorem loads (v : Variant) (aligned : Aligned (τ.core .r1)) :
    ∃ ρ, runBlock τ (loadCode v) = some ρ ∧ Loads v τ ρ := by
  cases v with
  | armv6m => exact loads_armv6m aligned
  | armv7m => exact loads_withoutFpu (Or.inl rfl) aligned
  | armv8m => exact loads_withoutFpu (Or.inr rfl) aligned
  | armv7mEabihf => exact loads_withFpu (Or.inl rfl) aligned
  | armv8mEabihf => exact loads_withFpu (Or.inr rfl) aligned

end Load

/-- Where the `ThreadData` of each thread lies. -/
abbrev Layout (v : Variant) := Blocks threadCount (1 + v.words)

/-- The memory holds this `ThreadData` at the address. -/
structure Holds (v : Variant) (memory : Word → Word) (p : Word) (d : ThreadData) : Prop where
  sp : memory p = d.sp
  highRegs : ∀ i : Fin 8, memory (offset p (1 + i)) = d.highRegs i
  highRegsFloat : v.eabihf → ∀ i : Fin 16, memory (offset p (9 + i)) = d.highRegsFloat i
  excReturn : v.eabihf → memory (offset p 25) = d.excReturn

def Layout.Represents (layout : Layout v) (memory : Word → Word) (data : Nat → ThreadData) : Prop :=
  ∀ t < threadCount, Holds v memory (layout.start t) (data t)

theorem Holds.congr {memory memory' : Word → Word} {p : Word} {d : ThreadData}
    (holds : Holds v memory p d)
    (same : ∀ i < 1 + v.words, memory' (offset p i) = memory (offset p i)) :
    Holds v memory' p d where
  sp := by
    have first := same 0 (by omega)
    rw [offset_zero] at first
    rw [first, holds.sp]
  highRegs := by
    intro i
    have bound : 1 + i.val < 1 + v.words := by
      unfold Variant.words
      split <;> omega
    rw [same _ bound, holds.highRegs]
  highRegsFloat := by
    intro has i
    have bound : 9 + i.val < 1 + v.words := by
      simp only [Variant.words, has, ↓reduceIte]
      omega
    rw [same _ bound, holds.highRegsFloat has]
  excReturn := by
    intro has
    rw [same 25 (by simp [Variant.words, has]), holds.excReturn has]

section Saved

/-- The registers that are to be saved. -/
def registersOf (psp : Word) (τ : State) : Registers where
  psp := psp
  high := fun i => τ.core (high i)
  float := fun i => τ.float (low i)
  excReturn := τ.core .lr

theorem savedMemory_of_ne {x : Word} (apart : ∀ i < v.words, x ≠ offset a i) :
    savedMemory v a τ x = τ.memory x := by
  have first : ∀ memory : Word → Word, storeWords memory a (saved v τ) x = memory x := by
    intro memory
    apply storeWords_of_ne
    intro i bound
    apply apart i
    simp only [saved, List.length_ofFn] at bound
    unfold Variant.words
    split <;> omega
  by_cases has : v.eabihf = true
  · have last : x ≠ offset a 24 := apart 24 (by simp [Variant.words, has])
    have middle : ∀ memory : Word → Word, storeWords memory (offset a 8) (floats τ) x = memory x := by
      intro memory
      apply storeWords_of_ne
      intro i bound
      rw [offset_offset]
      apply apart
      simp only [floats, s16ToS31, List.length_map, List.length_ofFn] at bound
      simp only [Variant.words, has, ↓reduceIte]
      omega
    simp only [savedMemory, has, ↓reduceIte]
    split
    · rw [middle, first, Function.update_of_ne last]
    · rw [first, Function.update_of_ne last]
  · rw [savedMemory_withoutFpu (Bool.eq_false_of_not_eq_true has), first]

theorem storeSaved_apart (memory : Word → Word) {i : Nat} (outside : 8 ≤ i) (small : i < 32) :
    storeWords memory a (saved v τ) (offset a i) = memory (offset a i) := by
  apply storeWords_of_ne
  intro j bound same
  simp only [saved, List.length_ofFn] at bound
  have := offset_inj (by omega) (by omega) same
  omega

theorem storeFloats_apart (memory : Word → Word) {i : Nat} (outside : i < 8 ∨ 24 ≤ i)
    (small : i < 32) :
    storeWords memory (offset a 8) (floats τ) (offset a i) = memory (offset a i) := by
  apply storeWords_of_ne
  intro j bound same
  rw [offset_offset] at same
  simp only [floats, s16ToS31, List.length_map, List.length_ofFn] at bound
  have := offset_inj (by omega) (by omega) same
  omega

theorem storeFloats_offset (memory : Word → Word) (i : Fin 16) :
    storeWords memory (offset a 8) (floats τ) (offset a (8 + i)) = τ.float (low i) := by
  have bound : i.val < (floats τ).length := by simp [floats, s16ToS31]
  rw [← offset_offset, storeWords_offset (by simp [floats, s16ToS31]) bound]
  simp only [floats, s16ToS31, List.getElem_map, List.getElem_ofFn]
  rfl

theorem holds_savedMemory {p : Word} {d : ThreadData} (psp : Word) (holds : Holds v τ.memory p d) :
    Holds v (savedMemory v (offset p 1) τ) p ((registersOf psp τ).save v d) where
  sp := by
    rw [savedMemory_of_ne, holds.sp]
    · rfl
    · intro i bound same
      rw [offset_offset, ← offset_zero p, offset_offset] at same
      have small : v.words ≤ 25 := by
        unfold Variant.words
        split <;> omega
      have := offset_inj (by omega) (by omega) same
      omega
  highRegs := by
    intro i
    rw [← offset_offset]
    show savedMemory v (offset p 1) τ (offset (offset p 1) i) = τ.core (high (slot v i))
    by_cases active : Registers.savesFloat v (τ.core .lr) = true
    · simp only [savedMemory, active, ↓reduceIte]
      rw [storeFloats_apart _ (Or.inl i.isLt) (by omega), storeWords_saved]
    · simp only [savedMemory, active, Bool.false_eq_true, ↓reduceIte]
      rw [storeWords_saved]
  highRegsFloat := by
    intro has i
    have old := holds.highRegsFloat has i
    rw [show 9 + i.val = 1 + (8 + i.val) by omega, ← offset_offset] at old ⊢
    show _ = (if Registers.savesFloat v (τ.core .lr) then fun i => τ.float (low i)
      else d.highRegsFloat) i
    by_cases active : Registers.savesFloat v (τ.core .lr) = true
    · simp only [savedMemory, has, active, ↓reduceIte]
      exact storeFloats_offset _ i
    · simp only [savedMemory, has, active, Bool.false_eq_true, ↓reduceIte]
      rw [storeSaved_apart _ (by omega) (by omega), Function.update_of_ne, old]
      intro same
      have := offset_inj (by omega) (by omega) same
      omega
  excReturn := by
    intro has
    rw [show 25 = 1 + 24 by rfl, ← offset_offset]
    simp only [Registers.save, has, ↓reduceIte]
    show savedMemory v (offset p 1) τ (offset (offset p 1) 24) = τ.core .lr
    by_cases active : Registers.savesFloat v (τ.core .lr) = true
    · simp only [savedMemory, has, active, ↓reduceIte]
      rw [storeFloats_apart _ (by omega) (by omega), storeSaved_apart _ (by omega) (by omega),
        Function.update_self]
    · simp only [savedMemory, has, active, Bool.false_eq_true, ↓reduceIte]
      rw [storeSaved_apart _ (by omega) (by omega), Function.update_self]

/-- What the loaded registers are, in terms of the `ThreadData` that the memory holds. -/
theorem Loads.restores {ρ : State} {p : Word} {d : ThreadData} (psp : Word) (loads : Loads v τ ρ)
    (next : τ.core .r1 = offset p 1) (holds : Holds v τ.memory p d) :
    let restored := (registersOf psp τ).restore v d
    (∀ i, ρ.core (CortexM.high i) = restored.high i) ∧ (∀ i, ρ.float (low i) = restored.float i) ∧
      (v.eabihf → ρ.core .lr = restored.excReturn) := by
  intro restored
  refine ⟨fun i => ?_, fun i => ?_, fun has => ?_⟩
  · rw [loads.high, next, offset_offset, holds.highRegs]
    rfl
  · rw [loads.float, next, offset_offset, offset_offset]
    show _ = (if _ then _ else _ : Fin 16 → Word) i
    by_cases has : v.eabihf = true
    · rw [holds.excReturn has, show 1 + (8 + i.val) = 9 + i.val by omega, holds.highRegsFloat has]
      split <;> rfl
    · simp only [Registers.savesFloat, has, Bool.false_and, Bool.false_eq_true, ↓reduceIte]
      rfl
  · rw [loads.lr has, next, offset_offset, holds.excReturn has]
    show _ = if _ then _ else _
    rw [if_pos has]

end Saved

section Pendsv

namespace Outcome

def r0 (layout : Layout v) : Outcome → Word
  | continues | starts _ => 0
  | switches current _ => offset (layout.start current) 1

def r1 (layout : Layout v) : Outcome → Word
  | continues => 0
  | starts next | switches _ next => offset (layout.start next) 1

def Valid : Outcome → Prop
  | continues => True
  | starts next => next < threadCount
  | switches current next => current < threadCount ∧ next < threadCount ∧ current ≠ next

end Outcome

/-- What a function keeps by the procedure call standard, with two words on its caller's stack. -/
structure Aapcs (σ τ : State) : Prop where
  core : ∀ r ∈ .sp :: r4ToR11, τ.core r = σ.core r
  float : ∀ i, τ.float (low i) = σ.float (low i)
  frame : ∀ i < 2, τ.memory (offset (σ.core .sp) i) = σ.memory (offset (σ.core .sp) i)

/-- The state in which the code calls `sched`: with an FPU, r2 and lr are pushed before. -/
def entered (v : Variant) (σ : State) : State :=
  if v.eabihf then
    let sp := σ.core .sp - 8#32
    { σ with
      core := Function.update σ.core .sp sp
      memory := storeWords σ.memory sp [σ.core .r2, σ.core .lr] }
  else
    σ

/-- What the call of `sched` does. -/
structure SchedReturns (layout : Layout v) (outcome : Outcome) (data : Nat → ThreadData)
    (σ τ : State) : Prop where
  conforms : Aapcs σ τ
  r0 : τ.core .r0 = outcome.r0 layout
  r1 : τ.core .r1 = outcome.r1 layout
  represents : layout.Represents τ.memory data

/-- The state in which the code goes on after the call, popped if it pushed. -/
structure Continues (v : Variant) (σ τ κ : State) : Prop where
  r0 : κ.core .r0 = τ.core .r0
  r1 : κ.core .r1 = τ.core .r1
  memory : κ.memory = τ.memory
  sp : κ.core .sp = σ.core .sp
  high : ∀ i, κ.core (high i) = σ.core (CortexM.high i)
  float : ∀ i, κ.float (low i) = σ.float (low i)
  lr : v.eabihf → κ.core .lr = σ.core .lr

def popped (τ : State) : State :=
  let sp := offset (τ.core .sp) 2
  { τ with
    core := loadWords τ.memory (Function.update τ.core .sp sp) (τ.core .sp) [.r2, .lr] }

theorem high_notPopped : ∀ i, high i ∉ [Reg.r2, .lr] := by
  decide

theorem high_mem (i : Fin 8) : high i ∈ r4ToR11 := List.get_mem ..

theorem continues_withoutFpu (without : v.eabihf = false) (conforms : Aapcs σ τ) :
    Continues v σ τ τ where
  r0 := rfl
  r1 := rfl
  memory := rfl
  sp := conforms.core .sp (by simp)
  high := fun i => conforms.core _ (List.mem_cons_of_mem _ (high_mem i))
  float := conforms.float
  lr := by simp [without]

theorem continues_withFpu (has : v.eabihf = true) (code : List (Line Label))
    (aligned : Aligned (σ.core .sp)) (conforms : Aapcs (entered v σ) (call (entered v σ))) :
    ∃ κ, Thumb.run call (.instr (.stmdb .sp [.r2, .lr]) :: .bl ::
        .instr (.ldmia .sp true [.r2, .lr]) :: code) none σ = Thumb.run call code none κ ∧
      Continues v σ (call (entered v σ)) κ := by
  have below : Aligned (σ.core .sp - 8#32) := by
    unfold Aligned at *
    rw [BitVec.toNat_sub]
    simp only [BitVec.toNat_ofNat, Nat.reducePow, Nat.reduceMod]
    omega
  have pushed : entered v σ = { σ with
      core := Function.update σ.core .sp (σ.core .sp - 8#32)
      memory := storeWords σ.memory (σ.core .sp - 8#32) [σ.core .r2, σ.core .lr] } := by
    simp only [entered, has, ↓reduceIte]
  have bottom : (entered v σ).core .sp = σ.core .sp - 8#32 := by simp [pushed]
  generalize returns : call (entered v σ) = τ at conforms
  have sp : τ.core .sp = σ.core .sp - 8#32 := bottom ▸ conforms.core .sp (by simp)
  have top : offset (σ.core .sp - 8#32) 2 = σ.core .sp := BitVec.sub_add_cancel ..
  refine ⟨popped τ, ?_, ?_, ?_, rfl, ?_, fun i => ?_, fun i => ?_, fun _ => ?_⟩
  · rw [pushed] at returns
    simp [Thumb.run, Instr.run, ifAligned, below, State.setReg, returns, sp, popped]
  · simp [popped, loadWords]
  · simp [popped, loadWords]
  · simp [popped, loadWords, sp, top]
  · have kept : τ.core (high i) = (entered v σ).core (high i) :=
      conforms.core _ (List.mem_cons_of_mem _ (high_mem i))
    have notPopped : high i ∉ [Reg.r2, .lr] := high_notPopped i
    have notSp : high i ≠ .sp := high_ne i (by decide)
    show loadWords _ _ _ _ _ = _
    rw [loadWords_of_notMem notPopped, Function.update_of_ne notSp, kept, pushed]
    exact Function.update_of_ne notSp _ _
  · show τ.float (low i) = _
    rw [conforms.float, pushed]
  · have kept : τ.memory (offset (σ.core .sp - 8#32) 1) =
        (entered v σ).memory (offset (σ.core .sp - 8#32) 1) := bottom ▸ conforms.frame 1 (by decide)
    have word : (popped τ).core .lr = τ.memory (offset (τ.core .sp) 1) := by
      simp [popped, loadWords]
    rw [word, sp, kept, pushed]
    exact storeWords_offset (i := 1) (by simp) (by simp)

/-- How the code ends: the registers and the memory are those of the outcome. -/
structure Ends (layout : Layout v) (outcome : Outcome) (psp : Word) (data : Nat → ThreadData)
    (σ τ ρ : State) : Prop where
  represents : layout.Represents ρ.memory (outcome.data v (registersOf psp σ) data)
  high : ∀ i, ρ.core (high i) = (outcome.registers v (registersOf psp σ) data).high i
  float : ∀ i, ρ.float (low i) = (outcome.registers v (registersOf psp σ) data).float i
  sp : ρ.core .sp = σ.core .sp
  frame : ∀ x, (∀ t u, outcome = .switches t u → ∀ i < v.words, x ≠ offset (layout.start t) (1 + i)) →
    ρ.memory x = τ.memory x

variable {layout : Layout v} {outcome : Outcome} {psp : Word} {data : Nat → ThreadData}
  {κ ρ ρ' : State} {t u : Nat}

theorem Ends.congr (ends : Ends layout outcome psp data σ τ ρ) (memory : ρ'.memory = ρ.memory)
    (core : ∀ r ∈ .sp :: r4ToR11, ρ'.core r = ρ.core r) (float : ρ'.float = ρ.float) :
    Ends layout outcome psp data σ τ ρ' where
  represents := memory ▸ ends.represents
  high := fun i => (core _ (List.mem_cons_of_mem _ (high_mem i))).trans (ends.high i)
  float := fun i => float ▸ ends.float i
  sp := (core .sp (by simp)).trans ends.sp
  frame := memory ▸ ends.frame

theorem Continues.zero (continues : Continues v σ τ κ) (zero : Bool) :
    Continues v σ τ { κ with zero } :=
  ⟨continues.r0, continues.r1, continues.memory, continues.sp, continues.high, continues.float,
    continues.lr⟩

theorem Continues.save_eq (continues : Continues v σ τ κ) (d : ThreadData) :
    (registersOf psp κ).save v d = (registersOf psp σ).save v d := by
  have high : (registersOf psp κ).high = (registersOf psp σ).high := funext continues.high
  have float : (registersOf psp κ).float = (registersOf psp σ).float := funext continues.float
  unfold Registers.save
  rw [high, float]
  cases has : v.eabihf with
  | true =>
    have lr : (registersOf psp κ).excReturn = (registersOf psp σ).excReturn := continues.lr has
    rw [lr]
  | false => simp [Registers.savesFloat, has]

theorem restore_congr (same : ∀ i, κ.float (low i) = σ.float (low i)) (d : ThreadData) :
    (registersOf psp κ).restore v d = (registersOf psp σ).restore v d := by
  have float : (registersOf psp κ).float = (registersOf psp σ).float := funext same
  unfold Registers.restore
  rw [float]
  rfl

/-- Nothing is exchanged. -/
theorem ends_unswitched (unswitched : ∀ t u, outcome ≠ .switches t u)
    (represents : layout.Represents τ.memory data) (continues : Continues v σ τ κ) :
    Ends layout outcome psp data σ τ κ where
  represents := by
    rw [continues.memory]
    cases outcome with
    | continues | starts => exact represents
    | switches t u => exact absurd rfl (unswitched t u)
  high := by
    intro i
    rw [continues.high]
    cases outcome with
    | continues =>
      show _ = (if _ then _ else _ : Registers).high i
      split <;> rfl
    | starts => rfl
    | switches t u => exact absurd rfl (unswitched t u)
  float := by
    intro i
    rw [continues.float]
    cases outcome with
    | continues =>
      show _ = (if _ then _ else _ : Registers).float i
      split <;> rfl
    | starts => rfl
    | switches t u => exact absurd rfl (unswitched t u)
  sp := continues.sp
  frame := fun x _ => by rw [continues.memory]

/-- The code saves one context and loads another. -/
theorem exchange (psp : Word) (valid : (Outcome.switches t u).Valid) (represents : layout.Represents τ.memory data)
    (current : τ.core .r0 = offset (layout.start t) 1) (next : τ.core .r1 = offset (layout.start u) 1)
    (continues : Continues v σ τ κ) :
    ∃ ρ₁ ρ₂, runBlock κ (saveCode v) = some ρ₁ ∧ runBlock ρ₁ (loadCode v) = some ρ₂ ∧
      (v.eabihf → ρ₂.core .lr = ((registersOf psp σ).restore v (data u)).excReturn) ∧
      Ends layout (.switches t u) psp data σ τ ρ₂ := by
  obtain ⟨ht, hu, other⟩ := valid
  have r0 : κ.core .r0 = offset (layout.start t) 1 := continues.r0.trans current
  obtain ⟨ρ₁, ran₁, saves⟩ := saves v (r0 ▸ (layout.aligned t).offset 1)
  have r1 : ρ₁.core .r1 = offset (layout.start u) 1 := (saves.next.trans continues.r1).trans next
  obtain ⟨ρ₂, ran₂, loads⟩ := loads v (r1 ▸ (layout.aligned u).offset 1)
  have memory : ρ₂.memory = savedMemory v (offset (layout.start t) 1) κ := by
    rw [loads.memory, saves.memory, r0]
  have frame : ∀ x, (∀ i < v.words, x ≠ offset (layout.start t) (1 + i)) → ρ₂.memory x = τ.memory x := by
    intro x outside
    rw [memory, savedMemory_of_ne, continues.memory]
    intro i bound
    rw [offset_offset]
    exact outside i bound
  have others : ∀ s < threadCount, s ≠ t → Holds v ρ₂.memory (layout.start s) (data s) := by
    intro s bound apart
    apply (represents s bound).congr
    intro j inside
    apply frame
    intro i small
    exact layout.apart bound ht apart inside (by omega)
  have held : Holds v ρ₁.memory (layout.start u) (data u) :=
    loads.memory ▸ others u hu other.symm
  obtain ⟨high, float, lr⟩ := loads.restores psp r1 held
  have restored : (registersOf psp ρ₁).restore v (data u) = (registersOf psp σ).restore v (data u) :=
    restore_congr (fun i => by rw [saves.float, continues.float]) _
  rw [restored] at high float lr
  refine ⟨ρ₁, ρ₂, ran₁, ran₂, lr, ?_, high, float, loads.sp.trans (saves.sp.trans continues.sp), ?_⟩
  · intro s bound
    by_cases same : s = t
    · subst same
      have before : Holds v κ.memory (layout.start s) (data s) := continues.memory ▸ represents s bound
      have after := holds_savedMemory psp before
      rw [continues.save_eq, ← memory] at after
      show Holds v ρ₂.memory (layout.start s) (Function.update data s _ s)
      rw [Function.update_self]
      exact after
    · show Holds v ρ₂.memory (layout.start s) (Function.update data t _ s)
      rw [Function.update_of_ne same]
      exact others s bound same
  · exact fun x outside => frame x (outside t u rfl)

/-- Code that loads the EXC_RETURN value and leaves the exception. -/
def Leaves (call : State → State) (tail : List (Line Label)) : Prop :=
  ∀ ρ, ∃ ρ', Thumb.run call tail none ρ = some (excReturnThreadNoFpu, ρ') ∧ ρ'.memory = ρ.memory ∧
    (∀ r ∈ .sp :: r4ToR11, ρ'.core r = ρ.core r) ∧ ρ'.float = ρ.float

theorem leaves_movw (rest : List (Line Label)) : Leaves call
    (.instr (.movw .lr 0xFFFD) :: .instr (.movt .lr 0xFFFF) :: .bx .lr :: rest) := by
  intro ρ
  refine ⟨ρ.setReg .lr excReturnThreadNoFpu, ?_, rfl, ?_, rfl⟩
  · simp [Thumb.run, Instr.run, State.setReg, excReturnThreadNoFpu]
  · intro r kept
    have other : r ≠ .lr := fun same => absurd (same ▸ kept) (by decide)
    simp [State.setReg, other]

theorem leaves_literal : Leaves call
    [.instr (.ldrLiteral .r0 0xFFFFFFFD), .instr (.mov .lr .r0), .bx .lr] := by
  intro ρ
  refine ⟨_, rfl, rfl, ?_, rfl⟩
  intro r kept
  have notLr : r ≠ .lr := fun same => absurd (same ▸ kept) (by decide)
  have notR0 : r ≠ .r0 := fun same => absurd (same ▸ kept) (by decide)
  simp [State.setReg, notLr, notR0]

theorem ends_withoutFpu {tail : List (Line Label)} (without : v.eabihf = false)
    (code : pendsv v = .bl :: .instr (.cmp .r0 0) :: .beq .skip ::
      ((saveCode v).map .instr ++ ((loadCode v).map .instr ++ .label .skip :: tail)))
    (leaves : Leaves call tail) (valid : outcome.Valid)
    (returns : SchedReturns layout outcome data σ (call σ)) :
    ∃ ρ, Thumb.run call (pendsv v) none σ = some (excReturnThreadNoFpu, ρ) ∧
      Ends layout outcome psp data σ (call σ) ρ := by
  have continues := (continues_withoutFpu without returns.conforms).zero ((call σ).core .r0 == 0)
  have starts : Thumb.run call (pendsv v) none σ =
      Thumb.run call ((saveCode v).map .instr ++ ((loadCode v).map .instr ++ .label .skip :: tail))
        (if (call σ).core .r0 == 0 then some .skip else none)
        { call σ with zero := (call σ).core .r0 == 0 } := by
    rw [code]
    rfl
  rw [starts]
  cases outcome with
  | continues | starts =>
    have null : ((call σ).core .r0 == 0) = true := by
      rw [returns.r0]
      rfl
    rw [null] at continues ⊢
    obtain ⟨ρ, left, memory, core, float⟩ := leaves { call σ with zero := true }
    refine ⟨ρ, ?_, (ends_unswitched (by simp) returns.represents continues).congr memory core float⟩
    rw [if_pos rfl, run_passed, run_passed]
    exact left
  | switches t u =>
    have notNull : ((call σ).core .r0 == 0) = false := by
      rw [returns.r0]
      exact beq_eq_false_iff_ne.mpr (layout.nonNull valid.1 v.one_lt)
    rw [notNull] at continues ⊢
    obtain ⟨ρ₁, ρ₂, saves, loads, -, ends⟩ :=
      exchange psp valid returns.represents returns.r0 returns.r1 continues
    obtain ⟨ρ, left, memory, core, float⟩ := leaves ρ₂
    refine ⟨ρ, ?_, ends.congr memory core float⟩
    rw [if_neg (by decide), run_block, saves, Option.bind_some, run_block, loads, Option.bind_some]
    exact left

/-- The code with an FPU, behind the label `_PendSV_full_context_switch`. -/
def switching (v : Variant) : List (Line Label) :=
  (saveCode v).map .instr ++ ((loadCode v).map .instr ++ [.bx .lr])

/-- The code with an FPU, behind the label `_PendSV_first_thread_start`. -/
def starting (v : Variant) : List (Line Label) :=
  .instr (.movw .lr 0xFFFD) :: .instr (.movt .lr 0xFFFF) :: .bx .lr ::
    .label .currentThreadContinues :: .bx .lr :: .label .fullContextSwitch :: switching v

def deciding (v : Variant) : List (Line Label) :=
  .instr (.cmp .r0 0) :: .bne .fullContextSwitch :: .instr (.cmp .r1 0) ::
    .beq .currentThreadContinues :: .label .firstThreadStart :: starting v

theorem pendsv_withFpu (has : v.eabihf = true) : pendsv v =
    .instr (.stmdb .sp [.r2, .lr]) :: .bl :: .instr (.ldmia .sp true [.r2, .lr]) :: deciding v := by
  cases v with
  | armv7mEabihf | armv8mEabihf => rfl
  | armv6m | armv7m | armv8m => cases has

theorem run_deciding (v : Variant) (κ : State) : Thumb.run call (deciding v) none κ =
    if κ.core .r0 = 0 then
      if κ.core .r1 = 0 then some (κ.core .lr, { κ with zero := true })
      else Thumb.run call (starting v) none { κ with zero := false }
    else
      Thumb.run call (switching v) none { κ with zero := false } := by
  by_cases current : κ.core .r0 = 0#32
  · by_cases next : κ.core .r1 = 0#32
    · simp [deciding, starting, Thumb.run, Instr.run, current, next]
    · simp [deciding, Thumb.run, Instr.run, current, next, beq_eq_false_iff_ne.mpr next]
  · simp [deciding, starting, Thumb.run, Instr.run, current, beq_eq_false_iff_ne.mpr current]

theorem ends_withFpu (has : v.eabihf = true) (aligned : Aligned (σ.core .sp))
    (valid : outcome.Valid)
    (returns : SchedReturns layout outcome data (entered v σ) (call (entered v σ))) :
    ∃ ρ, Thumb.run call (pendsv v) none σ =
        some ((outcome.registers v (registersOf psp σ) data).excReturn, ρ) ∧
      Ends layout outcome psp data σ (call (entered v σ)) ρ := by
  obtain ⟨κ, run, continues⟩ := continues_withFpu has (deciding v) aligned returns.conforms
  rw [pendsv_withFpu has, run, run_deciding, continues.r0, continues.r1, returns.r0, returns.r1]
  cases outcome with
  | continues =>
    refine ⟨{ κ with zero := true }, ?_,
      ends_unswitched (by simp) returns.represents (continues.zero true)⟩
    simp [Outcome.r0, Outcome.r1, Outcome.registers, has, registersOf, continues.lr has]
  | starts u =>
    have leaves : Leaves call _ := leaves_movw (.label .currentThreadContinues :: .bx .lr ::
      .label .fullContextSwitch :: switching v)
    obtain ⟨ρ, left, memory, core, float⟩ := leaves { κ with zero := false }
    refine ⟨ρ, ?_, (ends_unswitched (by simp) returns.represents (continues.zero false)).congr
      memory core float⟩
    have current : Outcome.r0 layout (.starts u) = 0 := rfl
    have next : Outcome.r1 layout (.starts u) ≠ 0 := layout.nonNull valid v.one_lt
    rw [if_pos current, if_neg next]
    exact left
  | switches t u =>
    obtain ⟨ρ₁, ρ₂, saves, loads, lr, ends⟩ :=
      exchange psp valid returns.represents returns.r0 returns.r1 (continues.zero false)
    refine ⟨ρ₂, ?_, ends⟩
    have current : Outcome.r0 layout (.switches t u) ≠ 0 := layout.nonNull valid.1 v.one_lt
    rw [if_neg current, switching, run_block, saves, Option.bind_some, run_block, loads,
      Option.bind_some]
    show some (ρ₂.core .lr, ρ₂) = _
    rw [lr has]
    rfl

theorem pendsv_ends (layout : Layout v) (outcome : Outcome) (psp : Word) (data : Nat → ThreadData)
    (call : State → State) (σ : State) (aligned : Aligned (σ.core .sp)) (valid : outcome.Valid)
    (returns : SchedReturns layout outcome data (entered v σ) (call (entered v σ))) :
    ∃ ρ, Thumb.run call (pendsv v) none σ =
        some ((outcome.registers v (registersOf psp σ) data).excReturn, ρ) ∧
      Ends layout outcome psp data σ (call (entered v σ)) ρ := by
  have without : v.eabihf = false →
      (outcome.registers v (registersOf psp σ) data).excReturn = excReturnThreadNoFpu := by
    intro without
    cases outcome <;> simp [Outcome.registers, Registers.start, Registers.restore, without]
  cases v with
  | armv6m =>
    rw [without rfl]
    exact ends_withoutFpu rfl rfl leaves_literal valid returns
  | armv7m =>
    rw [without rfl]
    exact ends_withoutFpu rfl rfl (leaves_movw []) valid returns
  | armv8m =>
    rw [without rfl]
    exact ends_withoutFpu rfl rfl (leaves_movw []) valid returns
  | armv7mEabihf => exact ends_withFpu rfl aligned valid returns
  | armv8mEabihf => exact ends_withFpu rfl aligned valid returns

end Pendsv

section Samples

/-- Sixteen threads of 128 bytes each. -/
def sampleLayout : Layout .armv7mEabihf :=
  .array 0x2000 32 (by decide) (by decide) (by decide) (by decide)

/-- Each word of the memory is its own address, and r4 holds 44. -/
def sampleState : State where
  core := fun r => if r = .lr then 0xFFFFFFED else if r = .sp then 0x8000 else 44
  float := fun _ => 0
  zero := false
  memory := id

def sampleData (t : Nat) : ThreadData where
  sp := sampleLayout.start t
  highRegs := fun i => offset (sampleLayout.start t) (1 + i)
  highRegsFloat := fun i => offset (sampleLayout.start t) (9 + i)
  excReturn := offset (sampleLayout.start t) 25

/-- `sched` switches from thread 2 to thread 5. -/
def sampleCall (σ : State) : State :=
  (σ.setReg .r0 (offset (sampleLayout.start 2) 1)).setReg .r1 (offset (sampleLayout.start 5) 1)

theorem sample_returns : SchedReturns sampleLayout (.switches 2 5) sampleData
    (entered .armv7mEabihf sampleState) (sampleCall (entered .armv7mEabihf sampleState)) := by
  have memory : ∀ t < threadCount, ∀ i < 26,
      (entered .armv7mEabihf sampleState).memory (offset (sampleLayout.start t) i) =
        offset (sampleLayout.start t) i := by
    decide +kernel
  refine ⟨⟨by decide, fun _ => rfl, fun _ _ => rfl⟩, rfl, rfl, fun t bound => ⟨?_, ?_, ?_, ?_⟩⟩
  · exact (offset_zero (sampleLayout.start t) ▸ memory t bound 0 (by omega) :
      (entered .armv7mEabihf sampleState).memory (sampleLayout.start t) = sampleLayout.start t)
  · exact fun i => memory t bound _ (by omega)
  · exact fun _ i => memory t bound _ (by omega)
  · exact fun _ => memory t bound _ (by omega)

theorem pendsv_ends_sample : ∃ e ρ,
    Thumb.run sampleCall (pendsv .armv7mEabihf) none sampleState = some (e, ρ) ∧
      e = 0x22E4 ∧ ρ.core .r4 = 0x2284 ∧ ρ.memory 0x2104 = 44 := by
  obtain ⟨ρ, run, ends⟩ := pendsv_ends sampleLayout (.switches 2 5) 0 sampleData sampleCall sampleState
    (by decide) ⟨by decide, by decide, by decide⟩ sample_returns
  refine ⟨_, ρ, run, by decide, (ends.high 0).trans (by decide), ?_⟩
  exact ((ends.represents 2 (by decide)).highRegs 0).trans (by decide)

end Samples

end ArielOS.CortexM
