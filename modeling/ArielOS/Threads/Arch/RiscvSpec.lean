import ArielOS.Threads.Arch.Riscv
import ArielOS.Threads.Scheduler

namespace ArielOS.Riscv

open Rv32 WordMemory

variable {σ κ τ : State} {address : Symbol → Word} {p : Word}

/-- The registers that are in the block that `sys_switch` saves first, second, and so on. -/
def firstPlaces : List (Reg × Nat) := [(.ra, 0), (.gp, 2), (.tp, 3)]

def secondPlaces : List (Reg × Nat) := [(.t0, 4), (.t1, 5), (.t2, 6), (.s0, 7), (.s1, 8)]

def lastPlaces : List (Reg × Nat) :=
  [(.a2, 11), (.a3, 12), (.a4, 13), (.a5, 14), (.a6, 15), (.a7, 16), (.s2, 17), (.s3, 18),
    (.s4, 19), (.s5, 20), (.s6, 21), (.s7, 22), (.s8, 23), (.s9, 24), (.s10, 25), (.s11, 26),
    (.t3, 27), (.t4, 28), (.t5, 29), (.t6, 30)]

/-- The registers that are loaded with a1 as the base. -/
def restoredPlaces : List (Reg × Nat) :=
  [(.ra, 0), (.sp, 1), (.gp, 2), (.tp, 3), (.t0, 4), (.t1, 5), (.t2, 6), (.s0, 7), (.s1, 8),
    (.a0, 9)] ++ lastPlaces

section Code

open Instr

def enterCode : List (Instr Symbol) :=
  [addi .sp .sp (-0x10), sw .a0 0 .sp, sw .a1 4 .sp, sw .t0 8 .sp, la .a0 .currentCtxPtr,
    lw .a0 0 .a0]

def saveCode : List (Instr Symbol) :=
  stores .a0 firstPlaces ++ lw .t0 8 .sp :: (stores .a0 secondPlaces ++ lw .t0 0 .sp ::
    (stores .a0 [(.t0, 9)] ++ lw .t0 4 .sp :: (stores .a0 ((.t0, 10) :: lastPlaces) ++
      addi .t0 .sp 0x10 :: stores .a0 [(.t0, 1)])))

def restoreCode : List (Instr Symbol) :=
  [la .a1 .nextCtxPtr, lw .a1 0 .a1, lw .t0 (31*4) .a1, csrw .mstatus .t0, lw .t0 (32*4) .a1,
    csrw .mepc .t0] ++ (loads .a1 restoredPlaces ++ [lw .a1 (10*4) .a1])

theorem sysSwitch_eq : sysSwitch = enterCode.map .instr ++ .beqz .a0 .restore ::
    (saveCode.map .instr ++ .label .restore :: (restoreCode.map .instr ++ [.mret])) := rfl

end Code

/-- Where the `ThreadData` of each thread lies. -/
abbrev Layout := Blocks threadCount 33

/-- The memory holds this `ThreadData` at the address. -/
structure Holds (memory : Word → Word) (p : Word) (d : ThreadData) : Prop where
  core : ∀ r, memory (offset p (index r)) = d.core r
  mstatus : memory (offset p 31) = d.mstatus
  mepc : memory (offset p 32) = d.mepc

def Layout.Represents (layout : Layout) (memory : Word → Word) (data : Nat → ThreadData) : Prop :=
  ∀ t < threadCount, Holds memory (layout.start t) (data t)

theorem index_lt (r : Reg) : index r < 31 := by
  cases r <;> decide

theorem Holds.congr {memory memory' : Word → Word} {d : ThreadData} (holds : Holds memory p d)
    (same : ∀ i < 33, memory' (offset p i) = memory (offset p i)) : Holds memory' p d where
  core := fun r => (same _ (by have := index_lt r; omega)).trans (holds.core r)
  mstatus := (same 31 (by decide)).trans holds.mstatus
  mepc := (same 32 (by decide)).trans holds.mepc

/-- The words below the stack pointer that `sys_switch` uses. -/
def scratch (σ : State) : Word := σ.core .sp + (-0x10)

section Enter

/-- What `sys_switch` does before it saves. -/
structure Entered (address : Symbol → Word) (σ κ : State) : Prop where
  a0 : κ.core .a0 = σ.memory (address .currentCtxPtr)
  sp : κ.core .sp = scratch σ
  others : ∀ r, r ≠ .a0 → r ≠ .sp → κ.core r = σ.core r
  memory : κ.memory = storeAt σ.memory (scratch σ) [(σ.core .a0, 0), (σ.core .a1, 1), (σ.core .t0, 2)]
  csr : κ.csr = σ.csr

/-- Only the three words on the stack change. -/
theorem stacked_of_ne {memory : Word → Word} {x a : Word} {u v w : Word}
    (apart : ∀ i < 3, x ≠ offset a i) : storeAt memory a [(u, 0), (v, 1), (w, 2)] x = memory x := by
  apply storeAt_of_ne
  intro q member
  have below : q.2 < 3 := by
    simp only [List.mem_cons, List.not_mem_nil, or_false] at member
    rcases member with rfl | rfl | rfl
    all_goals dsimp only; decide
  exact apart q.2 below

theorem enters (aligned : Aligned (scratch σ)) (pointer : Aligned (address .currentCtxPtr))
    (apart : ∀ i < 3, address .currentCtxPtr ≠ offset (scratch σ) i) :
    ∃ κ, runBlock address σ enterCode = some κ ∧ Entered address σ κ := by
  let memory := storeAt σ.memory (scratch σ) [(σ.core .a0, 0), (σ.core .a1, 1), (σ.core .t0, 2)]
  have unchanged : memory (address .currentCtxPtr) = σ.memory (address .currentCtxPtr) :=
    stacked_of_ne apart
  let κ : State :=
    { σ with
      core := Function.update (Function.update σ.core .sp (scratch σ)) .a0
        (σ.memory (address .currentCtxPtr))
      memory }
  refine ⟨κ, ?_, rfl, rfl, ?_, rfl, rfl⟩
  · have stored := run_stores address (σ.setReg .sp (scratch σ)) .sp aligned
      [(.a0, 0), (.a1, 1), (.t0, 2)]
    have code : enterCode = .addi .sp .sp (-0x10) :: (stores .sp [(.a0, 0), (.a1, 1), (.t0, 2)] ++
        [.la .a0 .currentCtxPtr, .lw .a0 0 .a0]) := rfl
    rw [code, runBlock, Instr.run, Option.bind_some, runBlock_append, ← scratch, stored]
    have here : storeAt σ.memory (scratch σ) [(σ.core .a0, 0), (σ.core .a1, 1), (σ.core .t0, 2)] =
      memory := rfl
    simp [runBlock, Instr.run, State.setReg, pointer, here, unchanged, κ]
  · intro r notA0 notSp
    show Function.update _ _ _ r = _
    rw [Function.update_of_ne notA0, Function.update_of_ne notSp]

end Enter

section Save

variable (entered : Entered address σ κ) (aligned : Aligned (κ.core .a0))
  (scratchAligned : Aligned (scratch σ))
  (apart : ∀ i < 3, ∀ j < 33, offset (scratch σ) i ≠ offset (κ.core .a0) j)

/-- While the registers are saved, t0 takes their values. -/
def saving (κ : State) (t0 : Word) (places : List (Word × Nat)) : State :=
  { κ with
    core := Function.update κ.core .t0 t0
    memory := storeAt κ.memory (κ.core .a0) places }

def Below (places : List (Word × Nat)) : Prop := ∀ q ∈ places, q.2 < 31

include aligned in
theorem save_stores (t0 : Word) (done : List (Word × Nat)) (places : List (Reg × Nat))
    (block : List (Instr Symbol)) :
    runBlock address (saving κ t0 done) (stores .a0 places ++ block) =
      runBlock address (saving κ t0 (done ++ places.map fun q =>
        (Function.update κ.core .t0 t0 q.1, q.2))) block := by
  have stored := run_stores address (saving κ t0 done) .a0 aligned places
  rw [runBlock_append, stored, Option.bind_some]
  unfold saving
  rw [storeAt_append]
  rfl

include entered scratchAligned apart in
theorem save_reload {t0 w : Word} {done : List (Word × Nat)} {i : Nat} (below : Below done)
    (word : (w, i) ∈ [(σ.core .a0, 0), (σ.core .a1, 1), (σ.core .t0, 2)])
    (block : List (Instr Symbol)) :
    runBlock address (saving κ t0 done) (.lw .t0 (4 * i) .sp :: block) =
      runBlock address (saving κ w done) block := by
  have small : i < 3 := by
    simp only [List.mem_cons, Prod.mk.injEq, List.not_mem_nil, or_false] at word
    omega
  have base : (saving κ t0 done).core .sp = scratch σ := entered.sp
  have value : (saving κ t0 done).memory (offset (scratch σ) i) = w := by
    show storeAt κ.memory (κ.core .a0) done _ = w
    rw [storeAt_of_ne fun q member => apart i small q.2 (by have := below q member; omega),
      entered.memory]
    have nodup : [0, 1, 2].Nodup := by decide
    refine storeAt_mem nodup ?_ word
    intro q member
    simp only [List.mem_cons, List.not_mem_nil, or_false] at member
    rcases member with rfl | rfl | rfl
    all_goals dsimp only; decide
  rw [runBlock_lw base scratchAligned, value]
  unfold saving State.setReg
  dsimp only
  rw [Function.update_idem]

/-- What is saved, in order. -/
def savedWords (σ : State) : List (Word × Nat) :=
  firstPlaces.map (fun q => (σ.core q.1, q.2)) ++ secondPlaces.map (fun q => (σ.core q.1, q.2)) ++
    [(σ.core .a0, 9)] ++ ((σ.core .a1, 10) :: lastPlaces.map fun q => (σ.core q.1, q.2)) ++
    [(σ.core .sp, 1)]

theorem savedWords_index (σ : State) (r : Reg) : (σ.core r, index r) ∈ savedWords σ := by
  cases r <;> simp [savedWords, firstPlaces, secondPlaces, lastPlaces, index]

theorem savedWords_snd (σ : State) : (savedWords σ).map Prod.snd =
    [0, 2, 3, 4, 5, 6, 7, 8, 9, 10, 11, 12, 13, 14, 15, 16, 17, 18, 19, 20, 21, 22, 23, 24, 25, 26,
      27, 28, 29, 30, 1] := rfl

theorem savedWords_below (σ : State) : Below (savedWords σ) := by
  intro q member
  have listed := List.mem_map_of_mem (f := Prod.snd) member
  rw [savedWords_snd] at listed
  have all : ∀ i ∈ [0, 2, 3, 4, 5, 6, 7, 8, 9, 10, 11, 12, 13, 14, 15, 16, 17, 18, 19, 20, 21, 22, 23,
    24, 25, 26, 27, 28, 29, 30, 1], i < 31 := by decide
  exact all q.2 listed

include entered aligned scratchAligned apart in
theorem saves : runBlock address κ saveCode = some (saving κ (σ.core .sp) (savedWords σ)) := by
  have starts : κ = saving κ (κ.core .t0) [] := by
    unfold saving
    rw [Function.update_eq_self]
    rfl
  have others := entered.others
  have t0 : κ.core .t0 = σ.core .t0 := others .t0 (by decide) (by decide)
  have first : ∀ v, firstPlaces.map (fun q => (Function.update κ.core .t0 v q.1, q.2)) =
      firstPlaces.map fun q => (σ.core q.1, q.2) := by
    intro v
    simp [firstPlaces, others]
  have second : secondPlaces.map (fun q => (Function.update κ.core .t0 (σ.core .t0) q.1, q.2)) =
      secondPlaces.map fun q => (σ.core q.1, q.2) := by
    simp [secondPlaces, others]
  have last : ∀ v, lastPlaces.map (fun q => (Function.update κ.core .t0 v q.1, q.2)) =
      lastPlaces.map fun q => (σ.core q.1, q.2) := by
    intro v
    simp [lastPlaces, others]
  rw [saveCode]
  conv =>
    lhs
    rw [starts]
  rw [save_stores aligned, first, save_reload (i := 2) entered scratchAligned apart
    (w := σ.core .t0) (by simp [Below, firstPlaces]) (by simp)]
  rw [save_stores aligned, second, save_reload (i := 0) entered scratchAligned apart
    (w := σ.core .a0) (by simp [Below, firstPlaces, secondPlaces]) (by simp)]
  rw [save_stores aligned, save_reload (i := 1) entered scratchAligned apart
    (w := σ.core .a1) (by simp [Below, firstPlaces, secondPlaces]) (by simp)]
  rw [save_stores aligned]
  simp only [List.map_cons, List.map_nil, Function.update_self, List.nil_append]
  rw [last]
  have frees : scratch σ + 0x10 = σ.core .sp := by
    unfold scratch
    rw [BitVec.add_assoc]
    exact BitVec.add_zero _
  have top : ∀ v done, (saving κ v done).setReg .t0 ((saving κ v done).core .sp + 0x10) =
      saving κ (σ.core .sp) done := by
    intro v done
    have sp : (saving κ v done).core .sp = scratch σ := entered.sp
    rw [sp, frees]
    unfold saving State.setReg
    dsimp only
    rw [Function.update_idem]
  rw [runBlock, Instr.run, Option.bind_some, top, ← List.append_nil (stores _ _),
    save_stores aligned]
  simp only [List.map_cons, List.map_nil, Function.update_self]
  rfl

end Save

section Restore

/-- The state when `sys_switch` leaves, for the `ThreadData` at the address. -/
structure Restored (τ ρ : State) (d : ThreadData) : Prop where
  core : ρ.core = d.core
  mstatus : ρ.csr .mstatus = d.mstatus
  mepc : ρ.csr .mepc = d.mepc
  memory : ρ.memory = τ.memory

theorem restoredPlaces_index (r : Reg) (other : r ≠ .a1) : (r, index r) ∈ restoredPlaces := by
  cases r with
  | a1 => exact absurd rfl other
  | _ => decide

theorem restores {d : ThreadData} (pointer : Aligned (address .nextCtxPtr))
    (next : τ.memory (address .nextCtxPtr) = p) (aligned : Aligned p) (holds : Holds τ.memory p d) :
    ∃ ρ, runBlock address τ restoreCode = some ρ ∧ Restored τ ρ d := by
  let τ₁ : State :=
    { τ with
      core := Function.update (Function.update τ.core .a1 p) .t0 d.mepc
      csr := Function.update (Function.update τ.csr .mstatus d.mstatus) .mepc d.mepc }
  let τ₂ : State := { τ₁ with core := loadAt τ.memory τ₁.core p restoredPlaces }
  have first : runBlock address τ restoreCode =
      runBlock address τ₁ (loads .a1 restoredPlaces ++ [.lw .a1 (4 * 10) .a1]) := by
    have code : restoreCode = .la .a1 .nextCtxPtr :: .lw .a1 (4 * 0) .a1 :: .lw .t0 (4 * 31) .a1 ::
        .csrw .mstatus .t0 :: .lw .t0 (4 * 32) .a1 :: .csrw .mepc .t0 ::
        (loads .a1 restoredPlaces ++ [.lw .a1 (4 * 10) .a1]) := rfl
    have pointed : (τ.setReg .a1 (address .nextCtxPtr)).memory (address .nextCtxPtr) = p := next
    have mstatus : (τ.setReg .a1 p).memory (offset p 31) = d.mstatus := holds.mstatus
    have mepc : τ.memory (offset p 32) = d.mepc := holds.mepc
    rw [code, runBlock, Instr.run, Option.bind_some, runBlock_lw (State.setReg_self ..) pointer,
      offset_zero, pointed, State.setReg_setReg, runBlock_lw (State.setReg_self ..) aligned, mstatus,
      runBlock, Instr.run, Option.bind_some, State.setReg_self]
    let masked : State := (τ.setReg .a1 p).setReg .t0 d.mstatus
    let written : State := { masked with csr := Function.update τ.csr .mstatus d.mstatus }
    have base : written.core .a1 = p := rfl
    refine (runBlock_lw (σ := written) base aligned _).trans ?_
    rw [runBlock, Instr.run, Option.bind_some, State.setReg_self]
    unfold State.setReg
    dsimp only [written, masked]
    unfold State.setReg
    dsimp only
    rw [mepc, Function.update_idem]
  have kept : τ₂.core .a1 = p := loadAt_of_notMem (by decide)
  have loaded : runBlock address τ₁ (loads .a1 restoredPlaces) = some τ₂ :=
    run_loads aligned restoredPlaces (by decide)
  refine ⟨τ₂.setReg .a1 (d.core .a1), ?_, ?_, rfl, rfl, rfl⟩
  · have word : τ₂.memory (offset p 10) = d.core .a1 := holds.core .a1
    rw [first, runBlock_append, loaded, Option.bind_some, runBlock_lw kept aligned, word]
    rfl
  · funext r
    show Function.update τ₂.core .a1 (d.core .a1) r = d.core r
    by_cases same : r = .a1
    · subst same
      exact Function.update_self ..
    · rw [Function.update_of_ne same]
      exact (loadAt_mem (by decide) (restoredPlaces_index r same)).trans (holds.core r)

end Restore

section SysSwitch

/-- What the pointers of `sched` lead to, and what lies apart from what. -/
structure Called (layout : Layout) (address : Symbol → Word) (switch : Switch) (σ : State) :
    Prop where
  current : σ.memory (address .currentCtxPtr) = switch.current.elim 0 layout.start
  next : σ.memory (address .nextCtxPtr) = layout.start switch.next
  next_lt : switch.next < threadCount
  current_lt : ∀ t ∈ switch.current, t < threadCount
  differ : switch.current ≠ some switch.next
  pointers : ∀ s, Aligned (address s)
  stack : Aligned (scratch σ)
  pointers_stack : ∀ s, ∀ i < 3, address s ≠ offset (scratch σ) i
  pointers_blocks : ∀ s, ∀ t < threadCount, ∀ j < 33, address s ≠ offset (layout.start t) j
  stack_blocks : ∀ i < 3, ∀ t < threadCount, ∀ j < 33,
    offset (scratch σ) i ≠ offset (layout.start t) j

/-- What `sys_switch` has done. -/
structure Left (layout : Layout) (switch : Switch) (r : Registers) (data : Nat → ThreadData)
    (σ ρ : State) : Prop where
  represents : layout.Represents ρ.memory (switch.data r data)
  core : ρ.core = (switch.registers r data).core
  mstatus : ρ.csr .mstatus = (switch.registers r data).mstatus
  mepc : ρ.csr .mepc = (switch.registers r data).mepc
  frame : ∀ x, (∀ i < 3, x ≠ offset (scratch σ) i) →
    (∀ t ∈ switch.current, ∀ j < 31, x ≠ offset (layout.start t) j) → ρ.memory x = σ.memory x

variable {layout : Layout} {switch : Switch} {r : Registers} {data : Nat → ThreadData}

theorem Switch.scheduled_core (t : Nat) : (switch.scheduled r data t).core = (data t).core := by
  unfold Switch.scheduled
  cases switch.current with
  | none => grind
  | some u => grind

/-- No code has written the `ThreadData` of the next thread since `sched`. -/
theorem Switch.data_next (differ : switch.current ≠ some switch.next) :
    switch.data r data switch.next = { data switch.next with mstatus := r.mstatus } := by
  unfold Switch.data Switch.scheduled
  cases current : switch.current with
  | none => exact Function.update_self ..
  | some t =>
    have other : switch.next ≠ t := by
      rintro rfl
      exact differ current
    dsimp only
    rw [Function.update_of_ne other, Function.update_self, Function.update_of_ne other]

theorem Entered.frame (entered : Entered address σ κ) {x : Word}
    (apart : ∀ i < 3, x ≠ offset (scratch σ) i) : κ.memory x = σ.memory x := by
  rw [entered.memory]
  exact stacked_of_ne apart

theorem saving_of_ne {t0 x : Word} (apart : ∀ j < 31, x ≠ offset (κ.core .a0) j) :
    (saving κ t0 (savedWords σ)).memory x = κ.memory x :=
  storeAt_of_ne fun q member => apart q.2 (savedWords_below σ q member)

theorem saving_holds {d : ThreadData} {t0 : Word} (holds : Holds κ.memory (κ.core .a0) d) :
    Holds (saving κ t0 (savedWords σ)).memory (κ.core .a0) { d with core := σ.core } where
  core := by
    intro r
    refine storeAt_mem ?_ ?_ (savedWords_index σ r)
    · rw [savedWords_snd]
      decide
    · intro q member
      have := savedWords_below σ q member
      omega
  mstatus := by
    rw [saving_of_ne, holds.mstatus]
    intro j small same
    have := offset_inj (by decide) (by omega) same
    omega
  mepc := by
    rw [saving_of_ne, holds.mepc]
    intro j small same
    have := offset_inj (by decide) (by omega) same
    omega

/-- The code behind the label. -/
theorem finishes (called : Called layout address switch σ)
    (next : τ.memory (address .nextCtxPtr) = layout.start switch.next)
    (represents : layout.Represents τ.memory (switch.data r data))
    (frame : ∀ x, (∀ i < 3, x ≠ offset (scratch σ) i) →
      (∀ t ∈ switch.current, ∀ j < 31, x ≠ offset (layout.start t) j) → τ.memory x = σ.memory x) :
    ∃ ρ, run address (restoreCode.map .instr ++ [Line.mret (ℓ := Label)]) none τ = some ρ ∧
      Left layout switch r data σ ρ := by
  have holds := represents switch.next called.next_lt
  rw [Switch.data_next called.differ] at holds
  obtain ⟨ρ, ran, restored⟩ :=
    restores (called.pointers .nextCtxPtr) next (layout.aligned switch.next) holds
  refine ⟨ρ, ?_, ?_, restored.core, restored.mstatus, restored.mepc, ?_⟩
  · rw [run_block, ran]
    rfl
  · rw [restored.memory]
    exact represents
  · rw [restored.memory]
    exact frame

/-- A thread is switched from, so its registers are saved. -/
theorem finishes_saved {t : Nat} (called : Called layout address switch σ)
    (current : switch.current = some t) (core : σ.core = r.core)
    (represents : layout.Represents σ.memory (switch.scheduled r data))
    (entered : Entered address σ κ) (a0 : κ.core .a0 = layout.start t) :
    ∃ ρ, run address (restoreCode.map .instr ++ [Line.mret (ℓ := Label)]) none
        (saving κ (σ.core .sp) (savedWords σ)) = some ρ ∧
      Left layout switch r data σ ρ := by
  have ht : t < threadCount := called.current_lt t current
  have data_eq : switch.data r data = Function.update (switch.scheduled r data) t
      { switch.scheduled r data t with core := σ.core } := by
    unfold Switch.data
    rw [current, core]
  have kept : ∀ s < threadCount, Holds κ.memory (layout.start s) (switch.scheduled r data s) := by
    intro s bound
    apply (represents s bound).congr
    intro j small
    exact entered.frame fun i inside => (called.stack_blocks i inside s bound j small).symm
  apply finishes called
  · rw [saving_of_ne, entered.frame (called.pointers_stack .nextCtxPtr), called.next]
    intro j small
    rw [a0]
    exact called.pointers_blocks _ t ht j (by omega)
  · rw [data_eq]
    intro s bound
    by_cases same : s = t
    · subst same
      rw [Function.update_self, ← a0]
      exact saving_holds (a0 ▸ kept s bound)
    · rw [Function.update_of_ne same]
      apply (kept s bound).congr
      intro j small
      apply saving_of_ne
      intro i inside
      rw [a0]
      exact layout.apart bound ht same small (by omega)
  · intro x offStack offCurrent
    rw [saving_of_ne, entered.frame offStack]
    rw [a0]
    exact offCurrent t current

theorem sys_switch_ends (layout : Layout) (switch : Switch) (r : Registers)
    (data : Nat → ThreadData) (σ : State) (called : Called layout address switch σ)
    (core : σ.core = r.core) (represents : layout.Represents σ.memory (switch.scheduled r data)) :
    ∃ ρ, run address sysSwitch none σ = some ρ ∧ Left layout switch r data σ ρ := by
  obtain ⟨κ, ran, entered⟩ := enters called.stack (called.pointers .currentCtxPtr)
    (called.pointers_stack .currentCtxPtr)
  have a0 : κ.core .a0 = switch.current.elim 0 layout.start := entered.a0.trans called.current
  rw [sysSwitch_eq, run_block, ran, Option.bind_some]
  cases current : switch.current with
  | none =>
    rw [current] at a0
    have null : κ.core .a0 = 0#32 := a0
    have data_eq : switch.data r data = switch.scheduled r data := by
      unfold Switch.data
      rw [current]
    show ∃ ρ, run _ _ (if κ.core .a0 = 0#32 then _ else _) κ = _ ∧ _
    rw [if_pos null, run_passed]
    apply finishes called
    · rw [entered.frame (called.pointers_stack .nextCtxPtr), called.next]
    · rw [data_eq]
      intro s bound
      apply (represents s bound).congr
      intro j small
      exact entered.frame fun i inside => (called.stack_blocks i inside s bound j small).symm
    · exact fun x offStack _ => entered.frame offStack
  | some t =>
    rw [current] at a0
    have ht : t < threadCount := called.current_lt t current
    have notNull : κ.core .a0 ≠ 0#32 := by
      rw [a0, ← offset_zero (Option.elim _ _ _)]
      exact layout.nonNull ht (by decide)
    have saved := saves entered (a0 ▸ layout.aligned t) called.stack fun i inside j small => by
      rw [a0]
      exact called.stack_blocks i inside t ht j small
    show ∃ ρ, run _ _ (if κ.core .a0 = 0#32 then _ else _) κ = _ ∧ _
    rw [if_neg notNull, run_block, saved, Option.bind_some]
    exact finishes_saved called current core represents entered a0

/-- Sixteen threads of 256 bytes each. -/
def sampleLayout : Layout :=
  .array 0x3000 64 (by decide) (by decide) (by decide) (by decide)

def sampleAddress : Symbol → Word
  | .currentCtxPtr => 0x1000
  | .nextCtxPtr => 0x1004

/-- `sched` switches from thread 2 to thread 5. Each other word of the memory is its own address. -/
def sampleState : State where
  core := fun r => if r = .sp then 0x8000 else 44
  csr := fun _ => 0
  memory := fun x =>
    if x = 0x1000 then 0x3200 else if x = 0x1004 then 0x3500 else if x = 0x3280 then 0x400
    else if x = 0x357C then 0x1880 else x

def sampleData (t : Nat) : ThreadData where
  core := fun r => offset (sampleLayout.start t) (index r)
  mstatus := offset (sampleLayout.start t) 31
  mepc := offset (sampleLayout.start t) 32

theorem sample_called : Called sampleLayout sampleAddress ⟨some 2, 5⟩ sampleState where
  current := by decide
  next := by decide
  next_lt := by decide
  current_lt := by
    rintro t ⟨⟩
    decide
  differ := by decide
  pointers := by
    intro s
    cases s <;> decide
  stack := by decide
  pointers_stack := by
    intro s
    cases s <;> decide
  pointers_blocks := by
    intro s
    cases s <;> decide +kernel
  stack_blocks := by decide +kernel

theorem sys_switch_ends_sample : ∃ ρ,
    run sampleAddress sysSwitch none sampleState = some ρ ∧ ρ.core .ra = 0x3500 ∧
      ρ.csr .mepc = 0x3580 ∧ ρ.csr .mstatus = 0x1880 ∧ ρ.memory 0x3200 = 44 := by
  have represents : sampleLayout.Represents sampleState.memory
      (Switch.scheduled ⟨some 2, 5⟩ ⟨sampleState.core, 0x1880, 0x400⟩ sampleData) := by
    have core : ∀ t < threadCount, ∀ i < 31, sampleState.memory (offset (sampleLayout.start t) i) =
        offset (sampleLayout.start t) i := by
      decide +kernel
    intro t bound
    refine ⟨fun r => ?_, ?_, ?_⟩
    · rw [Switch.scheduled_core, core t bound _ (index_lt r)]
      rfl
    · revert t
      decide +kernel
    · revert t
      decide +kernel
  obtain ⟨ρ, ran, left⟩ := sys_switch_ends sampleLayout ⟨some 2, 5⟩
    ⟨sampleState.core, 0x1880, 0x400⟩ sampleData sampleState sample_called rfl represents
  refine ⟨ρ, ran, ?_, left.mepc, left.mstatus, ?_⟩
  · rw [left.core]
    decide
  · exact ((left.represents 2 (by decide)).core .ra).trans (by decide)

end SysSwitch

section SetupStack

theorem and_mask (x : Word) : (x &&& 0xFFFFFFE0#32).toNat = x.toNat / 32 * 32 := by
  have bits : ∀ i < 32, (0xFFFFFFE0#32).getLsbD i = decide (5 ≤ i) := by decide
  have shifted : x &&& 0xFFFFFFE0#32 = (x >>> 5) <<< 5 := by
    apply BitVec.eq_of_getLsbD_eq
    intro i bound
    rw [BitVec.getLsbD_and, bits i bound, BitVec.getLsbD_shiftLeft, BitVec.getLsbD_ushiftRight]
    by_cases low : i < 5
    · have above : ¬ 5 ≤ i := by omega
      simp [low, above]
    · have above : 5 ≤ i := by omega
      have back : 5 + (i - 5) = i := by omega
      simp [low, above, bound, back]
  rw [shifted, BitVec.toNat_shiftLeft, BitVec.toNat_ushiftRight, Nat.shiftLeft_eq,
    Nat.shiftRight_eq_div_pow]
  omega

/-- A stack that holds at least 31 bytes contains the stack pointer of the new thread. -/
theorem setupStack_sp (d : ThreadData) {stackStart stackLen : Word} (cleanup func : Word)
    (arg : Option Word) (room : 31 ≤ stackLen.toNat)
    (fits : stackStart.toNat + stackLen.toNat < 2 ^ 32) :
    let sp := ((setupStack d stackStart stackLen cleanup func arg).core .sp).toNat
    sp % 32 = 0 ∧ stackStart.toNat ≤ sp ∧ sp ≤ stackStart.toNat + stackLen.toNat := by
  have sp_eq : (setupStack d stackStart stackLen cleanup func arg).core .sp =
      (stackStart + stackLen) &&& 0xFFFFFFE0#32 := rfl
  have value : ((setupStack d stackStart stackLen cleanup func arg).core .sp).toNat =
      (stackStart.toNat + stackLen.toNat) / 32 * 32 := by
    rw [sp_eq, and_mask, BitVec.toNat_add]
    omega
  intro sp
  omega

end SetupStack

end ArielOS.Riscv
