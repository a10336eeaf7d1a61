import ArielOS.Lib.WordMemory

namespace Rv32

open WordMemory

/-- The registers but for `zero`. -/
inductive Reg
  | ra | sp | gp | tp | t0 | t1 | t2 | s0 | s1 | a0 | a1 | a2 | a3 | a4 | a5 | a6 | a7
  | s2 | s3 | s4 | s5 | s6 | s7 | s8 | s9 | s10 | s11 | t3 | t4 | t5 | t6
  deriving DecidableEq, Repr

inductive Csr
  | mstatus
  | mepc
  deriving DecidableEq, Repr

structure State where
  core : Reg → Word
  csr : Csr → Word
  memory : Word → Word

inductive Instr (ς : Type)
  | addi (d s : Reg) (imm : Word)
  | lw (d : Reg) (offset : Nat) (base : Reg)
  | sw (s : Reg) (offset : Nat) (base : Reg)
  | la (d : Reg) (symbol : ς)
  | csrw (c : Csr) (s : Reg)

inductive Line (ℓ ς : Type)
  | instr (i : Instr ς)
  | label (l : ℓ)
  | beqz (s : Reg) (l : ℓ)
  | mret

variable {ℓ ς : Type} (address : ς → Word)

def State.setReg (σ : State) (d : Reg) (value : Word) : State :=
  { σ with core := Function.update σ.core d value }

@[simp] theorem State.setReg_self (σ : State) (d : Reg) (value : Word) :
    (σ.setReg d value).core d = value :=
  Function.update_self ..

@[simp] theorem State.setReg_setReg (σ : State) (d : Reg) (v w : Word) :
    (σ.setReg d v).setReg d w = σ.setReg d w := by
  unfold setReg
  dsimp only
  rw [Function.update_idem]

def Instr.run (σ : State) : Instr ς → Option State
  | addi d s imm => some (σ.setReg d (σ.core s + imm))
  | lw d offset base =>
    let a := σ.core base + BitVec.ofNat 32 offset
    if Aligned a then some (σ.setReg d (σ.memory a)) else none
  | sw s offset base =>
    let a := σ.core base + BitVec.ofNat 32 offset
    if Aligned a then some { σ with memory := Function.update σ.memory a (σ.core s) } else none
  | la d symbol => some (σ.setReg d (address symbol))
  | csrw c s => some { σ with csr := Function.update σ.csr c (σ.core s) }

/-- Runs code up to its `mret`. Branches lead forward. -/
def run [DecidableEq ℓ] : List (Line ℓ ς) → Option ℓ → State → Option State
  | [], _, _ => none
  | .label l :: code, some target, σ => run code (if l = target then none else some target) σ
  | _ :: code, some target, σ => run code (some target) σ
  | .label _ :: code, none, σ => run code none σ
  | .instr i :: code, none, σ => (i.run address σ).bind (run code none)
  | .beqz s l :: code, none, σ => run code (if σ.core s = 0 then some l else none) σ
  | .mret :: _, none, σ => some σ

/-- Instructions without a branch. -/
def runBlock (σ : State) : List (Instr ς) → Option State
  | [] => some σ
  | i :: block => (i.run address σ).bind fun τ => runBlock τ block

variable {address}

theorem run_block [DecidableEq ℓ] (block : List (Instr ς)) (code : List (Line ℓ ς)) (σ : State) :
    run address (block.map .instr ++ code) none σ =
      (runBlock address σ block).bind (run address code none) := by
  induction block generalizing σ with
  | nil => rfl
  | cons i block ih =>
    show (i.run address σ).bind _ = ((i.run address σ).bind _).bind _
    rw [Option.bind_assoc]
    congr 1
    funext τ
    exact ih τ

/-- A branch passes them. -/
theorem run_passed [DecidableEq ℓ] (block : List (Instr ς)) (code : List (Line ℓ ς)) (target : ℓ)
    (σ : State) :
    run address (block.map .instr ++ code) (some target) σ = run address code (some target) σ := by
  induction block with
  | nil => rfl
  | cons i block ih => exact ih

theorem runBlock_append (left right : List (Instr ς)) (σ : State) :
    runBlock address σ (left ++ right) =
      (runBlock address σ left).bind fun τ => runBlock address τ right := by
  induction left generalizing σ with
  | nil => rfl
  | cons i left ih =>
    show (i.run address σ).bind _ = ((i.run address σ).bind _).bind _
    rw [Option.bind_assoc]
    congr 1
    funext τ
    exact ih τ

theorem runBlock_lw {σ : State} {d base : Reg} {p : Word} {i : Nat} (here : σ.core base = p)
    (aligned : Aligned p) (block : List (Instr ς)) :
    runBlock address σ (.lw d (4 * i) base :: block) =
      runBlock address (σ.setReg d (σ.memory (offset p i))) block := by
  subst here
  have word : Aligned (σ.core base + BitVec.ofNat 32 (4 * i)) := aligned.offset i
  rw [runBlock, Instr.run, if_pos word]
  rfl

def stores (base : Reg) (places : List (Reg × Nat)) : List (Instr ς) :=
  places.map fun p => .sw p.1 (4 * p.2) base

def loads (base : Reg) (places : List (Reg × Nat)) : List (Instr ς) :=
  places.map fun p => .lw p.1 (4 * p.2) base

variable (address) in
theorem run_stores (σ : State) (base : Reg) (aligned : Aligned (σ.core base))
    (places : List (Reg × Nat)) : runBlock address σ (stores base places) =
      some { σ with
        memory := storeAt σ.memory (σ.core base) (places.map fun p => (σ.core p.1, p.2)) } := by
  induction places generalizing σ with
  | nil => rfl
  | cons p places ih =>
    have here : Aligned (σ.core base + BitVec.ofNat 32 (4 * p.2)) := aligned.offset p.2
    show Option.bind (if _ then _ else _) _ = _
    rw [if_pos here]
    exact ih _ aligned

theorem run_loads {σ : State} {base : Reg} (aligned : Aligned (σ.core base))
    (places : List (Reg × Nat)) (kept : base ∉ places.map Prod.fst) :
    runBlock address σ (loads base places) =
      some { σ with core := loadAt σ.memory σ.core (σ.core base) places } := by
  induction places generalizing σ with
  | nil => rfl
  | cons p places ih =>
    rw [List.map_cons, List.mem_cons, not_or] at kept
    have same : (σ.setReg p.1 (σ.memory (offset (σ.core base) p.2))).core base = σ.core base :=
      Function.update_of_ne kept.1 _ _
    have next := ih (σ := σ.setReg p.1 (σ.memory (offset (σ.core base) p.2)))
      (by rw [same]; exact aligned) kept.2
    rw [same] at next
    exact (runBlock_lw rfl aligned _).trans next

end Rv32
