import ArielOS.Threads.Arch.CortexM
import ArielOS.Threads.Moves
import ArielOS.Threads.SlotReuse

namespace ArielOS.CortexM

open Machine Scheduler

/-- Where a core is in the PendSV handler: the handler goes on after `sched` has left its critical
    section. -/
inductive Phase
  | thread
  | saving (current next : Nat)
  | loading (next : Nat)
  deriving DecidableEq

/-- The thread that a core in the handler switches from, while its registers are not saved. -/
def Phase.current : Phase → Option Nat
  | .saving t _ => some t
  | _ => none

/-- The thread that a core in the handler switches to. -/
def Phase.next : Phase → Option Nat
  | .thread => none
  | .saving _ u | .loading u => some u

/-- The registers that the code of a thread last left behind. -/
inductive Own
  | unused
  | fresh (stackLowest stackHighest : Nat)
  | ran (r : Registers)

/-- The cores with their registers and the `ThreadData` of the threads. `own` and `left`, the
    EXC_RETURN value with which a thread of a slot was last switched out, are not part of the
    program's state. -/
structure Switching where
  system : System
  data : Nat → ThreadData
  registers : Nat → Registers
  phase : Nat → Phase
  own : Nat → Own
  left : Nat → Option WordMemory.Word

/-- A step of a core. -/
inductive Action
  | code (r : Registers)
  | event (e : Event)
  | sched
  | save
  | load

/-- A thread that runs for the first time begins with these registers. -/
def Own.started (first : Registers) : Own → Own
  | .ran r => .ran r
  | _ => .ran first

def Own.hasRun : Own → Bool
  | .ran _ => true
  | _ => false

/-- Without an FPU, every exception of a thread is entered with the same value. -/
def Registers.Possible (v : Variant) (r : Registers) : Prop :=
  v.eabihf = false → r.excReturn = excReturnThreadNoFpu

instance (v : Variant) (r : Registers) : Decidable (r.Possible v) :=
  inferInstanceAs (Decidable (_ → _))

namespace Switching

variable (v : Variant) (config : Config)

def new (r : Nat → Registers) : Switching where
  system := .new config
  data := fun _ => defaultThreadData
  registers := r
  phase := fun _ => .thread
  own := fun _ => .unused
  left := fun _ => none

def currentThreads (sys : Switching) : Nat → Option Nat := sys.system.scheduler.currentThreads

/-- `setup_stack` for the thread that the event created. -/
def setupNew (e : Event) (system : System) (sys : Switching) : Switching :=
  match e.creates, sys.system.scheduler.getUnused with
  | true, some t =>
    let thread := system.scheduler.threads t
    { sys with
      system
      data := Function.update sys.data t
        { sys.data t with sp := BitVec.ofNat 32 (thread.stackHighest - 32) }
      own := Function.update sys.own t (.fresh thread.stackLowest thread.stackHighest) }
  | _, _ => { sys with system }

/-- What `sched` does in its critical section besides changing the current thread. -/
def exchange (core : Nat) (before after : Option Nat) (sys : Switching) : Switching :=
  let r := sys.registers core
  match before, after with
  | some t, some u =>
    if t = u then
      { sys with
        registers := Function.update sys.registers core (Outcome.registers v r sys.data .continues) }
    else
      { sys with
        data := Function.update sys.data t { sys.data t with sp := r.psp }
        registers := Function.update sys.registers core { r with psp := (sys.data u).sp }
        phase := Function.update sys.phase core (.saving t u) }
  | none, some u =>
    let r := { Outcome.registers v r sys.data (.starts u) with psp := (sys.data u).sp }
    { sys with
      registers := Function.update sys.registers core r
      own := Function.update sys.own u ((sys.own u).started r) }
  | _, none => sys

/-- The thread whose code the core executes. -/
def executing (core : Nat) (sys : Switching) : Option Nat :=
  if sys.phase core = .thread then sys.system.scheduler.executing ⟨config, core⟩ else none

def step (i : Nat × Action) (sys : Switching) : Except Fault Switching :=
  let core := i.1
  let r := sys.registers core
  match i.2 with
  | .code r =>
    match sys.executing config core with
    | some t =>
      if r.Possible v then
        .ok { sys with
          registers := Function.update sys.registers core r
          own := Function.update sys.own t (.ran r) }
      else
        .error .disabled
    | none => .error .disabled
  | .event e =>
    if e.isSched ∨ ((e.blocking ∨ e.entersPendsv) ∧ sys.phase core ≠ .thread) then
      .error .disabled
    else do
      return setupNew e (← System.step config (core, e) sys.system) sys
  | .sched =>
    if sys.phase core ≠ .thread then
      .error .disabled
    else do
      let system ← System.step config (core, .op .sched) sys.system
      let after := system.scheduler.currentThreads core
      return exchange v core (sys.currentThreads core) after { sys with system }
  | .save =>
    match sys.phase core with
    | .saving t u =>
      .ok { sys with
        data := Function.update sys.data t (r.save v (sys.data t))
        phase := Function.update sys.phase core (.loading u)
        left := Function.update sys.left t (some r.excReturn) }
    | _ => .error .disabled
  | .load =>
    match sys.phase core with
    | .loading u =>
      let r := r.restore v (sys.data u)
      .ok { sys with
        registers := Function.update sys.registers core r
        phase := Function.update sys.phase core .thread
        own := Function.update sys.own u ((sys.own u).started r) }
    | _ => .error .disabled

end Switching

end ArielOS.CortexM
