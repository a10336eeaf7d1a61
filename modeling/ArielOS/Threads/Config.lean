import ArielOS.Threads.Thread

namespace ArielOS

/-- Outstanding scheduler invocations: a core's PendSV exception is pending or active, or a
    schedule token is in the FIFO towards the core. -/
structure Requests where
  pendsv : Nat → Bool
  active : Nat → Bool
  tokens : Nat → Nat

namespace Requests

def none : Requests where
  pendsv := fun _ => false
  active := fun _ => false
  tokens := fun _ => 0

/-- `Cpu::schedule` on this core. -/
def pend (r : Requests) (core : Nat) : Requests :=
  { r with pendsv := Function.update r.pendsv core true }

def sendToken (r : Requests) (core : Nat) : Requests :=
  { r with tokens := Function.update r.tokens core (r.tokens core + 1) }

def takeToken (r : Requests) (core : Nat) : Requests :=
  { r with tokens := Function.update r.tokens core (r.tokens core - 1) }

/-- Entering and leaving the PendSV handler. -/
def enter (r : Requests) (core : Nat) : Requests :=
  { r with
    pendsv := Function.update r.pendsv core false
    active := Function.update r.active core true }

def leave (r : Requests) (core : Nat) : Requests :=
  { r with active := Function.update r.active core false }

end Requests

/-- What a multi-core chip provides: `scheduleOnCore own id` is executed on core `own`. -/
structure Chip where
  cores : Nat
  scheduleOnCore : Nat → Nat → Requests → Requests
  atLeastOne : 0 < cores
  fitMask : cores < 8

namespace Rp

inductive Model
  | rp2040
  | rp235x
  deriving DecidableEq

def Model.fifoDepth : Model → Nat
  | .rp2040 => 8
  | .rp235x => 4

variable (model : Model)

def scheduleOtherCore (own : Nat) (r : Requests) : Requests :=
  let other := 1 - own
  if r.tokens other < model.fifoDepth then r.sendToken other else r

def schedule (own : Nat) (r : Requests) : Requests :=
  if r.pendsv own then scheduleOtherCore model own r else r.pend own

def scheduleOnCore (own id : Nat) (r : Requests) : Requests :=
  if id = own then schedule model own r else scheduleOtherCore model own r

def chip : Chip where
  cores := 2
  scheduleOnCore := scheduleOnCore model
  atLeastOne := by decide
  fitMask := by decide

end Rp

/-- The features `single-core`, `multi-core` and `core-affinity`. -/
inductive Config
  | singleCore
  | multiCore (chip : Chip) (coreAffinity : Bool)

def Config.coreCount : Config → Nat
  | .singleCore => 1
  | .multiCore chip _ => chip.cores

/-- The core that executes a function. -/
structure Cpu where
  config : Config
  coreId : Nat

end ArielOS
