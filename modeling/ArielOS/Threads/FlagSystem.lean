import ArielOS.Threads.Kernel

namespace ArielOS

/-- The functions of `thread_flags` that wait. -/
inductive FlagWait
  | all
  | any
  | one
  deriving DecidableEq

/-- What happened to the flags of a thread. -/
inductive FlagRecord
  | set (tid : Nat) (mask : ThreadFlags)
  | returned (tid : Nat) (wait : FlagWait) (mask flags : ThreadFlags)
  | cleared (tid : Nat) (mask : ThreadFlags)
  deriving DecidableEq

/-- Threads that use flags. `waits` are the calls that have not returned, with their masks, and `log`
    begins with what happened last. -/
structure FlagSystem where
  scheduler : Scheduler
  waits : Nat → Option (FlagWait × ThreadFlags)
  log : List FlagRecord

inductive FlagEvent
  | op (o : Op)
  | set (tid : Nat) (mask : ThreadFlags)
  | wait (wait : FlagWait) (mask : ThreadFlags)
  | waitAgain
  | clear (mask : ThreadFlags)

/-- The operations that neither belong to the flags nor to the timers, which use a flag of their own. -/
def Op.sparesFlags : Op → Bool
  | .flagSet .. | .flagWaitAll _ | .flagWaitAny _ | .flagWaitOne _ | .flagClear _
  | .sleepUntil .. | .wake .. => false
  | _ => true

/-- One iteration of the loop of a wait. -/
def FlagWait.once (cpu : Cpu) (s : Scheduler) (mask : ThreadFlags) :
    FlagWait → Except Fault (Scheduler × Option ThreadFlags)
  | .all => s.flagWaitAll cpu mask
  | .any => s.flagWaitAny cpu mask
  | .one => s.flagWaitOne cpu mask

namespace FlagSystem

def new (config : Config) : FlagSystem where
  scheduler := .new config
  waits := fun _ => none
  log := []

variable (cpu : Cpu) (sys : FlagSystem)

/-- The thread that is executed, if it is not inside of a wait. -/
def caller : Option Nat :=
  (sys.scheduler.executing cpu).filter fun t => (sys.waits t).isNone

/-- The executed thread returns with flags or goes on waiting. -/
def iterate (t : Nat) (wait : FlagWait) (mask : ThreadFlags) : Except Fault FlagSystem := do
  match ← wait.once cpu sys.scheduler mask with
  | (s, some flags) =>
    return {
      scheduler := s
      waits := Function.update sys.waits t none
      log := .returned t wait mask flags :: sys.log }
  | (s, none) =>
    return { sys with scheduler := s, waits := Function.update sys.waits t (some (wait, mask)) }

/-- One critical section of one core. Flags are set by threads and interrupts alike. -/
def step (config : Config) (e : Nat × FlagEvent) (sys : FlagSystem) : Except Fault FlagSystem :=
  let cpu : Cpu := ⟨config, e.1⟩
  if e.1 < config.coreCount then
    match e.2 with
    | .op o =>
      if ¬ o.sparesFlags ∨ o.blocking ∧ (sys.caller cpu).isNone then
        .error .disabled
      else do
        return { sys with scheduler := ← o.run cpu sys.scheduler }
    | .set tid mask => do
      return { sys with
        scheduler := ← sys.scheduler.flagSet cpu tid mask
        log := .set tid mask :: sys.log }
    | .wait wait mask =>
      match sys.caller cpu with
      | none => .error .disabled
      | some t => sys.iterate cpu t wait mask
    | .waitAgain =>
      match sys.scheduler.executing cpu with
      | none => .error .disabled
      | some t =>
        match sys.waits t with
        | none => .error .disabled
        | some (wait, mask) => sys.iterate cpu t wait mask
    | .clear mask =>
      match sys.scheduler.currentTid cpu with
      | none => .error .noThreadContext
      | some t => do
        let (s, _) ← sys.scheduler.flagClear cpu mask
        return { sys with scheduler := s, log := .cleared t mask :: sys.log }
  else
    .error .disabled

end FlagSystem

end ArielOS
