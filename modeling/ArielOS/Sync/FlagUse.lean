import ArielOS.Sync.WaitQueue
import ArielOS.Threads.FlagSystem

namespace ArielOS

def threadFlagWaker : ThreadFlags := 1

/-- Whose calls change the flags of threads. -/
inductive FlagUser
  | application
  | blockOn
  | timeout
  deriving DecidableEq

/-- What a thread is inside of: the loop of a wait for flags, or a timed wait between its critical
    sections. -/
inductive FlagCall
  | wait (user : FlagUser) (wait : FlagWait) (mask : ThreadFlags)
  | timedWait (queue : Nat)

/-- Threads that use flags, timeouts and `block_on`. -/
structure FlagUseSystem where
  scheduler : Scheduler
  queues : Nat → ThreadList
  calls : Nat → Option FlagCall
  /-- The calls of `block_on` that each thread is inside of, one in the future of the other. -/
  blockOns : Nat → Nat
  /-- The threads that `block_on` made wakers for. They can be called at any time. -/
  wakers : List Nat
  /-- What happened to the flags, beginning with what happened last. -/
  log : List (FlagUser × FlagRecord)

inductive FlagUseEvent
  | op (o : Op)
  | set (tid : Nat) (mask : ThreadFlags)
  | wait (wait : FlagWait) (mask : ThreadFlags)
  | waitAgain
  | clear (mask : ThreadFlags)
  | sleepUntil (deadline : Nat) (expired : List (Nat × Nat))
  | queueWait (self : Nat)
  | waitUntilWithCheck (self : Nat) (check : Bool) (deadline : Nat) (expired : List (Nat × Nat))
  | resume (expired : List (Nat × Nat))
  | notifyOne (self : Nat)
  | notifyAll (self : Nat)
  | timer (tid now : Nat)
  | blockOn
  | pending
  | ready
  | wakeBlocked (tid : Nat)

namespace Scheduler

variable (cpu : Cpu) (s : Scheduler)

/-- What the timers do to the flags when the time driver calls their wakers. -/
def timerRecords : List (Nat × Nat) → Scheduler → List (FlagUser × FlagRecord)
  | [], _ => []
  | (tid, now) :: expired, s =>
    match s.wake cpu tid now with
    | .ok s' =>
      timerRecords expired s' ++
        if s.timerDue tid now then [(.timeout, .set tid threadFlagTimeout)] else []
    | .error _ => []

/-- What `set_deadline` does to the flags. -/
def setDeadlineRecords (tid deadline : Nat) (expired : List (Nat × Nat)) :
    List (FlagUser × FlagRecord) :=
  match s.armDeadline cpu deadline with
  | .ok s' => timerRecords cpu expired s' ++ [(.timeout, .cleared tid threadFlagTimeout)]
  | .error _ => []

/-- What `clear_deadline` does to the flags. -/
def clearDeadlineRecords (tid : Nat) (expired : List (Nat × Nat)) : List (FlagUser × FlagRecord) :=
  if (s.threads tid).deadline.isSome then
    timerRecords cpu expired (s.setThread tid { s.threads tid with deadline := none })
  else
    []

end Scheduler

namespace FlagUseSystem

def new (config : Config) : FlagUseSystem where
  scheduler := .new config
  queues _ := .new
  calls _ := none
  blockOns _ := 0
  wakers := []
  log := []

variable (cpu : Cpu) (sys : FlagUseSystem)

/-- The thread that is executed, if it is not inside of a wait. -/
def caller : Option Nat :=
  (sys.scheduler.executing cpu).filter fun t => (sys.calls t).isNone

def setCall (t : Nat) (call : Option FlagCall) : FlagUseSystem :=
  { sys with calls := Function.update sys.calls t call }

/-- One iteration of the loop of a wait. -/
def iterate (t : Nat) (user : FlagUser) (wait : FlagWait) (mask : ThreadFlags) :
    Except Fault FlagUseSystem := do
  match ← wait.once cpu sys.scheduler mask with
  | (s, some flags) =>
    return { sys.setCall t none with
      scheduler := s
      log := (user, .returned t wait mask flags) :: sys.log }
  | (s, none) => return { sys.setCall t (some (.wait user wait mask)) with scheduler := s }

/-- A critical section on the wait queue at `self`. -/
def onQueue (self : Nat)
    (run : Cpu → ThreadList → Scheduler → Except Fault (ThreadList × Scheduler)) :
    Except Fault FlagUseSystem := do
  let (waiters, s) ← run cpu (sys.queues self) sys.scheduler
  return { sys with scheduler := s, queues := Function.update sys.queues self waiters }

/-- One critical section of one core, or a thread that enters or leaves `block_on`. A poll of the
    future of `block_on` is whatever the thread does meanwhile. -/
def step (config : Config) (e : Nat × FlagUseEvent) (sys : FlagUseSystem) :
    Except Fault FlagUseSystem :=
  let cpu : Cpu := ⟨config, e.1⟩
  if e.1 < config.coreCount then
    match e.2 with
    | .op o =>
      if ¬ o.sparesFlags ∨ o.blocking ∧ (sys.caller cpu).isNone then
        .error .disabled
      else do
        return { sys with scheduler := ← o.run cpu sys.scheduler }
    | .set tid mask => do
      return { sys with
        scheduler := ← sys.scheduler.flagSet cpu tid mask
        log := (.application, .set tid mask) :: sys.log }
    | .wait wait mask =>
      match sys.caller cpu with
      | none => .error .disabled
      | some t => sys.iterate cpu t .application wait mask
    | .waitAgain =>
      match sys.scheduler.executing cpu with
      | none => .error .disabled
      | some t =>
        match sys.calls t with
        | some (.wait user wait mask) => sys.iterate cpu t user wait mask
        | _ => .error .disabled
    | .clear mask =>
      match sys.caller cpu with
      | none => .error .disabled
      | some t => do
        let (s, _) ← sys.scheduler.flagClear cpu mask
        return { sys with scheduler := s, log := (.application, .cleared t mask) :: sys.log }
    | .sleepUntil deadline expired =>
      match sys.caller cpu with
      | none => .error .disabled
      | some t => do
        return { sys with
          scheduler := ← sys.scheduler.sleepUntil cpu deadline expired
          log := sys.scheduler.setDeadlineRecords cpu t deadline expired ++ sys.log }
    | .queueWait self =>
      match sys.caller cpu with
      | none => .error .disabled
      | some _ => sys.onQueue cpu self WaitQueue.wait
    -- `wait_until` checks nothing, so that its first check fails
    | .waitUntilWithCheck self check deadline expired =>
      match sys.caller cpu with
      | none => .error .disabled
      | some t => do
        let (waiters, s, waits) ←
          WaitQueue.waitUntilWithCheck cpu (sys.queues self) sys.scheduler check deadline expired
        return { sys.setCall t (if waits then some (.timedWait self) else none) with
          scheduler := s
          queues := Function.update sys.queues self waiters
          log :=
            if check then sys.log
            else sys.scheduler.setDeadlineRecords cpu t deadline expired ++ sys.log }
    | .resume expired =>
      match sys.scheduler.executing cpu with
      | none => .error .disabled
      | some t =>
        match sys.calls t with
        | some (.timedWait self) => do
          let (waiters, s, _) ←
            WaitQueue.waitUntilResume cpu (sys.queues self) sys.scheduler expired
          return { sys.setCall t none with
            scheduler := s
            queues := Function.update sys.queues self waiters
            log := sys.scheduler.clearDeadlineRecords cpu t expired ++ sys.log }
        | _ => .error .disabled
    | .notifyOne self => sys.onQueue cpu self WaitQueue.notifyOne
    | .notifyAll self => sys.onQueue cpu self WaitQueue.notifyAll
    | .timer tid now => do
      return { sys with
        scheduler := ← sys.scheduler.wake cpu tid now
        log := sys.scheduler.timerRecords cpu [(tid, now)] ++ sys.log }
    | .blockOn =>
      match sys.caller cpu with
      | none => .error .disabled
      | some t =>
        return { sys with
          blockOns := Function.update sys.blockOns t (sys.blockOns t + 1)
          wakers := t :: sys.wakers }
    | .pending =>
      match sys.caller cpu with
      | none => .error .disabled
      | some t =>
        if 0 < sys.blockOns t then sys.iterate cpu t .blockOn .any threadFlagWaker
        else .error .disabled
    | .ready =>
      match sys.caller cpu with
      | none => .error .disabled
      | some t =>
        if 0 < sys.blockOns t then
          return { sys with blockOns := Function.update sys.blockOns t (sys.blockOns t - 1) }
        else
          .error .disabled
    | .wakeBlocked tid =>
      if tid ∈ sys.wakers then do
        return { sys with
          scheduler := ← sys.scheduler.flagSet cpu tid threadFlagWaker
          log := (.blockOn, .set tid threadFlagWaker) :: sys.log }
      else
        .error .disabled
  else
    .error .disabled

end FlagUseSystem

end ArielOS
