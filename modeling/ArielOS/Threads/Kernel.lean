import ArielOS.Threads.ThreadList
import ArielOS.Threads.Timeout

namespace ArielOS

namespace Scheduler

variable (cpu : Cpu) (s : Scheduler)

/-- One critical section of the loop of `sched`; true if the loop ends with it. -/
def schedOnce : Except Fault (Scheduler × Bool) := do
  let s ←
    match cpu.config with
    | .singleCore => pure s
    | .multiCore .. => s.addCurrentThreadToRq cpu
  let (s, next) ← s.getNextTid cpu
  match next with
  | none =>
    match cpu.config with
    | .singleCore => return (s, false)
    | .multiCore .. => throw .unreachableCode
  | some nextTid =>
    if s.currentTid cpu = some nextTid then
      return (s, true)
    return ({ s with
      currentThreads := Function.update s.currentThreads cpu.coreId (some nextTid) }, true)

/-- `handle_fifo_token` for the next token in the FIFO. -/
def handleFifoToken : Except Fault Scheduler :=
  if s.requests.tokens cpu.coreId = 0 then
    .error .disabled
  else
    .ok (schedule cpu { s with requests := s.requests.takeToken cpu.coreId })

def enterPendsv : Except Fault Scheduler :=
  if s.requests.pendsv cpu.coreId ∧ ¬ s.requests.active cpu.coreId then
    .ok { s with requests := s.requests.enter cpu.coreId }
  else
    .error .disabled

def sched : Except Fault Scheduler := do
  if ¬ s.requests.active cpu.coreId then
    throw .disabled
  let (s, done) ← s.schedOnce cpu
  return if done then { s with requests := s.requests.leave cpu.coreId } else s

/-- `Cpu::start_threading` on a core that runs no thread yet. -/
def startThreading : Except Fault Scheduler :=
  if s.currentTid cpu = none then .ok (s.schedule cpu) else .error .disabled

end Scheduler

/-- The operations of the scheduler, its timers and its interrupts that one core executes. -/
inductive Op
  | create (stackStart stackLen prio : Nat) (affinity : Option CoreAffinity)
  | exit
  | park
  | unpark (tid : Nat)
  | setPriority (tid prio : Nat)
  | yieldSame
  | flagSet (tid : Nat) (mask : ThreadFlags)
  | flagWaitAll (mask : ThreadFlags)
  | flagWaitAny (mask : ThreadFlags)
  | flagWaitOne (mask : ThreadFlags)
  | flagClear (mask : ThreadFlags)
  | sleepUntil (deadline : Nat) (expired : List (Nat × Nat))
  | wake (tid now : Nat)
  | startThreading
  | fifoToken
  | enterPendsv
  | sched

namespace Op

/-- What can block the current thread, and so is left to the code of threads. -/
def blocking : Op → Bool
  | .exit | .park | .flagWaitAll _ | .flagWaitAny _ | .flagWaitOne _ | .sleepUntil .. => true
  | _ => false

def starts : Op → Bool
  | .startThreading => true
  | _ => false

def run (cpu : Cpu) (s : Scheduler) : Op → Except Fault Scheduler
  | .create stackStart stackLen prio affinity => do
    return (← s.createRaw cpu stackStart stackLen prio affinity).1
  | .exit => s.cleanup cpu
  | .park => s.park cpu
  | .unpark tid => do return (← s.unpark cpu tid).1
  | .setPriority tid prio => s.setPriority cpu tid prio
  | .yieldSame => s.yieldSame cpu
  | .flagSet tid mask => s.flagSet cpu tid mask
  | .flagWaitAll mask => do return (← s.flagWaitAll cpu mask).1
  | .flagWaitAny mask => do return (← s.flagWaitAny cpu mask).1
  | .flagWaitOne mask => do return (← s.flagWaitOne cpu mask).1
  | .flagClear mask => do return (← s.flagClear cpu mask).1
  | .sleepUntil deadline expired => s.sleepUntil cpu deadline expired
  | .wake tid now => s.wake cpu tid now
  | .startThreading => s.startThreading cpu
  | .fifoToken => s.handleFifoToken cpu
  | .enterPendsv => s.enterPendsv cpu
  | .sched => s.sched cpu

end Op

/-- The current thread, while its code is being executed: PendSV has the lowest priority of the
    interrupts, so a thread does not continue before an outstanding invocation is served. -/
def Scheduler.executing (cpu : Cpu) (s : Scheduler) : Option Nat :=
  if s.requests.pendsv cpu.coreId ∨ s.requests.active cpu.coreId then none else s.currentTid cpu

theorem Scheduler.executing_own {cpu : Cpu} {s : Scheduler} {t : Nat}
    (executes : s.executing cpu = some t) : s.currentTid cpu = some t := by
  unfold executing at executes
  split at executes
  · cases executes
  · exact executes

end ArielOS
