import ArielOS.Sync.WaitQueue
import ArielOS.Threads.Kernel

namespace ArielOS

/-- The scheduler with the wait lists of any number of resources, and the threads that
    `setup_idle_threads` created. -/
structure System where
  scheduler : Scheduler
  lists : Nat → ThreadList
  idleThreads : List Nat

inductive Event
  | op (o : Op)
  | setupIdleThread (stackStart stackLen : Nat)
  | putCurrent (list : Nat) (state : ThreadState)
  | pop (list : Nat)
  | waitUntil (list deadline : Nat) (expired : List (Nat × Nat))
  | waitUntilResume (list : Nat) (expired : List (Nat × Nat))

/-- The states in which threads wait in a list. -/
def ThreadState.inList : ThreadState → Bool
  | .lockBlocked | .channelRxBlocked _ | .channelTxBlocked _ | .waitQueueBlocked => true
  | _ => false

def Config.idleThreads : Config → Nat
  | .singleCore => 0
  | .multiCore chip _ => chip.cores

namespace System

def new (config : Config) : System where
  scheduler := .new config
  lists := fun _ => .new
  idleThreads := []

def setList (sys : System) (list : Nat) (waiters : ThreadList) (scheduler : Scheduler) : System :=
  { sys with lists := Function.update sys.lists list waiters, scheduler }

end System

namespace Event

def blocking : Event → Bool
  | .op o => o.blocking
  | .putCurrent .. | .waitUntil .. | .waitUntilResume .. => true
  | _ => false

def run (cpu : Cpu) (sys : System) : Event → Except Fault System
  | .op o =>
    if o.starts ∧ sys.idleThreads.length ≠ cpu.config.idleThreads then
      .error .disabled
    else do
      return { sys with scheduler := ← o.run cpu sys.scheduler }
  | .setupIdleThread stackStart stackLen =>
    if sys.idleThreads.length = cpu.config.idleThreads then
      .error .disabled
    else do
      let (scheduler, tid) ← sys.scheduler.createRaw cpu stackStart stackLen 0 none
      return { sys with scheduler, idleThreads := tid :: sys.idleThreads }
  | .putCurrent list state =>
    if state.inList then do
      let (waiters, s, _) ← (sys.lists list).putCurrent cpu sys.scheduler state
      return sys.setList list waiters s
    else
      .error .disabled
  | .pop list => do
    let (waiters, s, _) ← (sys.lists list).pop cpu sys.scheduler
    return sys.setList list waiters s
  | .waitUntil list deadline expired => do
    let (waiters, s, _) ← WaitQueue.waitUntil cpu (sys.lists list) sys.scheduler deadline expired
    return sys.setList list waiters s
  | .waitUntilResume list expired => do
    let (waiters, s, _) ← WaitQueue.waitUntilResume cpu (sys.lists list) sys.scheduler expired
    return sys.setList list waiters s

end Event

/-- The thread whose code the core may execute now. -/
def System.mayBlock (cpu : Cpu) (sys : System) : Bool :=
  match sys.scheduler.executing cpu with
  | some tid => tid ∉ sys.idleThreads
  | none => false

/-- One critical section of one core. Threads other than the idle threads may block. -/
def System.step (config : Config) (e : Nat × Event) (sys : System) : Except Fault System :=
  let cpu : Cpu := ⟨config, e.1⟩
  if e.1 < config.coreCount ∧ (e.2.blocking → sys.mayBlock cpu) then
    e.2.run cpu sys
  else
    .error .disabled

end ArielOS
