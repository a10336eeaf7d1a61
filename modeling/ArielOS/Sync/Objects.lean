import ArielOS.Sync.Channel
import ArielOS.Sync.Lock
import ArielOS.Sync.Mutex
import ArielOS.Sync.WaitQueue

namespace ArielOS

/-- What threads block on. The number of an object is its address. -/
inductive Object
  | mutex (state : LockState)
  | lock (state : Sync.LockState)
  | event (state : Sync.LockState)
  | channel (state : ChannelState)
  | waitQueue (waiters : ThreadList)

def Object.waiters : Object → ThreadList
  | .mutex state => state.waiters
  | .lock state | .event state => state.waiters
  | .channel state => state.waiters
  | .waitQueue waiters => waiters

/-- The states that the constructors of the objects return. -/
inductive Object.IsNew : Object → Prop
  | mutex : IsNew (.mutex .unlocked)
  | lock : IsNew (.lock Sync.Lock.new)
  | lockedLock : IsNew (.lock Sync.Lock.newLocked)
  | event : IsNew (.event Sync.Event.new)
  | setEvent : IsNew (.event Sync.Event.newSet)
  | channel : IsNew (.channel .idle)
  | waitQueue : IsNew (.waitQueue .new)

/-- The first critical section of each function of the objects. -/
inductive ObjectCall
  | lock
  | tryLock
  | unlock
  | acquire
  | tryAcquire
  | release
  | wait
  | clear
  | set
  | send (something : Nat)
  | trySend (something : Nat)
  | recv (res : Nat)
  | tryRecv (res : Nat)
  | queueWait
  | waitUntil (deadline : Nat) (expired : List (Nat × Nat))
  | waitUntilWithCheck (check : Bool) (deadline : Nat) (expired : List (Nat × Nat))
  | notifyOne
  | notifyAll

namespace ObjectCall

/-- What can block the current thread, and so is left to the code of threads. -/
def blocking : ObjectCall → Bool
  | .lock | .acquire | .wait | .send _ | .recv _ | .queueWait | .waitUntil ..
  | .waitUntilWithCheck .. => true
  | _ => false

/-- The deadline that the call sets, and the wakers that are called meanwhile. -/
def timer : ObjectCall → Option (Nat × List (Nat × Nat))
  | .waitUntil deadline expired | .waitUntilWithCheck false deadline expired =>
    some (deadline, expired)
  | _ => none

variable {V : Type} (cpu : Cpu) (s : Scheduler) (memory : Nat → V) (self : Nat)

/-- The call on the object at `self`; true if another critical section follows. -/
def run : ObjectCall → Object → Except Fault (Object × Scheduler × (Nat → V) × Bool)
  | .lock, .mutex state => do
    let (state, s) ← state.lock cpu s
    return (.mutex state, s, memory, false)
  | .tryLock, .mutex state => do
    let (state, _) ← state.tryLock cpu s
    return (.mutex state, s, memory, false)
  | .unlock, .mutex state => do
    let (state, s) ← state.release cpu s
    return (.mutex state, s, memory, false)
  | .acquire, .lock state => do
    let (state, s) ← Sync.Lock.acquire cpu s state
    return (.lock state, s, memory, false)
  | .tryAcquire, .lock state => return (.lock (Sync.Lock.tryAcquire state).1, s, memory, false)
  | .release, .lock state => do
    let (state, s) ← Sync.Lock.release cpu s state
    return (.lock state, s, memory, false)
  | .wait, .event state => do
    let (state, s) ← Sync.Event.wait cpu s state
    return (.event state, s, memory, false)
  | .clear, .event state => return (.event (Sync.Event.clear state).1, s, memory, false)
  | .set, .event state => do
    let (state, s) ← Sync.Event.set cpu s state
    return (.event state, s, memory, false)
  | .send something, .channel state => do
    let (state, s, memory) ← state.send cpu s memory self something
    return (.channel state, s, memory, false)
  | .trySend something, .channel state => do
    let (state, s, memory, _) ← state.trySend cpu s memory something
    return (.channel state, s, memory, false)
  | .recv res, .channel state => do
    let (state, s, memory) ← state.recv cpu s memory res
    return (.channel state, s, memory, false)
  | .tryRecv res, .channel state => do
    let (state, s, memory, _) ← state.tryRecv cpu s memory res
    return (.channel state, s, memory, false)
  | .queueWait, .waitQueue waiters => do
    let (waiters, s) ← WaitQueue.wait cpu waiters s
    return (.waitQueue waiters, s, memory, false)
  | .waitUntil deadline expired, .waitQueue waiters => do
    let (waiters, s, waits) ← WaitQueue.waitUntil cpu waiters s deadline expired
    return (.waitQueue waiters, s, memory, waits)
  | .waitUntilWithCheck check deadline expired, .waitQueue waiters => do
    let (waiters, s, waits) ← WaitQueue.waitUntilWithCheck cpu waiters s check deadline expired
    return (.waitQueue waiters, s, memory, waits)
  | .notifyOne, .waitQueue waiters => do
    let (waiters, s) ← WaitQueue.notifyOne cpu waiters s
    return (.waitQueue waiters, s, memory, false)
  | .notifyAll, .waitQueue waiters => do
    let (waiters, s) ← WaitQueue.notifyAll cpu waiters s
    return (.waitQueue waiters, s, memory, false)
  | _, _ => .error .disabled

end ObjectCall

/-- What a thread waits for in the call that it made last: nothing of these, the deadline of
    `sleep_until`, an object, or an object with a deadline. -/
inductive Pause
  | idle
  | sleep (deadline : Nat)
  | waits (object : Nat)
  | timedWait (object deadline : Nat)
  deriving DecidableEq, Repr

namespace Pause

def object : Pause → Option Nat
  | .waits object | .timedWait object _ => some object
  | _ => none

def deadline : Pause → Option Nat
  | .sleep deadline | .timedWait _ deadline => some deadline
  | _ => none

def isTimedWait : Pause → Bool
  | .timedWait .. => true
  | _ => false

end Pause

/-- The deadline that the operation sets, and the wakers that are called meanwhile. -/
def Op.timer : Op → Option (Nat × List (Nat × Nat))
  | .sleepUntil deadline expired => some (deadline, expired)
  | _ => none

def Op.pause : Op → Pause
  | .sleepUntil deadline _ => .sleep deadline
  | _ => .idle

def ObjectCall.pause (self : Nat) : ObjectCall → Pause
  | .waitUntil deadline _ | .waitUntilWithCheck _ deadline _ => .timedWait self deadline
  | _ => .waits self

/-- Any number of threads and objects on a single core. `pause` records what each thread waits for:
    it is not part of the program's state. -/
structure ObjectSystem (V : Type) where
  scheduler : Scheduler
  objects : Nat → Object
  memory : Nat → V
  pause : Nat → Pause

/-- `resume` is the second critical section of `wait_until` and of `wait_until_with_check`. -/
inductive ObjectEvent
  | op (o : Op)
  | call (self : Nat) (c : ObjectCall)
  | resume (expired : List (Nat × Nat))

/-- The wakers that are called in the critical section, and when. -/
def ObjectEvent.wakers : ObjectEvent → List (Nat × Nat)
  | .op (.wake t now) => [(t, now)]
  | .op o => (o.timer.map Prod.snd).getD []
  | .call _ c => (c.timer.map Prod.snd).getD []
  | .resume expired => expired

namespace ObjectSystem

variable {V : Type}

def new (objects : Nat → Object) (memory : Nat → V) : ObjectSystem V where
  scheduler := .new .singleCore
  objects := objects
  memory := memory
  pause := fun _ => .idle

variable (cpu : Cpu) (sys : ObjectSystem V)

def lists (m : Nat) : ThreadList := (sys.objects m).waiters

/-- The thread that is executed, if it is not between the critical sections of a timed wait. -/
def caller : Option Nat :=
  (sys.scheduler.executing cpu).filter fun t => !(sys.pause t).isTimedWait

def setObject (self : Nat) (object : Object) (scheduler : Scheduler) : ObjectSystem V :=
  { sys with objects := Function.update sys.objects self object, scheduler }

def setPause (t : Nat) (pause : Pause) : ObjectSystem V :=
  { sys with pause := Function.update sys.pause t pause }

def call (self : Nat) (c : ObjectCall) : Except Fault (ObjectSystem V × Bool) := do
  let (object, s, memory, more) ← c.run cpu sys.scheduler sys.memory self (sys.objects self)
  return ({ sys.setObject self object s with memory }, more)

/-- One critical section. Blocking ones are executed by threads, the others also by interrupts. -/
def step (e : ObjectEvent) (sys : ObjectSystem V) : Except Fault (ObjectSystem V) :=
  let cpu : Cpu := ⟨.singleCore, 0⟩
  match e with
  | .op o =>
    if o.blocking then
      match sys.caller cpu with
      | none => .error .disabled
      | some t => do
        let s ← o.run cpu sys.scheduler
        return { sys with scheduler := s }.setPause t o.pause
    else do
      return { sys with scheduler := ← o.run cpu sys.scheduler }
  | .call self c =>
    if c.blocking then
      match sys.caller cpu with
      | none => .error .disabled
      | some t => do
        let (sys, more) ← sys.call cpu self c
        -- a timed wait that returns at once leaves nothing to wait for
        return sys.setPause t (if more || !(c.pause self).isTimedWait then c.pause self else .idle)
    else do
      return (← sys.call cpu self c).1
  | .resume expired =>
    match sys.scheduler.executing cpu with
    | none => .error .disabled
    | some t =>
      match sys.pause t with
      | .timedWait self _ =>
        match sys.objects self with
        | .waitQueue waiters => do
          let (waiters, s, _) ← WaitQueue.waitUntilResume cpu waiters sys.scheduler expired
          return (sys.setObject self (.waitQueue waiters) s).setPause t .idle
        | _ => .error .disabled
      | _ => .error .disabled

end ObjectSystem

end ArielOS
