import ArielOS.Threads.Kernel

namespace ArielOS

/-- State of a mutex. `ownerPrio` is the priority of the owner without priority inheritance. -/
inductive LockState
  | unlocked
  | locked (ownerId ownerPrio : Nat) (waiters : ThreadList)
  deriving DecidableEq, Repr

namespace LockState

variable (cpu : Cpu) (s : Scheduler)

def lockedWithCurrent : Except Fault LockState := do
  let current ← s.expectCurrent cpu
  return .locked current.tid current.prio .new

def isLocked : LockState → Bool
  | .unlocked => false
  | .locked .. => true

/-- The owner inherits the priority of a waiter that became the first one. -/
def inheritPrio (ownerId ownerPrio : Nat) : Option Nat → Except Fault Scheduler
  | some waiterPrio => if ownerPrio < waiterPrio then s.setPriority cpu ownerId waiterPrio else .ok s
  | none => .ok s

/-- The critical section of `Mutex::lock`; what follows it is only the return of the guard. -/
def lock : LockState → Except Fault (LockState × Scheduler)
  | .unlocked => do return (← lockedWithCurrent cpu s, s)
  | .locked ownerId ownerPrio waiters => do
    let (waiters, s, inherit) ← waiters.putCurrent cpu s .lockBlocked
    return (.locked ownerId ownerPrio waiters, ← inheritPrio cpu s ownerId ownerPrio inherit)

/-- `Mutex::try_lock`; true if it returns a guard. -/
def tryLock : LockState → Except Fault (LockState × Bool)
  | .unlocked => do return (← lockedWithCurrent cpu s, true)
  | state => return (state, false)

def release : LockState → Except Fault (LockState × Scheduler)
  | .unlocked => return (.unlocked, s)
  | .locked ownerId ownerPrio waiters => do
    let s ← s.setPriority cpu ownerId ownerPrio
    let (waiters, s, popped) ← waiters.pop cpu s
    match popped with
    | some (tid, _) => return (.locked tid (← s.getUnchecked tid).prio waiters, s)
    | none => return (.unlocked, s)

def owner : LockState → Option Nat
  | .unlocked => none
  | .locked ownerId _ _ => some ownerId

def waiters : LockState → ThreadList
  | .unlocked => .new
  | .locked _ _ waiters => waiters

end LockState

/-- A single core with any number of mutexes. `locking` is the mutex whose `lock` a thread has called
    and not returned from, `guards` are the guards that threads hold. -/
structure LockSystem where
  scheduler : Scheduler
  mutexes : Nat → LockState
  locking : Nat → Option Nat
  guards : List (Nat × Nat)

inductive LockEvent
  | op (o : Op)
  | lock (m : Nat)
  | lockReturn
  | tryLock (m : Nat)
  | drop (m : Nat)

namespace LockSystem

def new : LockSystem where
  scheduler := .new .singleCore
  mutexes := fun _ => .unlocked
  locking := fun _ => none
  guards := []

variable (cpu : Cpu) (sys : LockSystem)

/-- The thread that is executed, if it is not inside of `lock`. -/
def caller : Option Nat :=
  (sys.scheduler.executing cpu).filter fun t => sys.locking t = none

/-- A thread function that returns has dropped its guards. -/
def mayBlock (o : Op) : Bool :=
  match sys.caller cpu, o with
  | some t, .exit => sys.guards.all fun guard => guard.1 ≠ t
  | some _, _ => true
  | none, _ => false

def setMutex (m : Nat) (state : LockState) (scheduler : Scheduler) : LockSystem :=
  { sys with mutexes := Function.update sys.mutexes m state, scheduler }

def step (e : LockEvent) (sys : LockSystem) : Except Fault LockSystem :=
  let cpu : Cpu := ⟨.singleCore, 0⟩
  match e with
  | .op o =>
    if o.blocking ∧ ¬ sys.mayBlock cpu o then
      .error .disabled
    else do
      return { sys with scheduler := ← o.run cpu sys.scheduler }
  | .lock m =>
    match sys.caller cpu with
    | none => .error .disabled
    | some t => do
      let (state, s) ← (sys.mutexes m).lock cpu sys.scheduler
      return { sys.setMutex m state s with locking := Function.update sys.locking t (some m) }
  | .lockReturn =>
    match sys.scheduler.executing cpu with
    | none => .error .disabled
    | some t =>
      match sys.locking t with
      | none => .error .disabled
      | some m => .ok { sys with
          locking := Function.update sys.locking t none
          guards := (t, m) :: sys.guards }
  | .tryLock m =>
    match sys.caller cpu with
    | none => .error .disabled
    | some t => do
      let (state, acquired) ← (sys.mutexes m).tryLock cpu sys.scheduler
      return { sys.setMutex m state sys.scheduler with
        guards := if acquired then (t, m) :: sys.guards else sys.guards }
  | .drop m =>
    match sys.caller cpu with
    | none => .error .disabled
    | some t =>
      if (t, m) ∈ sys.guards then do
        let (state, s) ← (sys.mutexes m).release cpu sys.scheduler
        return { sys.setMutex m state s with guards := sys.guards.erase (t, m) }
      else
        .error .disabled

end LockSystem

end ArielOS
