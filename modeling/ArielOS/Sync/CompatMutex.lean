import ArielOS.Sync.Semaphore

namespace ArielOS

/-- A task of `esp_radio_rtos_driver`, by the address of its pointer. -/
abbrev ThreadPtr := Nat

def threadIdToPtr (threadId : Nat) : ThreadPtr := threadId + 1

def threadPtrToId (p : ThreadPtr) : Nat := (p - 1) % 2 ^ 8

/-- `NonNull::dangling` of the type `()`, which has the alignment 1. -/
def danglingPtr : ThreadPtr := 1

/-- `SemaphoreInner::Mutex`. -/
structure MutexInner where
  recursive : Bool
  owner : Option ThreadPtr
  originalPriority : Nat
  lockCounter : Nat
  deriving DecidableEq

namespace MutexInner

/-- `task_priority`, which panics if there is no such thread. -/
def taskPriority (s : Scheduler) (p : ThreadPtr) : Except Fault Nat :=
  match s.getPriority (threadPtrToId p) with
  | some prio => .ok prio
  | none => .error .noThreadContext

variable (sem : MutexInner)

/-- The counter has 32 bits. -/
def lockAgain : MutexInner := { sem with lockCounter := (sem.lockCounter + 1) % 2 ^ 32 }

/-- `try_take`, with the task whose priority it sets and the priority. -/
def tryTake (s : Scheduler) (current : ThreadPtr) :
    Except Fault (MutexInner × Bool × Option (ThreadPtr × Nat)) :=
  match sem.owner with
  | some owner =>
    if owner = current ∧ sem.recursive then
      return (sem.lockAgain, true, none)
    else do
      let currentPriority ← taskPriority s current
      let ownerPriority ← taskPriority s owner
      return (sem, false, if ownerPriority < currentPriority then some (owner, currentPriority) else none)
  | none => do
    let originalPriority ← taskPriority s current
    return ({ sem.lockAgain with owner := some current, originalPriority }, true, none)

def tryTakeFromIsr : MutexInner × Bool :=
  match sem.owner with
  | some owner => if owner = danglingPtr ∧ sem.recursive then (sem.lockAgain, true) else (sem, false)
  | none => ({ sem.lockAgain with owner := some danglingPtr }, true)

/-- What `try_give` and `try_give_from_isr` do to the mutex. -/
def unlock (current : ThreadPtr) : MutexInner × Bool :=
  if sem.owner = some current ∧ 0 < sem.lockCounter then
    let lockCounter := sem.lockCounter - 1
    ({ sem with lockCounter, owner := if lockCounter = 0 then none else sem.owner }, true)
  else
    (sem, false)

/-- `try_give`, with the task whose priority it sets and the priority. -/
def tryGive (current : ThreadPtr) : MutexInner × Bool × Option (ThreadPtr × Nat) :=
  let (inner, given) := sem.unlock current
  (inner, given, if given ∧ inner.owner = none then some (current, sem.originalPriority) else none)

def tryGiveFromIsr : MutexInner × Bool := sem.unlock danglingPtr

end MutexInner

/-- Any number of threads and of semaphores of the kinds `Mutex` and `RecursiveMutex` on a single
    core. The wait queue of a mutex is the object at its address. `held`, the mutexes that a task took
    and has not given, the last one first, `notified` and `returns` are not part of the program's
    state. -/
structure CompatMutexes where
  system : ObjectSystem Unit
  inner : Nat → MutexInner
  calls : Nat → Option TakeCall
  held : ThreadPtr → List Nat
  notified : Nat → List Nat
  returns : List TakeReturn

namespace CompatMutexes

def new (recursive : Nat → Bool) : CompatMutexes where
  system := .new (fun _ => .waitQueue .new) fun _ => ()
  inner self := ⟨recursive self, none, 0, 0⟩
  calls _ := none
  held _ := []
  notified _ := []
  returns := []

variable (sys : CompatMutexes)

/-- `set_task_priority` where it is called. -/
def setTaskPriority (system : ObjectSystem Unit) :
    Option (ThreadPtr × Nat) → Except Fault (ObjectSystem Unit)
  | some (task, prio) => ObjectSystem.step (.op (.setPriority (threadPtrToId task) prio)) system
  | none => .ok system

/-- A task has taken the mutex. -/
def took (self : Nat) (task : ThreadPtr) (inner : MutexInner) : CompatMutexes :=
  { sys with
    inner := Function.update sys.inner self inner
    held := Function.update sys.held task (self :: sys.held task) }

/-- `try_take` by thread `t`, whose pointer `current_task` returns. -/
def take (t self : Nat) : Except Fault (CompatMutexes × Bool) := do
  let current := threadIdToPtr t
  let (inner, taken, raised) ← (sys.inner self).tryTake sys.system.scheduler current
  let system ← setTaskPriority sys.system raised
  let sys := { sys with system }
  return (if taken then sys.took self current inner else sys, taken)

/-- `try_take_from_isr`. -/
def takeFromIsr (self : Nat) : CompatMutexes :=
  match (sys.inner self).tryTakeFromIsr with
  | (inner, true) => sys.took self danglingPtr inner
  | (_, false) => sys

/-- A task has given the mutex, and one thread is notified. -/
def gave (self : Nat) (task : ThreadPtr) (inner : MutexInner) : Except Fault CompatMutexes := do
  let popped := (sys.system.lists self).head
  let system ← ObjectSystem.step (.call self .notifyOne) sys.system
  return { sys with
    system
    inner := Function.update sys.inner self inner
    held := Function.update sys.held task ((sys.held task).erase self)
    notified := Function.update sys.notified self (popped.toList ++ sys.notified self) }

/-- `give` by thread `t`. -/
def give (t self : Nat) : Except Fault CompatMutexes :=
  let current := threadIdToPtr t
  match (sys.inner self).tryGive current with
  | (inner, true, restored) => do
    let system ← setTaskPriority sys.system restored
    { sys with system }.gave self current inner
  | (_, false, _) => return sys

/-- `try_give_from_isr`. -/
def giveFromIsr (self : Nat) : Except Fault CompatMutexes :=
  match (sys.inner self).tryGiveFromIsr with
  | (inner, true) => sys.gave self danglingPtr inner
  | (_, false) => return sys

def setCall (t : Nat) (call : Option TakeCall) : CompatMutexes :=
  { sys with calls := Function.update sys.calls t call }

def finish (t : Nat) (call : TakeCall) (result : Bool) : CompatMutexes :=
  { sys.setCall t none with returns := ⟨t, result, call.taken⟩ :: sys.returns }

/-- What follows a check of a thread: it returns, or goes on behind the check. -/
def checked (t : Nat) (call : TakeCall) (next : TakePhase) : Bool → CompatMutexes
  | true => sys.finish t { call with taken := call.taken + 1 } true
  | false => sys.setCall t (some { call with phase := next })

/-- The first critical section of `wait_until_with_check`. -/
def firstCheck (fromMicros : Nat → Nat) (expired : List (Nat × Nat)) (t : Nat) (call : TakeCall) :
    Except Fault CompatMutexes := do
  let (sys, taken) ← sys.take t call.semaphore
  let deadline := fromMicros call.deadline
  let system ← ObjectSystem.step
    (.call call.semaphore (.waitUntilWithCheck taken deadline expired)) sys.system
  let waits := (system.pause t).isTimedWait
  return { sys with system }.checked t call (if waits then .waiting else .compare) taken

/-- The second one. -/
def secondCheck (expired : List (Nat × Nat)) (t : Nat) (call : TakeCall) :
    Except Fault CompatMutexes := do
  let system ← ObjectSystem.step (.resume expired) sys.system
  let notified :=
    Function.update sys.notified call.semaphore ((sys.notified call.semaphore).erase t)
  let (sys, taken) ← { sys with system, notified }.take t call.semaphore
  return sys.checked t call .compare taken

/-- The thread that is executed, with its call of `take_with_deadline`. -/
def taker : Option (Nat × Option TakeCall) :=
  (sys.system.scheduler.executing ⟨.singleCore, 0⟩).map fun t => (t, sys.calls t)

/-- One critical section, or one comparison of the time. -/
def step (fromMicros : Nat → Nat) (e : SemaphoreEvent) (sys : CompatMutexes) :
    Except Fault CompatMutexes :=
  match e with
  | .op o =>
    if o.blocking ∧ sys.taker.any (·.2.isSome) then
      .error .disabled
    else do
      return { sys with system := ← ObjectSystem.step (.op o) sys.system }
  | .takeWithDeadline self deadline =>
    match sys.taker with
    | some (t, none) =>
      return sys.setCall t (some ⟨self, deadline.getD (2 ^ 64 - 1), .check, 0⟩)
    | _ => .error .disabled
  | .check expired =>
    match sys.taker with
    | some (t, some call) =>
      if call.phase = .check then sys.firstCheck fromMicros expired t call else .error .disabled
    | _ => .error .disabled
  | .recheck expired =>
    match sys.taker with
    | some (t, some call) =>
      if call.phase = .waiting then sys.secondCheck expired t call else .error .disabled
    | _ => .error .disabled
  | .compare now =>
    match sys.taker with
    | some (t, some call) =>
      if call.phase ≠ .compare then
        .error .disabled
      else if call.deadline < now then
        return sys.finish t call false
      else
        return sys.setCall t (some { call with phase := .check })
    | _ => .error .disabled
  | .tryTake self =>
    match sys.taker with
    | some (t, none) => do return (← sys.take t self).1
    | _ => .error .disabled
  | .give self =>
    match sys.taker with
    | some (t, none) => sys.give t self
    | _ => .error .disabled
  | .tryTakeFromIsr self => return sys.takeFromIsr self
  | .tryGiveFromIsr self => sys.giveFromIsr self

end CompatMutexes

end ArielOS
