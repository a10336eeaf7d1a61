import ArielOS.Sync.Objects

namespace ArielOS

/-- `SemaphoreInner::Counting`. -/
structure Counting where
  current : Nat
  max : Nat
  deriving DecidableEq

namespace Counting

variable (sem : Counting)

def tryTake : Counting × Bool :=
  if 0 < sem.current then ({ sem with current := sem.current - 1 }, true) else (sem, false)

def tryTakeFromIsr : Counting × Bool := sem.tryTake

/-- `max` is a number of 32 bits, so the addition does not overflow. -/
def tryGive : Counting × Bool :=
  if sem.current < sem.max then ({ sem with current := sem.current + 1 }, true) else (sem, false)

def tryGiveFromIsr : Counting × Bool := sem.tryGive

end Counting

/-- Where a thread is in `take_with_deadline`: in front of `wait_until_with_check`, between the
    critical sections of it, or behind it. -/
inductive TakePhase
  | check
  | waiting
  | compare
  deriving DecidableEq

/-- A call of `take_with_deadline`, with the units that it took. -/
structure TakeCall where
  semaphore : Nat
  deadline : Nat
  phase : TakePhase
  taken : Nat
  deriving DecidableEq

/-- A result of `take_with_deadline`. -/
structure TakeReturn where
  thread : Nat
  result : Bool
  taken : Nat
  deriving DecidableEq

/-- Any number of threads and counting semaphores on a single core. The wait queue of a semaphore is
    the object at its address. -/
structure SemaphoreSystem where
  system : ObjectSystem Unit
  inner : Nat → Counting
  calls : Nat → Option TakeCall
  /-- The successful gives and takes of each semaphore so far. -/
  gives : Nat → Nat
  takes : Nat → Nat
  /-- The threads that were popped by a notification and have not checked again. -/
  notified : Nat → List Nat
  returns : List TakeReturn

inductive SemaphoreEvent
  | op (o : Op)
  | takeWithDeadline (self : Nat) (deadline : Option Nat)
  | check (expired : List (Nat × Nat))
  | recheck (expired : List (Nat × Nat))
  | compare (now : Nat)
  | tryTake (self : Nat)
  | tryTakeFromIsr (self : Nat)
  | give (self : Nat)
  | tryGiveFromIsr (self : Nat)

namespace SemaphoreSystem

def new (initial max : Nat → Nat) : SemaphoreSystem where
  system := .new (fun _ => .waitQueue .new) fun _ => ()
  inner self := ⟨initial self, max self⟩
  calls _ := none
  gives _ := 0
  takes _ := 0
  notified _ := []
  returns := []

variable (sys : SemaphoreSystem)

/-- `try_take`, by anyone. -/
def take (self : Nat) : SemaphoreSystem × Bool :=
  match (sys.inner self).tryTake with
  | (inner, true) => ({ sys with
      inner := Function.update sys.inner self inner
      takes := Function.update sys.takes self (sys.takes self + 1) }, true)
  | (_, false) => (sys, false)

def setCall (t : Nat) (call : Option TakeCall) : SemaphoreSystem :=
  { sys with calls := Function.update sys.calls t call }

def finish (t : Nat) (call : TakeCall) (result : Bool) : SemaphoreSystem :=
  { sys.setCall t none with returns := ⟨t, result, call.taken⟩ :: sys.returns }

/-- What follows a check of a thread: it returns, or goes on behind the check. -/
def checked (t : Nat) (call : TakeCall) (next : TakePhase) : Bool → SemaphoreSystem
  | true => sys.finish t { call with taken := call.taken + 1 } true
  | false => sys.setCall t (some { call with phase := next })

/-- The first critical section of `wait_until_with_check`. -/
def firstCheck (fromMicros : Nat → Nat) (expired : List (Nat × Nat)) (t : Nat) (call : TakeCall) :
    Except Fault SemaphoreSystem := do
  let (sys, taken) := sys.take call.semaphore
  let deadline := fromMicros call.deadline
  let system ← ObjectSystem.step
    (.call call.semaphore (.waitUntilWithCheck taken deadline expired)) sys.system
  let waits := (system.pause t).isTimedWait
  return { sys with system }.checked t call (if waits then .waiting else .compare) taken

/-- The second one. -/
def secondCheck (expired : List (Nat × Nat)) (t : Nat) (call : TakeCall) :
    Except Fault SemaphoreSystem := do
  let system ← ObjectSystem.step (.resume expired) sys.system
  let notified :=
    Function.update sys.notified call.semaphore ((sys.notified call.semaphore).erase t)
  let (sys, taken) := { sys with system, notified }.take call.semaphore
  return sys.checked t call .compare taken

/-- `give`, by anyone. -/
def giveAndNotify (self : Nat) : Except Fault SemaphoreSystem :=
  match (sys.inner self).tryGive with
  | (inner, true) => do
    let popped := (sys.system.lists self).head
    let system ← ObjectSystem.step (.call self .notifyOne) sys.system
    return { sys with
      system
      inner := Function.update sys.inner self inner
      gives := Function.update sys.gives self (sys.gives self + 1)
      notified := Function.update sys.notified self (popped.toList ++ sys.notified self) }
  | (_, false) => return sys

/-- The thread that is executed, with its call of `take_with_deadline`. -/
def taker : Option (Nat × Option TakeCall) :=
  (sys.system.scheduler.executing ⟨.singleCore, 0⟩).map fun t => (t, sys.calls t)

/-- One critical section, or one comparison of the time. `from_micros` of `embassy_time` gives the
    ticks of a time. -/
def step (fromMicros : Nat → Nat) (e : SemaphoreEvent) (sys : SemaphoreSystem) :
    Except Fault SemaphoreSystem :=
  match e with
  | .op o =>
    if o.blocking ∧ sys.taker.any (·.2.isSome) then
      .error .disabled
    else do
      return { sys with system := ← ObjectSystem.step (.op o) sys.system }
  | .takeWithDeadline self deadline =>
    match sys.taker with
    | some (t, none) =>
      return sys.setCall t (some ⟨self, deadline.getD (2 ^ 64 - 1), .check, 0⟩)
    | _ => .error .disabled
  | .check expired =>
    match sys.taker with
    | some (t, some call) =>
      if call.phase = .check then sys.firstCheck fromMicros expired t call else .error .disabled
    | _ => .error .disabled
  | .recheck expired =>
    match sys.taker with
    | some (t, some call) =>
      if call.phase = .waiting then sys.secondCheck expired t call else .error .disabled
    | _ => .error .disabled
  | .compare now =>
    match sys.taker with
    | some (t, some call) =>
      if call.phase ≠ .compare then
        .error .disabled
      else if call.deadline < now then
        return sys.finish t call false
      else
        return sys.setCall t (some { call with phase := .check })
    | _ => .error .disabled
  | .tryTake self | .tryTakeFromIsr self => return (sys.take self).1
  | .give self | .tryGiveFromIsr self => sys.giveAndNotify self

end SemaphoreSystem

end ArielOS
