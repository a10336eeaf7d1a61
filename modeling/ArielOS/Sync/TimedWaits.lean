import ArielOS.Sync.Objects
import ArielOS.Threads.ThreadListSpec

namespace ArielOS

/-- A call of `wait_until`, or of `wait_until_with_check` if it has a check: whether a notification has
    taken its thread out of the list, and whether its timer has gone off. -/
structure TimedCall (σ : Type) where
  queue : Nat
  deadline : Nat
  check : Option (σ → Bool)
  notified : Bool
  expired : Bool

structure TimedReturn (σ : Type) where
  thread : Nat
  call : TimedCall σ
  result : Bool

/-- Any number of threads and wait queues on a single core, where every wait has a deadline. The checks
    are predicates of what the threads share, and `calls` has those that wait. -/
structure TimedWaits (σ : Type) where
  system : ObjectSystem Unit
  shared : σ
  calls : Nat → Option (TimedCall σ)
  returns : List (TimedReturn σ)

inductive TimedWaitsEvent (σ : Type)
  | op (o : Op)
  | change (shared : σ)
  | waitUntil (self deadline : Nat) (expired : List (Nat × Nat))
  | waitUntilWithCheck (self deadline : Nat) (check : σ → Bool) (expired : List (Nat × Nat))
  | resume (expired : List (Nat × Nat))
  | notifyOne (self : Nat)
  | notifyAll (self : Nat)

namespace TimedCall

variable {σ : Type} (call : TimedCall σ)

/-- What a critical section does to thread `t` while it waits. -/
def observe (t : Nat) (notifies : Bool) (before after : ObjectSystem Unit) : TimedCall σ :=
  let listed := fun system : ObjectSystem Unit =>
    (system.lists call.queue).contains system.scheduler t
  { call with
    notified := call.notified || (notifies && listed before && !listed after)
    expired := call.expired ||
      ((before.scheduler.deadlineOf t).isSome && (after.scheduler.deadlineOf t).isNone) }

/-- What `check()` returns, or false where there is none. -/
def holds (shared : σ) : Bool := call.check.any (· shared)

/-- The first critical section of the call. -/
def first (shared : σ) (expired : List (Nat × Nat)) : ObjectCall :=
  match call.check with
  | none => .waitUntil call.deadline expired
  | some check => .waitUntilWithCheck (check shared) call.deadline expired

end TimedCall

namespace TimedWaits

variable {σ : Type} (sys : TimedWaits σ)

def new (shared : σ) : TimedWaits σ where
  system := .new (fun _ => .waitQueue .new) fun _ => ()
  shared
  calls _ := none
  returns := []

def executing : Option Nat := sys.system.scheduler.executing ⟨.singleCore, 0⟩

def advance (notifies : Bool) (system : ObjectSystem Unit) : TimedWaits σ :=
  { sys with
    system
    calls := fun t => (sys.calls t).map (·.observe t notifies sys.system system) }

def setCall (t : Nat) (call : Option (TimedCall σ)) : TimedWaits σ :=
  { sys with calls := Function.update sys.calls t call }

def finish (t : Nat) (call : TimedCall σ) (result : Bool) : TimedWaits σ :=
  { sys.setCall t none with returns := ⟨t, call, result⟩ :: sys.returns }

/-- The first critical section of a call. It returns at once if the check holds or if the deadline has
    passed. -/
def enter (t : Nat) (call : TimedCall σ) (expired : List (Nat × Nat)) :
    Except Fault (TimedWaits σ) := do
  let system ← ObjectSystem.step (.call call.queue (call.first sys.shared expired)) sys.system
  let next := sys.advance false system
  if (system.pause t).isTimedWait then
    return next.setCall t (some call)
  else
    let expired := (system.scheduler.deadlineOf t).isNone
    return next.finish t { call with expired } (call.holds sys.shared)

/-- The second one. -/
def resume (t : Nat) (call : TimedCall σ) (expired : List (Nat × Nat)) :
    Except Fault (TimedWaits σ) := do
  let waiters := sys.system.lists call.queue
  let (_, _, reported) ←
    WaitQueue.waitUntilResume ⟨.singleCore, 0⟩ waiters sys.system.scheduler expired
  let system ← ObjectSystem.step (.resume expired) sys.system
  let result :=
    match call.check with
    | none => reported
    | some check => check sys.shared
  return (sys.advance false system).finish t call result

/-- One critical section. -/
def step (e : TimedWaitsEvent σ) (sys : TimedWaits σ) : Except Fault (TimedWaits σ) :=
  match e with
  | .op o => do
    return sys.advance false (← ObjectSystem.step (.op o) sys.system)
  | .change shared => return { sys with shared }
  | .waitUntil self deadline expired =>
    match sys.executing with
    | some t => sys.enter t ⟨self, deadline, none, false, false⟩ expired
    | none => .error .disabled
  | .waitUntilWithCheck self deadline check expired =>
    match sys.executing with
    | some t => sys.enter t ⟨self, deadline, some check, false, false⟩ expired
    | none => .error .disabled
  | .resume expired =>
    match sys.executing with
    | some t =>
      match sys.calls t with
      | some call => sys.resume t call expired
      | none => .error .disabled
    | none => .error .disabled
  | .notifyOne self => do
    return sys.advance true (← ObjectSystem.step (.call self .notifyOne) sys.system)
  | .notifyAll self => do
    return sys.advance true (← ObjectSystem.step (.call self .notifyAll) sys.system)

end TimedWaits

end ArielOS
