import ArielOS.Threads.Scheduler

namespace ArielOS.Native

/-- Where a host thread is. `released` is in front of the wait that ends the release of a critical
    section, and `waiting` tells whether the thread was runnable since the wait began. -/
inductive HostPhase
  | spawned
  | running
  | critical
  | released
  | waiting (wasRunnable : Bool)
  | ended
  deriving DecidableEq

/-- The host thread of a thread, which is finished when the thread has set its state to invalid. -/
structure HostThread where
  tid : Nat
  phase : HostPhase
  finished : Bool
  deriving DecidableEq

/-- Who is inside of the critical section: a thread, or a host thread that is none of them. -/
inductive Holder
  | host (h : Nat)
  | other
  deriving DecidableEq

/-- The operation that comes next inside of `create_raw`, `set_running` or `set_stopped`. -/
inductive Pending
  | none
  | created (tid : Nat)
  | setRunning (tid : Nat)
  | wakeOne (tid : Nat)
  | setStopped (tid : Nat)
  deriving DecidableEq

/-- The threads of infini-core, each on a host thread of its own. -/
structure InfiniCore where
  states : Nat → ThreadState
  threadRunnable : Nat → Nat
  hosts : Nat → Option HostThread
  spawned : Nat
  holder : Option Holder
  pending : Pending
  /-- The host threads that continued past a wait, and whether they were runnable since it began. -/
  continued : List (Nat × Bool)

/-- One atomic operation of a host thread. `setState` calls are those of the scheduler, for a thread
    that becomes ready or for the own thread, which stops. -/
inductive InfiniEvent
  | acquire (who : Holder)
  | release
  | create
  | setRunning (tid : Nat)
  | setStopped (state : ThreadState)
  | finish
  | startThreading (tid : Nat)
  | proceed
  | wakeOne (chosen : Option Nat)
  | wait (h : Nat)
  | wakeSpuriously (h : Nat)

namespace InfiniCore

def new : InfiniCore where
  states _ := .invalid
  threadRunnable _ := 0
  hosts _ := none
  spawned := 0
  holder := none
  pending := .none
  continued := []

variable (sys : InfiniCore)

def getUnused : Option Nat := (List.range threadCount).find? fun i => sys.states i = .invalid

def setHost (h : Nat) (host : HostThread) : InfiniCore :=
  { sys with hosts := Function.update sys.hosts h (some host) }

/-- `atomic_wait::wait` returns, and behind it a finished thread's closure does. -/
def resume (h : Nat) (host : HostThread) (wasRunnable : Bool) : InfiniCore :=
  { sys.setHost h { host with phase := if host.finished then .ended else .running } with
    continued := (h, wasRunnable) :: sys.continued }

/-- The part of `set_state` before `set_running`. -/
def ready (tid : Nat) : InfiniCore :=
  { sys with states := Function.update sys.states tid .running, pending := .setRunning tid }

/-- The part of `set_state` before `set_stopped`. -/
def stop (tid : Nat) (state : ThreadState) : InfiniCore :=
  { sys with
    states := Function.update sys.states tid state
    pending := if sys.states tid = .running then .setStopped tid else .none }

/-- Those who wait on the word see that it is not 0, whenever they return. -/
def markRunnable (tid : Nat) (host : HostThread) : HostThread :=
  match host.phase with
  | .waiting _ => if host.tid = tid then { host with phase := .waiting true } else host
  | _ => host

/-- `THREAD_RUNNABLE[n].swap(1, ..)`. -/
def swap (tid : Nat) : InfiniCore :=
  { sys with
    threadRunnable := Function.update sys.threadRunnable tid 1
    hosts := fun h => (sys.hosts h).map (markRunnable tid)
    pending := if sys.threadRunnable tid = 0 then .wakeOne tid else .none }

def store (tid : Nat) : InfiniCore :=
  { sys with threadRunnable := Function.update sys.threadRunnable tid 0, pending := .none }

/-- Whether a host thread sleeps on the word of a thread. -/
def waitsOn (tid h : Nat) : Bool :=
  match sys.hosts h with
  | some ⟨tid', .waiting _, _⟩ => tid' = tid
  | _ => false

/-- Whether a host thread belongs to a thread that is not finished. -/
def live (h : Nat) : Bool :=
  match sys.hosts h with
  | some host => !host.finished
  | none => false

/-- Whether the critical section may go on with something new. -/
def acts : Bool :=
  match sys.holder with
  | none => false
  | some .other => sys.pending = .none
  | some (.host h) => sys.pending = .none && sys.live h

def step (e : InfiniEvent) (sys : InfiniCore) : Except Fault InfiniCore :=
  match e with
  | .acquire who =>
    match sys.holder, who with
    | some _, _ => .error .disabled
    | none, .other => return { sys with holder := some .other }
    | none, .host h =>
      match sys.hosts h with
      | some ⟨tid, .running, finished⟩ =>
        return { sys.setHost h ⟨tid, .critical, finished⟩ with holder := some (.host h) }
      | _ => .error .disabled
  | .release =>
    match sys.holder, sys.pending with
    | some .other, .none => return { sys with holder := none }
    | some (.host h), .none =>
      match sys.hosts h with
      | some host =>
        return { sys.setHost h { host with phase := .released } with holder := none }
      | none => .error .disabled
    | _, _ => .error .disabled
  | .create =>
    if sys.acts then
      match sys.getUnused with
      | none => .error .tooManyThreads
      | some tid =>
        return { sys.setHost sys.spawned ⟨tid, .spawned, false⟩ with
          states := Function.update sys.states tid .parked
          spawned := sys.spawned + 1
          pending := .created tid }
    else
      .error .disabled
  | .setRunning tid =>
    if ¬ sys.acts then .error .disabled
    else if tid < threadCount then return sys.ready tid
    else .error .indexOutOfBounds
  | .setStopped state =>
    match sys.holder with
    | some (.host h) =>
      match sys.hosts h with
      | some host =>
        if sys.acts ∧ state ≠ .running ∧ state ≠ .invalid then return sys.stop host.tid state
        else .error .disabled
      | none => .error .disabled
    | _ => .error .disabled
  | .finish =>
    match sys.holder with
    | some (.host h) =>
      match sys.hosts h with
      | some host =>
        if sys.acts then
          return (sys.setHost h { host with finished := true }).stop host.tid .invalid
        else
          .error .disabled
      | none => .error .disabled
    | _ => .error .disabled
  | .startThreading tid =>
    if sys.holder = some .other ∧ sys.pending = .none ∧ tid < threadCount ∧
        sys.states tid = .running then
      return { sys with pending := .setRunning tid }
    else
      .error .disabled
  | .proceed =>
    match sys.pending with
    | .created tid => return sys.ready tid
    | .setRunning tid => return sys.swap tid
    | .setStopped tid => return sys.store tid
    | _ => .error .disabled
  | .wakeOne chosen =>
    match sys.pending, chosen with
    | .wakeOne tid, some h =>
      match sys.hosts h with
      | some ⟨tid', .waiting wasRunnable, finished⟩ =>
        if tid' = tid then
          return { sys.resume h ⟨tid', .waiting wasRunnable, finished⟩ wasRunnable with
            pending := .none }
        else
          .error .disabled
      | _ => .error .disabled
    | .wakeOne tid, none =>
      if ∃ h < sys.spawned, sys.waitsOn tid h then .error .disabled
      else return { sys with pending := .none }
    | _, _ => .error .disabled
  | .wait h =>
    match sys.hosts h with
    | some host =>
      if host.phase = .spawned ∨ host.phase = .released then
        if sys.threadRunnable host.tid ≠ 0 then return sys.resume h host true
        else return sys.setHost h { host with phase := .waiting false }
      else
        .error .disabled
    | none => .error .disabled
  | .wakeSpuriously h =>
    match sys.hosts h with
    | some ⟨tid, .waiting wasRunnable, finished⟩ =>
      return sys.resume h ⟨tid, .waiting wasRunnable, finished⟩ wasRunnable
    | _ => .error .disabled

end InfiniCore

end ArielOS.Native
