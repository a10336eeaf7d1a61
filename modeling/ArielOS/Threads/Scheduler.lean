import ArielOS.RunQueue.RunQueue
import ArielOS.Threads.Config

namespace ArielOS

def threadCount : Nat := 16

def schedPrioLevels : Nat := threadCount

def usizeBits : Nat := 32

/-- Struct holding all scheduler state, with the interrupt state of the cores. -/
structure Scheduler where
  runqueue : RunQueue usizeBits schedPrioLevels threadCount
  threads : Nat → Thread
  threadBlocklist : Nat → Option Nat
  currentThreads : Nat → Option Nat
  requests : Requests

namespace Scheduler

def new (config : Config) : Scheduler where
  runqueue := .new
  threads := fun _ => .default config.coreCount
  threadBlocklist := fun _ => none
  currentThreads := fun _ => none
  requests := .none

/-- Moves a thread that changed its priority. -/
def requeue (runqueue : RunQueue usizeBits schedPrioLevels threadCount) (tid oldPrio prio : Nat) :
    Except Fault (RunQueue usizeBits schedPrioLevels threadCount) := do
  let runqueue ←
    if (← runqueue.peekHead oldPrio) = some tid then
      runqueue.popHead tid oldPrio
    else
      runqueue.del tid
  runqueue.add tid prio

section

variable (cpu : Cpu) (s : Scheduler)

def setThread (tid : Nat) (thread : Thread) : Scheduler :=
  { s with threads := Function.update s.threads tid thread }

def schedule : Scheduler := { s with requests := s.requests.pend cpu.coreId }

def currentTid : Option Nat := s.currentThreads cpu.coreId

def current : Option Thread := (s.currentTid cpu).map s.threads

/-- Writes through the reference that `current` returns. -/
def setCurrent (thread : Thread) : Scheduler :=
  match s.currentTid cpu with
  | some tid => s.setThread tid thread
  | none => s

/-- `current().expect(..)`. -/
def expectCurrent : Except Fault Thread :=
  match s.current cpu with
  | some thread => .ok thread
  | none => .error .noThreadContext

def getUnchecked (tid : Nat) : Except Fault Thread :=
  if tid < threadCount then .ok (s.threads tid) else .error .indexOutOfBounds

def getUnused : Option Nat :=
  (List.range threadCount).find? fun i => (s.threads i).state = .invalid

/-- The stack limits that `Cpu::setup_stack` records. -/
def setupStack (thread : Thread) (stackStart stackLen : Nat) : Thread :=
  { thread with stackLowest := stackStart, stackHighest := (stackStart + stackLen) / 8 * 8 }

def create (stackStart stackLen prio : Nat) (affinity : Option CoreAffinity) :
    Option (Scheduler × Nat) := do
  let tid ← s.getUnused
  let thread := { s.threads tid with prio, tid, state := .parked }
  let thread := setupStack thread stackStart stackLen
  let thread :=
    match cpu.config with
    | .multiCore chip true =>
      { thread with coreAffinity := affinity.getD (.noAffinity chip.cores) }
    | _ => thread
  return (s.setThread tid thread, tid)

def isValidTid (tid : Nat) : Bool :=
  tid < threadCount && (s.threads tid).state ≠ .invalid

def getState (tid : Nat) : Option ThreadState :=
  if s.isValidTid tid then some (s.threads tid).state else none

def getPriority (tid : Nat) : Option Nat :=
  if s.isValidTid tid then some (s.threads tid).prio else none

def isRunning (tid : Nat) : Option Nat :=
  match cpu.config with
  | .singleCore => if s.currentTid cpu = some tid then some 0 else none
  | .multiCore chip _ => (List.range chip.cores).find? fun core => s.currentThreads core = some tid

/-- The order of `Option<RunqueueId>`. -/
def prioLe : Option Nat → Option Nat → Bool
  | none, _ => true
  | some _, none => false
  | some p, some q => p ≤ q

/-- `min_by_key(|(_, rq)| *rq)`: the first of the least elements. -/
def minByPrio : List (Nat × Option Nat) → Option (Nat × Option Nat)
  | [] => none
  | x :: xs =>
    match minByPrio xs with
    | none => some x
    | some y => if prioLe x.2 y.2 then some x else some y

def currentPrio (core : Nat) : Option Nat :=
  (s.currentThreads core).map fun tid => (s.threads tid).prio

def lowestRunningPrio (chip : Chip) (coreAffinity : Bool) (tid : Nat) :
    Except Fault (Nat × Option Nat) :=
  let affinity := (s.threads tid).coreAffinity
  let cores := (List.range chip.cores).filter fun core => !coreAffinity || affinity.contains core
  match minByPrio (cores.map fun core => (core, s.currentPrio core)) with
  | some lowest => .ok lowest
  | none => .error .noMatchingCore

def scheduleOnCore (chip : Chip) (core : Nat) : Scheduler :=
  { s with requests := chip.scheduleOnCore cpu.coreId core s.requests }

def scheduleIfHigherPrio (tid prio : Nat) : Except Fault Scheduler :=
  match cpu.config with
  | .singleCore =>
    match s.current cpu with
    | some thread => .ok (if thread.prio < prio then s.schedule cpu else s)
    | none => .ok s
  | .multiCore chip coreAffinity => do
    match ← s.lowestRunningPrio chip coreAffinity tid with
    | (core, some lowestPrio) =>
      return if lowestPrio < prio then s.scheduleOnCore cpu chip core else s
    | (_, none) => return s

def setState (tid : Nat) (state : ThreadState) : Except Fault (Scheduler × ThreadState) := do
  let thread ← s.getUnchecked tid
  let oldState := thread.state
  let prio := thread.prio
  let s := s.setThread tid { thread with state }
  if state = .running then
    let runqueue ← s.runqueue.add tid prio
    let s ← scheduleIfHigherPrio cpu { s with runqueue } tid prio
    return (s, oldState)
  else if oldState = .running then
    if some tid ≠ s.currentTid cpu then
      throw .stoppedOtherThread
    match cpu.config with
    | .singleCore =>
      let runqueue ← s.runqueue.popHead tid prio
      return (schedule cpu { s with runqueue }, oldState)
    | .multiCore .. => return (s.schedule cpu, oldState)
  else
    return (s, oldState)

def setPriority (tid prio : Nat) : Except Fault Scheduler := do
  if !s.isValidTid tid then
    return s
  let thread ← s.getUnchecked tid
  let oldPrio := thread.prio
  if oldPrio = prio then
    return s
  let s := s.setThread tid { thread with prio }
  if thread.state ≠ .running then
    return s
  match cpu.config with
  | .singleCore =>
    let s := { s with runqueue := ← requeue s.runqueue tid oldPrio prio }
    match s.isRunning cpu tid with
    | some _ => return if prio < oldPrio then s.schedule cpu else s
    | none => if oldPrio < prio then s.scheduleIfHigherPrio cpu tid prio else return s
  | .multiCore chip _ =>
    match s.isRunning cpu tid with
    | some core => return if prio < oldPrio then s.scheduleOnCore cpu chip core else s
    | none =>
      let s := { s with runqueue := ← requeue s.runqueue tid oldPrio prio }
      if oldPrio < prio then s.scheduleIfHigherPrio cpu tid prio else return s

def addCurrentThreadToRq : Except Fault Scheduler := do
  match s.current cpu with
  | some thread =>
    if thread.state = .running then
      return { s with runqueue := ← s.runqueue.add thread.tid thread.prio }
    else
      return s
  | none => return s

def isAffineToCurrCore (tid : Nat) : Bool := (s.threads tid).coreAffinity.contains cpu.coreId

def getNextTid : Except Fault (Scheduler × Option Nat) := do
  match cpu.config with
  | .singleCore => return (s, ← s.runqueue.getNext)
  | .multiCore _ false =>
    let (runqueue, next) ← s.runqueue.popNext
    return ({ s with runqueue }, next)
  | .multiCore _ true =>
    match ← s.runqueue.getNextFilter (s.isAffineToCurrCore cpu) with
    | none => return (s, none)
    | some next => return ({ s with runqueue := ← s.runqueue.del next }, some next)

/-- Creates a thread and adds it to the runqueue. -/
def createRaw (stackStart stackLen prio : Nat) (affinity : Option CoreAffinity) :
    Except Fault (Scheduler × Nat) :=
  match s.create cpu stackStart stackLen prio affinity with
  | none => .error .tooManyThreads
  | some (s, tid) => do
    let (s, _) ← s.setState cpu tid .running
    return (s, tid)

/-- A thread function returned. -/
def cleanup : Except Fault Scheduler := do
  match s.currentTid cpu with
  | none => throw .noThreadContext
  | some tid => return (← s.setState cpu tid .invalid).1

def yieldSame : Except Fault Scheduler := do
  match s.current cpu with
  | none => return s
  | some thread =>
    match cpu.config with
    | .singleCore =>
      let (runqueue, advanced) ← s.runqueue.advance thread.prio
      let s := { s with runqueue }
      return if advanced then s.schedule cpu else s
    | .multiCore chip coreAffinity =>
      if ← s.runqueue.isEmpty thread.prio then
        return s
      let s := s.schedule cpu
      if coreAffinity ∧ thread.coreAffinity = .noAffinity chip.cores then
        s.scheduleIfHigherPrio cpu thread.tid thread.prio
      else
        return s

def park : Except Fault Scheduler := do
  match s.currentTid cpu with
  | none => return s
  | some tid => return (← s.setState cpu tid .parked).1

def unpark (tid : Nat) : Except Fault (Scheduler × Bool) := do
  match s.getState tid with
  | some .parked => return ((← s.setState cpu tid .running).1, true)
  | _ => return (s, false)

end

end Scheduler

end ArielOS
