import ArielOS.Threads.Scheduler

namespace ArielOS

/-- Threads blocked on a resource, chained through `thread_blocklist`. -/
structure ThreadList where
  head : Option Nat
  deriving DecidableEq, Repr

namespace ThreadList

def new : ThreadList := ⟨none⟩

def link (s : Scheduler) (tid : Nat) (next : Option Nat) : Scheduler :=
  { s with threadBlocklist := Function.update s.threadBlocklist tid next }

/-- The walk of `put_current` along the list: the last thread that stays before a thread of
    priority `prio`, and the one that follows it. -/
def seek (s : Scheduler) (prio : Nat) :
    Nat → Option Nat → Option Nat → Except Fault (Option Nat × Option Nat)
  | 0, _, _ => throw .divergence
  | _ + 1, curr, none => return (curr, none)
  | fuel + 1, curr, some n => do
    if (← s.getUnchecked n).prio < prio then
      return (curr, some n)
    else
      seek s prio fuel (some n) (s.threadBlocklist n)

/-- Puts the current thread into the list and blocks it. Returns its priority if it became the
    head. A walk past `threadCount` threads goes round in a circle. -/
def putCurrent (cpu : Cpu) (list : ThreadList) (s : Scheduler) (state : ThreadState) :
    Except Fault (ThreadList × Scheduler × Option Nat) := do
  let thread ← s.expectCurrent cpu
  let tid := thread.tid
  let prio := thread.prio
  let (curr, next) ← seek s prio (threadCount + 1) none list.head
  let s := link s tid next
  let (list, s, inheritPriority) :=
    match curr with
    | some curr => (list, link s curr (some tid), none)
    | none => ({ head := some tid }, s, some prio)
  let (s, _) ← s.setState cpu tid state
  return (list, s, inheritPriority)

def pop (cpu : Cpu) (list : ThreadList) (s : Scheduler) :
    Except Fault (ThreadList × Scheduler × Option (Nat × ThreadState)) := do
  match list.head with
  | none => return (list, s, none)
  | some head =>
    let list := { head := s.threadBlocklist head }
    let (s, oldState) ← (link s head none).setState cpu head .running
    return (list, s, some (head, oldState))

/-- `while waiters.pop(cs).is_some() {}`. Each `pop` that does not empty the list takes a pointer out
    of `threadBlocklist`, so the loop ends after that many turns. -/
def popAll (cpu : Cpu) : Nat → ThreadList → Scheduler → Except Fault (ThreadList × Scheduler)
  | 0, _, _ => throw .divergence
  | fuel + 1, list, s => do
    match ← list.pop cpu s with
    | (list, s, some _) => popAll cpu fuel list s
    | (list, s, none) => return (list, s)

/-- The thread of the list before `tid`. -/
def findBefore (s : Scheduler) (tid : Nat) : Nat → Nat → Except Fault (Option Nat)
  | 0, _ => throw .divergence
  | fuel + 1, cur =>
    match s.threadBlocklist cur with
    | none => return none
    | some next => if next = tid then return some cur else findBefore s tid fuel next

def removeInner (cpu : Cpu) (list : ThreadList) (s : Scheduler) (tid : Nat) :
    Except Fault (ThreadList × Scheduler × Bool) := do
  match list.head with
  | none => return (list, s, false)
  | some head =>
    if head = tid then
      let list := { head := s.threadBlocklist head }
      let (s, _) ← (link s head none).setState cpu head .running
      return (list, s, true)
    match ← findBefore s tid (threadCount + 1) head with
    | none => return (list, s, false)
    | some cur =>
      let s := link (link s tid none) cur (s.threadBlocklist tid)
      let (s, _) ← s.setState cpu tid .running
      return (list, s, true)

def removeCurrent (cpu : Cpu) (list : ThreadList) (s : Scheduler) :
    Except Fault (ThreadList × Scheduler × Bool) := do
  match s.currentTid cpu with
  | none => throw .noThreadContext
  | some tid => list.removeInner cpu s tid

def isEmpty (list : ThreadList) : Bool := list.head.isNone

end ThreadList

end ArielOS
