import ArielOS.Threads.ThreadList

namespace ArielOS.Sync

/-- State of a `Lock`, and of an `Event`, which is set when it is unlocked. -/
inductive LockState
  | unlocked
  | locked (waiters : ThreadList)
  deriving DecidableEq, Repr

def LockState.waiters : LockState → ThreadList
  | .unlocked => .new
  | .locked waiters => waiters

variable (cpu : Cpu) (s : Scheduler)

/-- Blocks the current thread until the state is unlocked elsewhere. -/
def LockState.block (waiters : ThreadList) : Except Fault (LockState × Scheduler) := do
  let (waiters, s, _) ← waiters.putCurrent cpu s .lockBlocked
  return (.locked waiters, s)

namespace Lock

def new : LockState := .unlocked

def newLocked : LockState := .locked .new

def acquire : LockState → Except Fault (LockState × Scheduler)
  | .unlocked => return (.locked .new, s)
  | .locked waiters => LockState.block cpu s waiters

def tryAcquire : LockState → LockState × Bool
  | .unlocked => (.locked .new, true)
  | .locked waiters => (.locked waiters, false)

def release : LockState → Except Fault (LockState × Scheduler)
  | .unlocked => return (.unlocked, s)
  | .locked waiters => do
    let (waiters, s, popped) ← waiters.pop cpu s
    return (if popped.isNone then .unlocked else .locked waiters, s)

end Lock

namespace Event

def new : LockState := .locked .new

def newSet : LockState := .unlocked

def wait : LockState → Except Fault (LockState × Scheduler)
  | .unlocked => return (.unlocked, s)
  | .locked waiters => LockState.block cpu s waiters

def clear : LockState → LockState × Bool
  | .unlocked => (.locked .new, true)
  | .locked waiters => (.locked waiters, false)

def set : LockState → Except Fault (LockState × Scheduler)
  | .unlocked => return (.unlocked, s)
  | .locked waiters => do
    let (_, s) ← ThreadList.popAll cpu (threadCount + 2) waiters s
    return (.unlocked, s)

end Event

end ArielOS.Sync
