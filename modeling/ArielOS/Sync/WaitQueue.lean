import ArielOS.Threads.ThreadList
import ArielOS.Threads.Timeout

namespace ArielOS.WaitQueue

variable (cpu : Cpu) (waiters : ThreadList) (s : Scheduler)

def wait : Except Fault (ThreadList × Scheduler) := do
  let (waiters, s, _) ← waiters.putCurrent cpu s .waitQueueBlocked
  return (waiters, s)

/-- The first critical section of `wait_until`; true if the thread waits. -/
def waitUntil (deadline : Nat) (expired : List (Nat × Nat)) :
    Except Fault (ThreadList × Scheduler × Bool) := do
  let (s, inFuture) ← s.setDeadline cpu deadline expired
  if inFuture then
    let (waiters, s, _) ← waiters.putCurrent cpu s .waitQueueBlocked
    return (waiters, s, true)
  else
    return (waiters, s, false)

/-- The second critical section of `wait_until`, with its result. -/
def waitUntilResume (expired : List (Nat × Nat)) : Except Fault (ThreadList × Scheduler × Bool) := do
  let (s, cleared) ← s.clearDeadline cpu expired
  if cleared then
    return (waiters, s, false)
  else
    let (waiters, s, removed) ← waiters.removeCurrent cpu s
    return (waiters, s, !removed)

/-- The first critical section of `wait_until_with_check`, for the result of the first `check()`; true
    if the thread waits. The second one is `waitUntilResume`, but for another call of `check()`. -/
def waitUntilWithCheck (check : Bool) (deadline : Nat) (expired : List (Nat × Nat)) :
    Except Fault (ThreadList × Scheduler × Bool) :=
  if check then .ok (waiters, s, false) else waitUntil cpu waiters s deadline expired

def notifyOne : Except Fault (ThreadList × Scheduler) := do
  let (waiters, s, _) ← waiters.pop cpu s
  return (waiters, s)

def notifyAll : Except Fault (ThreadList × Scheduler) := waiters.popAll cpu (threadCount + 2) s

end ArielOS.WaitQueue
