import ArielOS.Threads.ThreadFlags

namespace ArielOS.Scheduler

def threadFlagTimeout : ThreadFlags := 2

variable (cpu : Cpu) (s : Scheduler)

/-- Whether the timer of the thread is set and has expired. -/
def timerDue (tid now : Nat) : Bool :=
  match (s.threads tid).deadline with
  | some deadline => deadline ≤ now
  | none => false

/-- The waker that the time driver calls for a thread. -/
def wake (tid now : Nat) : Except Fault Scheduler := do
  let thread ← s.getUnchecked tid
  if s.timerDue tid now then
    let s := s.setThread tid { thread with deadline := none }
    let s ← s.flagSet cpu tid threadFlagTimeout
    match s.getState tid with
    | some .running => return s
    | _ => return (← s.setState cpu tid .running).1
  else
    return s

/-- The wakers that `schedule_wake` of the time driver calls before it returns, each with the time
    that it reads. -/
def wakeAll : List (Nat × Nat) → Scheduler → Except Fault Scheduler
  | [], s => .ok s
  | (tid, now) :: expired, s => do wakeAll expired (← s.wake cpu tid now)

def armDeadline (deadline : Nat) : Except Fault Scheduler := do
  let thread ← s.expectCurrent cpu
  return s.setCurrent cpu
    { thread with deadline := some deadline, flags := thread.flags &&& ~~~threadFlagTimeout }

def setDeadline (deadline : Nat) (expired : List (Nat × Nat)) :
    Except Fault (Scheduler × Bool) := do
  let s ← s.armDeadline cpu deadline
  let s ← wakeAll cpu expired s
  let thread ← s.expectCurrent cpu
  return (s, thread.deadline.isSome)

def clearDeadline (expired : List (Nat × Nat)) : Except Fault (Scheduler × Bool) := do
  let thread ← s.expectCurrent cpu
  let s := s.setCurrent cpu { thread with deadline := none }
  let didClear := thread.deadline.isSome
  let s ← if didClear then wakeAll cpu expired s else pure s
  return (s, didClear)

def sleepUntil (deadline : Nat) (expired : List (Nat × Nat)) : Except Fault Scheduler := do
  let (s, inFuture) ← s.setDeadline cpu deadline expired
  if inFuture then s.park cpu else return s

end ArielOS.Scheduler
