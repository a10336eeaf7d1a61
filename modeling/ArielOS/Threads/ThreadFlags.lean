import ArielOS.Threads.Scheduler

namespace ArielOS.Scheduler

variable (cpu : Cpu) (s : Scheduler)

/-- Whether the flags end a wait in this state. -/
def wokenBy (state : ThreadState) (flags : ThreadFlags) : Bool :=
  match state with
  | .flagBlocked (.any bits) => flags &&& bits != 0
  | .flagBlocked (.all bits) => flags &&& bits == bits
  | _ => false

def flagSet (tid : Nat) (mask : ThreadFlags) : Except Fault Scheduler := do
  let thread ← s.getUnchecked tid
  let thread := { thread with flags := thread.flags ||| mask }
  let s := s.setThread tid thread
  if wokenBy thread.state thread.flags then
    return (← s.setState cpu tid .running).1
  else
    return s

def flagWaitAll (mask : ThreadFlags) : Except Fault (Scheduler × Option ThreadFlags) := do
  let thread ← s.expectCurrent cpu
  if thread.flags &&& mask = mask then
    let s := s.setCurrent cpu { thread with flags := thread.flags &&& ~~~mask }
    return (s, some mask)
  else
    return ((← s.setState cpu thread.tid (.flagBlocked (.all mask))).1, none)

/-- The common part of `flag_wait_any` and `flag_wait_one`; `select` picks the flags that are
    consumed. -/
def flagWaitFor (select : ThreadFlags → ThreadFlags) (mask : ThreadFlags) :
    Except Fault (Scheduler × Option ThreadFlags) := do
  let thread ← s.expectCurrent cpu
  if thread.flags &&& mask ≠ 0 then
    let res := select (thread.flags &&& mask)
    let s := s.setCurrent cpu { thread with flags := thread.flags &&& ~~~res }
    return (s, some res)
  else
    return ((← s.setState cpu thread.tid (.flagBlocked (.any mask))).1, none)

def flagWaitAny : ThreadFlags → Except Fault (Scheduler × Option ThreadFlags) :=
  s.flagWaitFor cpu id

/-- Consumes the least significant flag only. -/
def flagWaitOne : ThreadFlags → Except Fault (Scheduler × Option ThreadFlags) :=
  s.flagWaitFor cpu fun res => res &&& (~~~res + 1)

/-- `thread_flags::clear`. -/
def flagClear (mask : ThreadFlags) : Except Fault (Scheduler × ThreadFlags) := do
  let thread ← s.expectCurrent cpu
  let s := s.setCurrent cpu { thread with flags := thread.flags &&& ~~~mask }
  return (s, thread.flags &&& mask)

end ArielOS.Scheduler
