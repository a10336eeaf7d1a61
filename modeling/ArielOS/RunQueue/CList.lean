import ArielOS.Fault
import ArielOS.Lib.Segment

namespace ArielOS

/-- `nQueues` circular linked lists over one array of `nThreads` next pointers. Thread ids and
    runqueue numbers are `u8` values. -/
structure CList (nQueues nThreads : Nat) where
  tail : Vector Nat nQueues
  nextIdxs : Vector Nat nThreads
  deriving DecidableEq, Repr

namespace CList

variable {nQueues nThreads : Nat}

def sentinel : Nat := 0xFF

def new : CList nQueues nThreads where
  tail := Vector.replicate nQueues sentinel
  nextIdxs := Vector.replicate nThreads sentinel

def isEmpty (c : CList nQueues nThreads) (rq : Nat) : Except Fault Bool := do
  return (← readAt c.tail rq) == sentinel

def peekHead (c : CList nQueues nThreads) (rq : Nat) : Except Fault (Option Nat) := do
  if ← c.isEmpty rq then
    return none
  else
    return some (← readAt c.nextIdxs (← readAt c.tail rq))

def peekNext (c : CList nQueues nThreads) (curr : Nat) : Except Fault Nat :=
  readAt c.nextIdxs curr

def push (c : CList nQueues nThreads) (n : Nat) (rq : Nat) :
    Except Fault (CList nQueues nThreads) := do
  if n ≥ sentinel then
    throw .sentinelPushed
  if (← readAt c.nextIdxs n) ≠ sentinel then
    return c
  match ← c.peekHead rq with
  | some head =>
    -- `n` points to the first element, the old tail to `n`, and `n` becomes the tail.
    let nextIdxs ← writeAt c.nextIdxs n head
    let nextIdxs ← writeAt nextIdxs (← readAt c.tail rq) n
    let tail ← writeAt c.tail rq n
    return { tail, nextIdxs }
  | none =>
    let tail ← writeAt c.tail rq n
    let nextIdxs ← writeAt c.nextIdxs n n
    return { tail, nextIdxs }

/-- `position()`: the first index from `i` on, of the next `fuel` ones, that holds `item`. -/
def positionFrom (v : Vector Nat n) (item : Nat) : Nat → Nat → Option Nat
  | _, 0 => none
  | i, fuel + 1 => if view sentinel v i = item then some i else positionFrom v item (i + 1) fuel

def position (v : Vector Nat n) (item : Nat) : Option Nat := positionFrom v item 0 n

def del (c : CList nQueues nThreads) (n : Nat) :
    Except Fault (CList nQueues nThreads × Option Nat) := do
  if (← readAt c.nextIdxs n) = sentinel then
    return (c, none)
  match position c.nextIdxs n with
  | none => return (c, none)
  | some prev =>
    let (tail, emptyRunqueue) ←
      match position c.tail n with
      | some rq =>
        if prev = n then
          pure (← writeAt c.tail rq sentinel, some rq)
        else
          pure (← writeAt c.tail rq prev, none)
      | none => pure (c.tail, none)
    let nextIdxs ← writeAt c.nextIdxs prev (← readAt c.nextIdxs n)
    let nextIdxs ← writeAt nextIdxs n sentinel
    return ({ tail, nextIdxs }, emptyRunqueue)

def popHead (c : CList nQueues nThreads) (rq : Nat) :
    Except Fault (CList nQueues nThreads × Option Nat) := do
  match ← c.peekHead rq with
  | none => return (c, none)
  | some head =>
    let last ← readAt c.tail rq
    let (tail, nextIdxs) ←
      if head = last then
        pure (← writeAt c.tail rq sentinel, c.nextIdxs)
      else
        pure (c.tail, ← writeAt c.nextIdxs last (← readAt c.nextIdxs head))
    let nextIdxs ← writeAt nextIdxs head sentinel
    return ({ tail, nextIdxs }, some head)

def advance (c : CList nQueues nThreads) (rq : Nat) :
    Except Fault (CList nQueues nThreads × Bool) := do
  let tail ← readAt c.tail rq
  if tail ≥ nThreads then
    return (c, false)
  let head ← readAt c.nextIdxs tail
  if tail = head then
    return (c, false)
  return ({ c with tail := ← writeAt c.tail rq head }, true)

end CList

end ArielOS
