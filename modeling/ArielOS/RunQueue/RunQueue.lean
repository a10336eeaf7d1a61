import ArielOS.RunQueue.CList

namespace ArielOS

/-- Runqueue for `nQueues` priorities, supporting `nThreads` threads in total. -/
structure RunQueue (usizeBits nQueues nThreads : Nat) where
  bitcache : BitVec usizeBits
  queues : CList nQueues nThreads
  deriving DecidableEq, Repr

namespace RunQueue

variable {usizeBits nQueues nThreads : Nat}

def new : RunQueue usizeBits nQueues nThreads where
  bitcache := 0
  queues := CList.new

/-- The number of zero bits above bit `i - 1` of the lowest `i` bits. -/
def leadingZerosFrom (val : BitVec usizeBits) : Nat → Nat
  | 0 => 0
  | i + 1 => if val.getLsbD i then 0 else leadingZerosFrom val i + 1

def leadingZeros (val : BitVec usizeBits) : Nat := leadingZerosFrom val usizeBits

def ffs (val : BitVec usizeBits) : Nat := usizeBits - leadingZeros val

def bit (rq : Nat) : BitVec usizeBits := BitVec.ofNat usizeBits 1 <<< rq

def checkThread (nThreads n : Nat) : Except Fault Unit :=
  if n < nThreads then .ok () else .error .indexOutOfBounds

def checkQueue (nQueues rq : Nat) : Except Fault Unit :=
  if rq < nQueues then .ok () else .error .indexOutOfBounds

def add (r : RunQueue usizeBits nQueues nThreads) (n rq : Nat) :
    Except Fault (RunQueue usizeBits nQueues nThreads) := do
  checkThread nThreads n
  checkQueue nQueues rq
  let bitcache := r.bitcache ||| bit rq
  let queues ← r.queues.push n rq
  return { bitcache, queues }

def peekHead (r : RunQueue usizeBits nQueues nThreads) (rq : Nat) : Except Fault (Option Nat) :=
  r.queues.peekHead rq

def popHead (r : RunQueue usizeBits nQueues nThreads) (n rq : Nat) :
    Except Fault (RunQueue usizeBits nQueues nThreads) := do
  checkThread nThreads n
  checkQueue nQueues rq
  let (queues, popped) ← r.queues.popHead rq
  if popped ≠ some n then
    throw .poppedOtherThread
  if ← queues.isEmpty rq then
    return { bitcache := r.bitcache &&& ~~~bit rq, queues }
  else
    return { r with queues }

def del (r : RunQueue usizeBits nQueues nThreads) (n : Nat) :
    Except Fault (RunQueue usizeBits nQueues nThreads) := do
  let (queues, emptied) ← r.queues.del n
  match emptied with
  | some emptyRunqueue => return { bitcache := r.bitcache &&& ~~~bit emptyRunqueue, queues }
  | none => return { r with queues }

def getNextWithRq (r : RunQueue usizeBits nQueues nThreads) :
    Except Fault (Option (Nat × Nat)) := do
  let rqFfs := ffs r.bitcache
  if rqFfs = 0 then
    return none
  let rq := rqFfs - 1
  return (← r.queues.peekHead rq).map fun id => (id, rq)

def getNext (r : RunQueue usizeBits nQueues nThreads) : Except Fault (Option Nat) := do
  return (← r.getNextWithRq).map Prod.fst

def popNext (r : RunQueue usizeBits nQueues nThreads) :
    Except Fault (RunQueue usizeBits nQueues nThreads × Option Nat) := do
  let rqFfs := ffs r.bitcache
  if rqFfs = 0 then
    return (r, none)
  let rq := rqFfs - 1
  let (queues, head) ← r.queues.popHead rq
  if ← queues.isEmpty rq then
    return ({ bitcache := r.bitcache &&& ~~~bit rq, queues }, head)
  else
    return ({ r with queues }, head)

def advance (r : RunQueue usizeBits nQueues nThreads) (rq : Nat) :
    Except Fault (RunQueue usizeBits nQueues nThreads × Bool) := do
  checkQueue nQueues rq
  let (queues, advanced) ← r.queues.advance rq
  return ({ r with queues }, advanced)

def isEmpty (r : RunQueue usizeBits nQueues nThreads) (rq : Nat) : Except Fault Bool := do
  checkQueue nQueues rq
  r.queues.isEmpty rq

/-- Iterator over the threads, from the highest runqueue in `bitcache` to lower ones. -/
structure Iter (usizeBits : Nat) where
  prev : Nat
  rqHead : Option Nat
  bitcache : BitVec usizeBits

def iterFrom (r : RunQueue usizeBits nQueues nThreads) (start rq : Nat) :
    Except Fault (Iter usizeBits) := do
  if rq + 1 ≥ usizeBits then
    throw .shiftOverflow
  return {
    prev := start
    rqHead := ← r.queues.peekHead rq
    bitcache := r.bitcache % bit (rq + 1) }

def Iter.next (queues : CList nQueues nThreads) (it : Iter usizeBits) :
    Except Fault (Iter usizeBits × Option Nat) := do
  let next ← queues.peekNext it.prev
  match it.rqHead with
  | none => return (it, none)
  | some rqHead =>
    if next ≠ rqHead then
      return ({ it with prev := next }, some next)
    -- Circled through the whole queue, so switch to the next one.
    let rq := ffs it.bitcache - 1
    let bitcache := it.bitcache &&& ~~~bit rq
    let rqHead ←
      if bitcache ≠ 0 then queues.peekHead (ffs bitcache - 1) else pure none
    match rqHead with
    | none => return ({ it with rqHead, bitcache }, none)
    | some next => return ({ prev := next, rqHead, bitcache }, some next)

/-- `Iterator::find`; the iterator yields each thread at most once. -/
def Iter.find (queues : CList nQueues nThreads) (predicate : Nat → Bool) :
    Nat → Iter usizeBits → Except Fault (Option Nat)
  | 0, _ => throw .divergence
  | fuel + 1, it => do
    match ← it.next queues with
    | (_, none) => return none
    | (it, some n) => if predicate n then return some n else it.find queues predicate fuel

def getNextFilter (r : RunQueue usizeBits nQueues nThreads) (predicate : Nat → Bool) :
    Except Fault (Option Nat) := do
  match ← r.getNextWithRq with
  | none => return none
  | some (next, prio) =>
    if predicate next then
      return some next
    (← r.iterFrom next prio).find r.queues predicate (nThreads + 1)

end RunQueue

end ArielOS
