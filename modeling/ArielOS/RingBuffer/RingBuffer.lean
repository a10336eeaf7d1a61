import Mathlib.Data.List.Basic

namespace ArielOS

/-- The ways in which the code of the ring buffer can fail. -/
inductive RingFault
  | overflow
  /-- `unwrap()` without a backing slice. -/
  | noSlice
  | indexOutOfBounds
  /-- `assume_init()` of a slot that was never written. -/
  | uninitialized
  deriving DecidableEq, Repr

abbrev U8 := BitVec 8

def isPowerOfTwo (val : U8) : Bool := (List.range 8).any fun k => val = BitVec.twoPow 8 k

def nextPowerOfTwo (val : U8) : Except RingFault U8 :=
  match (List.range 8).find? fun k => val ≤ BitVec.twoPow 8 k with
  | some k => .ok (BitVec.twoPow 8 k)
  | none => .error .overflow

def nextSmallerPowerOfTwo (val : U8) : Except RingFault U8 :=
  if isPowerOfTwo val then .ok val else nextPowerOfTwo ((val >>> 1) + 1)

/-- Indices of a ring buffer, from free-running counters. -/
structure RingBufferIndex where
  reads : U8
  writes : U8
  mask : U8
  deriving DecidableEq, Repr

namespace RingBufferIndex

def new (size : U8) : Except RingFault RingBufferIndex := do
  let floor ← nextSmallerPowerOfTwo size
  if floor = 0 then
    throw .overflow
  return { reads := 0, writes := 0, mask := floor - 1 }

variable (index : RingBufferIndex)

def available : U8 := index.writes - index.reads

def isEmpty : Bool := index.writes - index.reads = 0

def isFull : Bool := index.mask = 0 || index.mask < index.available

def get : RingBufferIndex × Option U8 :=
  if !index.isEmpty then
    ({ index with reads := index.reads + 1 }, some (index.reads &&& index.mask))
  else
    (index, none)

def peek : Option U8 :=
  if !index.isEmpty then some (index.reads &&& index.mask) else none

def put : RingBufferIndex × Option U8 :=
  if !index.isFull then
    ({ index with writes := index.writes + 1 }, some (index.writes &&& index.mask))
  else
    (index, none)

def capacity : Nat := if 0 < index.mask then index.mask.toNat + 1 else 0

end RingBufferIndex

/-- A slot of memory: `none` if it was never written. -/
abbrev MaybeUninit (T : Type) := Option T

structure RingBuffer (T : Type) where
  index : RingBufferIndex
  slice : Option (List (MaybeUninit T))

namespace RingBuffer

variable {T : Type}

def new : Except RingFault (RingBuffer T) := do
  return { index := ← RingBufferIndex.new 0, slice := none }

/-- The length of the backing array is cut off to eight bits. -/
def newWith (backingArray : List (MaybeUninit T)) : Except RingFault (RingBuffer T) := do
  return {
    index := ← RingBufferIndex.new (BitVec.ofNat 8 backingArray.length)
    slice := some backingArray }

def setBackingArray (_ : RingBuffer T) (array : Option (List (MaybeUninit T))) :
    Except RingFault (RingBuffer T) := do
  let len :=
    match array with
    | some array => array.length
    | none => 0
  return { slice := array, index := ← RingBufferIndex.new (BitVec.ofNat 8 len) }

variable (buffer : RingBuffer T)

def put (element : T) : Except RingFault (RingBuffer T × Bool) :=
  match buffer.index.put with
  | (index, some pos) =>
    match buffer.slice with
    | none => .error .noSlice
    | some slice =>
      if pos.toNat < slice.length then
        .ok ({ index, slice := some (slice.set pos.toNat (some element)) }, true)
      else
        .error .indexOutOfBounds
  | (_, none) => .ok (buffer, false)

def getPos (pos : Nat) : Except RingFault T :=
  match buffer.slice with
  | none => .error .noSlice
  | some slice =>
    match slice[pos]? with
    | none => .error .indexOutOfBounds
    | some none => .error .uninitialized
    | some (some element) => .ok element

def get : Except RingFault (RingBuffer T × Option T) :=
  match buffer.index.get with
  | (index, some pos) => do
    return ({ buffer with index }, some (← buffer.getPos pos.toNat))
  | (_, none) => .ok (buffer, none)

def peek : Except RingFault (Option T) :=
  match buffer.index.peek with
  | some pos => do return some (← buffer.getPos pos.toNat)
  | none => .ok none

def available : Nat := buffer.index.available.toNat

def capacity : Nat := buffer.index.capacity

def isFull : Bool := buffer.index.isFull

def isEmpty : Bool := buffer.index.isEmpty

end RingBuffer

inductive RingOp (T : Type)
  | put (element : T)
  | get
  | peek

/-- What the operations return. -/
inductive RingResult (T : Type)
  | put (accepted : Bool)
  | got (element : Option T)
  deriving DecidableEq

namespace RingBuffer

variable {T : Type}

def exec (buffer : RingBuffer T) : RingOp T → Except RingFault (RingBuffer T × RingResult T)
  | .put element => do
    let (buffer, accepted) ← buffer.put element
    return (buffer, .put accepted)
  | .get => do
    let (buffer, element) ← buffer.get
    return (buffer, .got element)
  | .peek => do
    let element ← buffer.peek
    return (buffer, .got element)

def execAll : List (RingOp T) → RingBuffer T →
    Except RingFault (RingBuffer T × List (RingResult T))
  | [], buffer => .ok (buffer, [])
  | op :: ops, buffer => do
    let (buffer, result) ← buffer.exec op
    let (buffer, results) ← execAll ops buffer
    return (buffer, result :: results)

end RingBuffer

end ArielOS
