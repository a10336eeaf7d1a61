import ArielOS.Lib.Run

namespace ArielOS.Coapcore

/-- The panics of the modelled code. -/
inductive Panic
  /-- An index or a slice out of bounds, or a push to a full `ArrayVec`. -/
  | indexOutOfBounds
  /-- The assertions of `OrderedPool::new`. -/
  | capacityOverflow
  | levelOverflow
  /-- The assertion of a level below `L`. -/
  | levelExceedsLimit
  /-- An `expect` or an `unwrap` that found nothing. -/
  | expectFailed
  /-- Another `assert!` or `debug_assert!`. -/
  | assertionFailed
  /-- An `unreachable!()`. -/
  | unreachableCode
  /-- A `todo!()`. -/
  | notImplemented
  deriving DecidableEq, Repr

class PriorityLevel (T : Type) where
  level : T → Nat

export PriorityLevel (level)

/-- `entries` in the order in which their places were taken, and their indices by priority and
    recentness. -/
structure OrderedPool (T : Type) (N L : Nat) where
  entries : List T
  sorted : List Nat

/-- `slice[start..=last].rotate_left(1)`. -/
def rotateLeftIn (xs : List Nat) (start last : Nat) : List Nat :=
  xs.take start ++ ((xs.take (last + 1)).drop start).rotateLeft ++ xs.drop (last + 1)

/-- `slice[start..=last].rotate_right(1)`. -/
def rotateRightIn (xs : List Nat) (start last : Nat) : List Nat :=
  xs.take start ++ ((xs.take (last + 1)).drop start).rotateRight ++ xs.drop (last + 1)

namespace OrderedPool

variable {T R : Type} {N L : Nat}

def new : Except Panic (OrderedPool T N L) :=
  if ¬ N < 65535 then
    .error .capacityOverflow
  else if ¬ L < 65535 then
    .error .levelOverflow
  else
    .ok { entries := [], sorted := [] }

variable (pool : OrderedPool T N L)

def entryAt (index : Nat) : Except Panic T :=
  match pool.entries[index]? with
  | some entry => .ok entry
  | none => .error .indexOutOfBounds

def indexAt (position : Nat) : Except Panic Nat :=
  match pool.sorted[position]? with
  | some index => .ok index
  | none => .error .indexOutOfBounds

section Touch

variable [PriorityLevel T]

def levelAt (position : Nat) : Except Panic Nat := do
  return level (← pool.entryAt (← pool.indexAt position))

/-- The loop of `touch` to the front. -/
def towardsFront (newLevel : Nat) : Nat → Except Panic Nat
  | 0 => return 0
  | n + 1 => do
    if newLevel ≤ (← pool.levelAt n) then
      towardsFront newLevel n
    else
      return n + 1

/-- The loop of `touch` to the rear, with the number of positions behind the current one. -/
def towardsRear (newLevel : Nat) : Nat → Nat → Except Panic Nat
  | 0, position => return position
  | behind + 1, position => do
    if (← pool.levelAt (position + 1)) < newLevel then
      towardsRear newLevel behind (position + 1)
    else
      return position

def touch (position : Nat) : Except Panic (OrderedPool T N L) := do
  let newLevel ← pool.levelAt position
  if ¬ newLevel < L then
    .error .levelExceedsLimit
  else
    let newPosition ← pool.towardsFront newLevel position
    if newPosition = position then
      let newPosition ← pool.towardsRear newLevel (pool.sorted.length - 1 - position) position
      if newPosition = position then
        return pool
      else
        return { pool with sorted := rotateLeftIn pool.sorted position newPosition }
    else
      return { pool with sorted := rotateRightIn pool.sorted newPosition position }

/-- The loop of `lookup`, over the positions from `position` on. -/
def lookupFrom (fTest : T → Bool) (fUse : T → T × R) :
    Nat → List Nat → Except Panic (OrderedPool T N L × Option R)
  | _, [] => return (pool, none)
  | position, index :: rest => do
    let entry ← pool.entryAt index
    if fTest entry then
      let pool ← { pool with entries := pool.entries.set index (fUse entry).1 }.touch position
      return (pool, some (fUse entry).2)
    else
      lookupFrom fTest fUse (position + 1) rest

def lookup (fTest : T → Bool) (fUse : T → T × R) : Except Panic (OrderedPool T N L × Option R) :=
  pool.lookupFrom fTest fUse 0 pool.sorted

/-- Adds an entry behind the others, and touches it. -/
def push (new : T) : Except Panic (OrderedPool T N L) :=
  let newIndex := pool.entries.length
  if ¬ newIndex < 65536 then
    .error .expectFailed
  else if ¬ pool.sorted.length < N then
    .error .indexOutOfBounds
  else
    touch { entries := pool.entries ++ [new], sorted := pool.sorted ++ [newIndex] } newIndex

/-- The index of the last entry, and this entry. -/
def lastSlot : Except Panic (Nat × T) :=
  match pool.sorted.getLast? with
  | none => .error .expectFailed
  | some index => return (index, ← pool.entryAt index)

def insert (new : T) : Except Panic (OrderedPool T N L × Except T (Option T)) := do
  if pool.entries.length < N then
    return (← pool.push new, .ok none)
  else
    let (index, last) ← pool.lastSlot
    if ¬ level new < L then
      .error .levelExceedsLimit
    else if level new ≤ level last then
      let pool ← { pool with entries := pool.entries.set index new }.touch (N - 1)
      return (pool, .ok (some last))
    else
      return (pool, .error new)

def forceInsert (new : T) : Except Panic (OrderedPool T N L × Option T) := do
  if pool.entries.length < N then
    return (← pool.push new, none)
  else
    let (index, last) ← pool.lastSlot
    let pool ← { pool with entries := pool.entries.set index new }.touch (N - 1)
    return (pool, some last)

end Touch

end OrderedPool

end ArielOS.Coapcore
