import Mathlib.Logic.Function.Basic
import ArielOS.Lib.Run

namespace ArielOS

/-- The ways in which the modelled code stops without a result. -/
inductive Fault
  /-- An array access out of bounds, or a failed `debug_assert!` on an index. -/
  | indexOutOfBounds
  /-- A shift by the width of the type or more. -/
  | shiftOverflow
  /-- `CList::push` was given the sentinel as a thread id. -/
  | sentinelPushed
  /-- The `assert_eq!` of `RunQueue::pop_head`. -/
  | poppedOtherThread
  /-- The `debug_assert_eq!` of `Scheduler::set_state`. -/
  | stoppedOtherThread
  /-- `current()` was needed outside of a thread context. -/
  | noThreadContext
  /-- `lowest_running_prio` found no core that matches the affinity. -/
  | noMatchingCore
  /-- `create_raw` found no free thread slot. -/
  | tooManyThreads
  /-- An `unreachable!()` was reached. -/
  | unreachableCode
  /-- A loop of the code does not end. -/
  | divergence
  /-- Not a fault of the code: the event cannot happen in this state. -/
  | disabled
  deriving DecidableEq, Repr

variable {α : Type} {n : Nat}

def readAt (v : Vector α n) (i : Nat) : Except Fault α :=
  if h : i < n then .ok v[i] else .error .indexOutOfBounds

def writeAt (v : Vector α n) (i : Nat) (a : α) : Except Fault (Vector α n) :=
  if h : i < n then .ok (v.set i a) else .error .indexOutOfBounds

/-- An array as a function that is constant outside of the bounds. -/
def view (default : α) (v : Vector α n) (i : Nat) : α := v[i]?.getD default

theorem readAt_ok (default : α) (v : Vector α n) {i : Nat} (bound : i < n) :
    readAt v i = .ok (view default v i) := by
  simp [readAt, view, bound]

theorem writeAt_ok (v : Vector α n) {i : Nat} (a : α) (bound : i < n) :
    writeAt v i a = .ok (v.set i a) := by
  simp [writeAt, bound]

theorem view_set (default : α) (v : Vector α n) {i : Nat} (a : α) (bound : i < n) :
    view default (v.set i a) = Function.update (view default v) i a := by
  funext j
  by_cases same : j = i
  · subst same
    simp [view, bound]
  · simp [view, same, Ne.symm same]

theorem view_replicate (a : α) (i : Nat) : view a (Vector.replicate n a) i = a := by
  by_cases bound : i < n <;> simp [view, bound]

end ArielOS
