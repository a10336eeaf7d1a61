import ArielOS.Fault

namespace ArielOS.Sensors

/-- The number of the task that is woken. -/
abbrev Waker := Nat

inductive SignalState (T : Type)
  | none
  | waiting (waker : Waker)
  | ready (value : T)
  deriving DecidableEq

namespace SignalState

variable {T : Type}

/-- The new state, and whom it wakes. -/
def signal (new : T) : SignalState T → SignalState T × Option Waker
  | .none => (.ready new, Option.none)
  | .ready _ => (.ready new, Option.none)
  | .waiting readWaker => (.ready new, some readWaker)

/-- The new state, whom it wakes, and the value if the future is ready. -/
def pollWait (waker : Waker) : SignalState T → SignalState T × Option Waker × Option T
  | .none => (.waiting waker, Option.none, Option.none)
  | .waiting prevWaker =>
    if prevWaker = waker then
      (.waiting prevWaker, Option.none, Option.none)
    else
      (.waiting waker, some prevWaker, Option.none)
  | .ready res => (.none, Option.none, some res)

def clear : SignalState T → SignalState T
  | .none | .ready _ => .none
  | .waiting waker => .waiting waker

def isReady : SignalState T → Bool
  | .ready _ => true
  | .none | .waiting _ => false

@[simp] theorem signal_fst (new : T) (state : SignalState T) :
    (state.signal new).1 = .ready new := by
  cases state <;> rfl

@[simp] theorem clear_ne_ready (state : SignalState T) (value : T) :
    state.clear ≠ .ready value := by
  cases state <;> simp [clear]

@[simp] theorem isReady_clear (state : SignalState T) : state.clear.isReady = false := by
  cases state <;> rfl

theorem pollWait_ready {waker : Waker} {state : SignalState T} {value : T} :
    (state.pollWait waker).2.2 = some value ↔ state = .ready value := by
  cases state with
  | none => simp [pollWait]
  | ready res => simp [pollWait]
  | waiting prevWaker => dsimp only [pollWait]; split <;> simp

theorem pollWait_ne_ready (waker : Waker) (state : SignalState T) (value : T) :
    (state.pollWait waker).1 ≠ .ready value := by
  cases state with
  | none => simp [pollWait]
  | ready res => simp [pollWait]
  | waiting prevWaker => dsimp only [pollWait]; split <;> simp

end SignalState

inductive State
  | uninitialized
  | disabled
  | enabled
  | measuring
  | sleeping
  deriving DecidableEq

inductive Mode
  | disabled
  | enabled
  | sleeping
  deriving DecidableEq

def State.ofMode : Mode → State
  | .disabled => .disabled
  | .enabled => .enabled
  | .sleeping => .sleeping

inductive ReadingError
  | nonEnabled
  | sensorAccess
  | notMeasuring
  deriving DecidableEq

abbrev ReadingResult (R : Type) := Except ReadingError R

inductive TriggerMeasurementError
  | nonEnabled
  deriving DecidableEq

inductive SetModeError
  | uninitialized
  deriving DecidableEq

/-- `AtomicState::set_mode`: the new state and the previous one. -/
def State.setMode (state : State) (mode : Mode) : State × Except SetModeError State :=
  if state = .uninitialized then (state, .error .uninitialized) else (State.ofMode mode, .ok state)

inductive ReadingWaiter
  | waiter
  | err (error : ReadingError)
  | resolved
  deriving DecidableEq

/-- The state of the sensor after `wait_for_reading`, which all drivers have in common, and the
    waiter. -/
def State.waitForReading : State → State × ReadingWaiter
  | .measuring => (.enabled, .waiter)
  | .enabled => (.enabled, .err .notMeasuring)
  | .uninitialized => (.uninitialized, .err .nonEnabled)
  | .disabled => (.disabled, .err .nonEnabled)
  | .sleeping => (.sleeping, .err .nonEnabled)

/-- The waiter and the signal afterwards, and the result if the waiter resolves. -/
def ReadingWaiter.poll {R : Type} (waker : Waker) (reading : SignalState (ReadingResult R)) :
    ReadingWaiter → Except Fault
      (ReadingWaiter × SignalState (ReadingResult R) × Option (ReadingResult R))
  | .waiter =>
    let (reading, _, result) := reading.pollWait waker
    .ok (.waiter, reading, result)
  | .err error => .ok (.resolved, reading, some (.error error))
  | .resolved => .error .unreachableCode

theorem ReadingWaiter.poll_ok {R : Type} {waker : Waker}
    {reading reading' : SignalState (ReadingResult R)} {future future' : ReadingWaiter}
    {result : Option (ReadingResult R)} {samples : R}
    (done : future.poll waker reading = .ok (future', reading', result)) :
    (reading' = .ready (.ok samples) → reading = .ready (.ok samples)) ∧
      (result = some (.ok samples) → reading = .ready (.ok samples)) := by
  cases future with
  | waiter =>
    cases done
    exact ⟨fun ready => absurd ready (reading.pollWait_ne_ready waker _),
      SignalState.pollWait_ready.mp⟩
  | err error =>
    cases done
    exact ⟨id, fun same => by cases same⟩
  | resolved => cases done

end ArielOS.Sensors
