import Mathlib.Data.BitVec
import ArielOS.Sensors.Sample
import ArielOS.Sensors.Signal

namespace ArielOS.Sensors

/-- Samples, with the number of the latest successful trigger before their measurement was started. -/
structure Measured where
  samples : List Sample
  startedAfter : Nat
  deriving DecidableEq

/-- What the device answers to a bus access, if the access succeeds. It is read as far as the access
    has room for it. -/
abbrev Answer := Option (UInt8 × UInt8)

/-- What `run` does next. -/
inductive Task
  | wait
  | startMeasurement
  | readStatus (startedAfter : Nat)
  | sleep (startedAfter : Nat)
  | readTemperature (startedAfter : Nat)
  | signal (result : ReadingResult Measured)
  deriving DecidableEq

/-- A waiter, with the number of the latest successful trigger before it was made. -/
structure Waiter where
  future : ReadingWaiter
  createdAfter : Nat
  deriving DecidableEq

/-- What a waiter resolved to. -/
structure Resolution where
  result : ReadingResult Measured
  createdAfter : Nat
  deriving DecidableEq

structure Stts22h where
  state : State
  /-- `run` was told to measure. -/
  signaling : Bool
  reading : SignalState (ReadingResult Measured)
  task : Task
  waiters : List Waiter
  /-- The number of successful triggers. -/
  triggers : Nat
  resolutions : List Resolution

namespace Stts22h

def busyBits : UInt8 := 1

def accuracy (temp : Int) : SampleMetadata :=
  if -1000 < temp ∧ temp < 6000 then .symmetricalError 50 0 (-2) else .symmetricalError 100 0 (-2)

/-- The bytes are the low and the high one of a signed number. -/
def samples (buf : UInt8 × UInt8) : List Sample :=
  let temp := (buf.2.toBitVec ++ buf.1.toBitVec).toInt
  [⟨temp, accuracy temp⟩]

/-- After `init`. -/
def initialized : Stts22h where
  state := .enabled
  signaling := false
  reading := .none
  task := .wait
  waiters := []
  triggers := 0
  resolutions := []

/-- The next part of `measure`, from one bus access to the next, or of the loop around it. -/
def run (answer : Answer) (driver : Stts22h) : Stts22h :=
  match driver.task with
  | .wait =>
    if driver.signaling then
      { driver with signaling := false, task := .startMeasurement }
    else
      driver
  | .startMeasurement =>
    match answer with
    | some _ => { driver with task := .readStatus driver.triggers }
    | none => { driver with task := .signal (.error .sensorAccess) }
  | .readStatus startedAfter =>
    match answer with
    | some (status, _) =>
      if status &&& busyBits = 0 then
        { driver with task := .readTemperature startedAfter }
      else
        { driver with task := .sleep startedAfter }
    | none => { driver with task := .signal (.error .sensorAccess) }
  | .sleep startedAfter => { driver with task := .readStatus startedAfter }
  | .readTemperature startedAfter =>
    match answer with
    | some buf => { driver with task := .signal (.ok ⟨samples buf, startedAfter⟩) }
    | none => { driver with task := .signal (.error .sensorAccess) }
  | .signal result =>
    let (reading, _) := driver.reading.signal result
    { driver with reading, task := .wait }

def triggerMeasurement (driver : Stts22h) : Stts22h × Except TriggerMeasurementError Unit :=
  let driver := { driver with reading := driver.reading.clear }
  match driver.state with
  | .measuring | .enabled =>
    ({ driver with state := .measuring, signaling := true, triggers := driver.triggers + 1 }, .ok ())
  | .uninitialized | .disabled | .sleeping => (driver, .error .nonEnabled)

def waitForReading (driver : Stts22h) : Stts22h :=
  let (state, future) := driver.state.waitForReading
  { driver with state, waiters := driver.waiters ++ [⟨future, driver.triggers⟩] }

def setMode (mode : Mode) (driver : Stts22h) : Stts22h × Except SetModeError State :=
  let (state, previous) := driver.state.setMode mode
  ({ driver with state }, previous)

def poll (i : Nat) (waker : Waker) (driver : Stts22h) : Except Fault Stts22h :=
  match driver.waiters[i]? with
  | none => .error .disabled
  | some waiter => do
    let (future, reading, result) ← waiter.future.poll waker driver.reading
    return { driver with
      reading
      waiters := driver.waiters.set i { waiter with future }
      resolutions := (result.map (⟨·, waiter.createdAfter⟩)).toList ++ driver.resolutions }

inductive Event
  | run (answer : Answer)
  | triggerMeasurement
  | waitForReading
  | setMode (mode : Mode)
  | poll (waiter : Nat) (waker : Waker)
  | drop (waiter : Nat)
  deriving DecidableEq

def step (e : Event) (driver : Stts22h) : Except Fault Stts22h :=
  match e with
  | .run answer => .ok (driver.run answer)
  | .triggerMeasurement => .ok driver.triggerMeasurement.1
  | .waitForReading => .ok driver.waitForReading
  | .setMode mode => .ok (driver.setMode mode).1
  | .poll waiter waker => driver.poll waiter waker
  | .drop waiter => .ok { driver with waiters := driver.waiters.eraseIdx waiter }

end Stts22h

end ArielOS.Sensors
