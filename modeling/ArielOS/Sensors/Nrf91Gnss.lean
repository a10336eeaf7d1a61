import ArielOS.Sensors.Signal

namespace ArielOS.Sensors

inductive Command
  | start
  | trigger
  | stop
  deriving DecidableEq

/-- The mode of the driver, without the times that the modem is given. -/
inductive GnssOperationMode
  | continuous
  | periodic
  | singleShot
  deriving DecidableEq

/-- What the stream of the modem yields. -/
inductive StreamItem (Data : Type)
  | positionVelocityTime (pos : Data)
  | nmea
  | agps
  | error
  | ended

/-- What wakes `run`: anything but the stream, or the stream. -/
inductive Input (Data : Type)
  | ready
  | item (item : StreamItem Data)

/-- What `run` does next. A modem that cannot start a fix ends it with a panic. -/
inductive GnssTask (Data : Type)
  | checkState
  | receiveStart
  | receiveTrigger
  | startFix
  | checkStream (latestData : Option Data) (shouldSendUpdate : Bool)
  | select (latestData : Option Data) (shouldSendUpdate : Bool)
  | deactivate

/-- A command is awaited outside of a fix, because the driver was not enabled. -/
def GnssTask.awaitsStart {Data : Type} : GnssTask Data → Bool
  | .receiveStart => true
  | .checkState | .receiveTrigger | .startFix | .checkStream .. | .select .. | .deactivate => false

/-- A fix is started or in progress. -/
def GnssTask.fixing {Data : Type} : GnssTask Data → Bool
  | .startFix | .checkStream .. | .select .. => true
  | .checkState | .receiveStart | .receiveTrigger | .deactivate => false

structure Nrf91Gnss (Data Samples : Type) where
  state : State
  commandChannel : Option Command
  resultSignal : SignalState (ReadingResult Samples)
  task : GnssTask Data
  waiters : List ReadingWaiter
  /-- A trigger was accepted, and no waiter was given a result since. -/
  unanswered : Bool

namespace Nrf91Gnss

variable {Data Samples : Type} (mode : GnssOperationMode) (convertToSamples : Data → Samples)

/-- After `init`. -/
def initialized : Nrf91Gnss Data Samples where
  state := .enabled
  commandChannel := none
  resultSignal := .none
  task := .checkState
  waiters := []
  unanswered := false

/-- `Channel::try_send`, without the error. -/
def trySend (command : Command) (driver : Nrf91Gnss Data Samples) : Nrf91Gnss Data Samples :=
  match driver.commandChannel with
  | none => { driver with commandChannel := some command }
  | some _ => driver

def signalResult (result : ReadingResult Samples) (driver : Nrf91Gnss Data Samples) :
    Nrf91Gnss Data Samples :=
  { driver with resultSignal := (driver.resultSignal.signal result).1 }

/-- What follows in `run` once the driver is enabled. -/
def obtainStream : GnssTask Data :=
  match mode with
  | .continuous | .periodic => .startFix
  | .singleShot => .receiveTrigger

/-- The part of `handle_gnss_stream` behind `select`, for an item of the stream. -/
def handleItem (latestData : Option Data) (shouldSendUpdate : Bool) (driver : Nrf91Gnss Data Samples) :
    StreamItem Data → Nrf91Gnss Data Samples
  | .ended =>
    let driver :=
      if mode = .singleShot then
        let driver := { driver with resultSignal := driver.resultSignal.clear }
        match latestData with
        | some data => driver.signalResult (.ok (convertToSamples data))
        | none => driver.signalResult (.error .sensorAccess)
      else
        driver
    { driver with task := .deactivate }
  | .positionVelocityTime pos =>
    let driver := if shouldSendUpdate then driver.signalResult (.ok (convertToSamples pos)) else driver
    { driver with task := .checkStream (some pos) false }
  | .nmea | .agps | .error => { driver with task := .checkStream latestData shouldSendUpdate }

/-- The same for a command. -/
def handleCommand (latestData : Option Data) (shouldSendUpdate : Bool) : Command → GnssTask Data
  | .start => .checkStream latestData shouldSendUpdate
  | .stop => .deactivate
  | .trigger =>
    if shouldSendUpdate ∨ mode = .singleShot then
      .checkStream latestData shouldSendUpdate
    else
      .checkStream latestData true

/-- The next part of `run` and `handle_gnss_stream`. It stays where it waits for something else. -/
def run (input : Input Data) (driver : Nrf91Gnss Data Samples) : Nrf91Gnss Data Samples :=
  match driver.task, driver.commandChannel, input with
  | .checkState, _, _ =>
    if driver.state ≠ .enabled then
      { driver with task := .receiveStart }
    else
      { driver with task := obtainStream mode }
  | .receiveStart, some command, _ =>
    if command ≠ .start then
      { driver with commandChannel := none, task := .checkState }
    else
      { driver with commandChannel := none, task := obtainStream mode }
  | .receiveStart, none, _ => driver
  | .receiveTrigger, some .trigger, _ => { driver with commandChannel := none, task := .startFix }
  | .receiveTrigger, some .stop, _ | .receiveTrigger, some .start, _ =>
    { driver with commandChannel := none, task := .checkState }
  | .receiveTrigger, none, _ => driver
  | .startFix, _, _ => { driver with task := .checkStream none false }
  | .checkStream latestData shouldSendUpdate, _, _ =>
    if ¬ (driver.state = .enabled ∨ driver.state = .measuring) then
      { driver with task := .deactivate }
    else
      { driver with task := .select latestData shouldSendUpdate }
  | .select latestData shouldSendUpdate, _, .item item =>
    driver.handleItem mode convertToSamples latestData shouldSendUpdate item
  | .select latestData shouldSendUpdate, some command, .ready =>
    { driver with
      commandChannel := none
      task := handleCommand mode latestData shouldSendUpdate command }
  | .select .., none, .ready => driver
  | .deactivate, _, _ => { driver with task := .checkState }

def triggerMeasurement (driver : Nrf91Gnss Data Samples) :
    Nrf91Gnss Data Samples × Except TriggerMeasurementError Unit :=
  let driver := { driver with resultSignal := driver.resultSignal.clear }
  match driver.state with
  | .measuring => ({ driver with unanswered := true }, .ok ())
  | .enabled =>
    let driver := { driver with state := .measuring }
    ({ driver.trySend .trigger with unanswered := true }, .ok ())
  | .disabled | .sleeping | .uninitialized => (driver, .error .nonEnabled)

def waitForReading (driver : Nrf91Gnss Data Samples) : Nrf91Gnss Data Samples :=
  let (state, future) := driver.state.waitForReading
  { driver with state, waiters := driver.waiters ++ [future] }

def setMode (mode : Mode) (driver : Nrf91Gnss Data Samples) :
    Nrf91Gnss Data Samples × Except SetModeError State :=
  match driver.state.setMode mode with
  | (state, .error error) => ({ driver with state }, .error error)
  | (state, .ok old) =>
    let driver := { driver with state }
    match mode with
    | .enabled => (driver.trySend .start, .ok old)
    | .disabled | .sleeping => (driver.trySend .stop, .ok old)

def poll (i : Nat) (waker : Waker) (driver : Nrf91Gnss Data Samples) :
    Except Fault (Nrf91Gnss Data Samples) :=
  match driver.waiters[i]? with
  | none => .error .disabled
  | some future => do
    let (future', resultSignal, result) ← future.poll waker driver.resultSignal
    return { driver with
      resultSignal
      waiters := driver.waiters.set i future'
      unanswered := driver.unanswered && !(future = .waiter && result.isSome) }

inductive GnssEvent (Data : Type)
  | run (input : Input Data)
  | triggerMeasurement
  | waitForReading
  | enable
  | poll (waiter : Nat) (waker : Waker)
  | drop (waiter : Nat)

def step (e : GnssEvent Data) (driver : Nrf91Gnss Data Samples) :
    Except Fault (Nrf91Gnss Data Samples) :=
  match e with
  | .run input => .ok (driver.run mode convertToSamples input)
  | .triggerMeasurement => .ok driver.triggerMeasurement.1
  | .waitForReading => .ok driver.waitForReading
  | .enable => .ok (driver.setMode .enabled).1
  | .poll waiter waker => driver.poll waiter waker
  | .drop waiter => .ok { driver with waiters := driver.waiters.eraseIdx waiter }

end Nrf91Gnss

end ArielOS.Sensors
