import Mathlib.Logic.Basic

namespace ArielOS.Sensors

inductive Label
  | accelerationX
  | accelerationY
  | accelerationZ
  | altitude
  | angularVelocityX
  | angularVelocityY
  | angularVelocityZ
  | co2
  | groundSpeed
  | illuminance
  | latitude
  | longitude
  | opaqueChannel
  | opaqueGnssTime
  | pressure
  | relativeHumidity
  | heading
  | temperature
  | verticalSpeed
  | x
  | y
  | z
  deriving DecidableEq

structure ReadingChannel where
  label : Label
  scaling : Int
  deriving DecidableEq

inductive SampleError
  | temporarilyUnavailable
  | channelDisabled
  deriving DecidableEq

inductive SampleMetadata
  | unknownAccuracy
  | noMeasurementError
  | symmetricalError (deviation : Nat) (bias scaling : Int)
  | channelTemporarilyUnavailable
  | channelDisabled
  deriving DecidableEq

structure Sample where
  value : Int
  metadata : SampleMetadata
  deriving DecidableEq

/-- `Sample::value`. -/
def Sample.readValue (sample : Sample) : Except SampleError Int :=
  match sample.metadata with
  | .channelTemporarilyUnavailable => .error .temporarilyUnavailable
  | .channelDisabled => .error .channelDisabled
  | .noMeasurementError | .unknownAccuracy | .symmetricalError .. => .ok sample.value

/-- The sample has a value. -/
def SampleMetadata.bearsValue : SampleMetadata → Bool
  | .channelTemporarilyUnavailable | .channelDisabled => false
  | .noMeasurementError | .unknownAccuracy | .symmetricalError .. => true

theorem Sample.readValue_ok {sample : Sample} (bears : sample.metadata.bearsValue = true) :
    sample.readValue = .ok sample.value := by
  obtain ⟨value, metadata⟩ := sample
  cases metadata with
  | channelTemporarilyUnavailable | channelDisabled => cases bears
  | noMeasurementError | unknownAccuracy | symmetricalError => rfl

end ArielOS.Sensors
