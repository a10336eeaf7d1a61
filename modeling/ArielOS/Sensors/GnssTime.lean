import Mathlib.Algebra.Group.Int.Defs
import ArielOS.Lib.Run
import ArielOS.Sensors.ChannelsSamplesZip

namespace ArielOS.Sensors

/-- Samples, with the channels of the sensor that returned them. -/
structure Samples where
  readingChannels : List ReadingChannel
  samples : List Sample

/-- What the iterator that `Samples::samples` returns goes through. -/
def Samples.items (reading : Samples) : List (ReadingChannel × Sample) :=
  (ChannelsSamplesZip.new reading.readingChannels reading.samples).collect
    (reading.readingChannels.length + 1)

namespace GnssTime

open Machine

/-- 2025-01-01T00:00Z in seconds. -/
def arielEpoch : Int := 1735689600

inductive GnssTimeExtError
  | reading (error : SampleError)
  | invalidSensor
  deriving DecidableEq

inductive GnssTimeExtConvertError
  | overflow
  deriving DecidableEq

/-- The values of a signed integer type. -/
def Fits (bits : Nat) (x : Int) : Prop := -2 ^ (bits - 1) ≤ x ∧ x < 2 ^ (bits - 1)

instance (bits : Nat) (x : Int) : Decidable (Fits bits x) :=
  inferInstanceAs (Decidable (_ ∧ _))

/-- A conversion or a checked operation, with the result that it has without bounds. -/
def checked (bits : Nat) (x : Int) : Except GnssTimeExtConvertError Int :=
  if Fits bits x then .ok x else .error .overflow

def convertDatetimeToParts (timestampNanos : Int) : Except GnssTimeExtConvertError (Int × Int) := do
  let timestampSeconds ← checked 64 (timestampNanos.tdiv 1000000000)
  let sinceEpoch ← checked 64 (timestampSeconds - arielEpoch)
  let secondsSinceEpoch ← checked 32 sinceEpoch
  let nanoseconds ← checked 32 (timestampNanos.tmod 1000000000)
  return (secondsSinceEpoch, nanoseconds)

def getElementAfterMarker (items : List (ReadingChannel × Sample)) (marker : Label)
    (position : Nat) : Option (ReadingChannel × Sample) :=
  let rest := items.dropWhile fun item => item.1.label ≠ marker
  match rest[position]? with
  | some (channel, sample) =>
    if channel.label = .opaqueChannel ∨ channel.label = marker then some (channel, sample) else none
  | none => none

/-- The value of the sample at a position behind the marker. -/
def partAt (reading : Samples) (position : Nat) : Except GnssTimeExtError Int :=
  match getElementAfterMarker reading.items .opaqueGnssTime position with
  | none => .error .invalidSensor
  | some (_, sample) =>
    match sample.readValue with
    | .ok value => .ok value
    | .error error => .error (.reading error)

/-- The sum is that of an `i32` and the epoch, which an `i64` has room for. -/
def timeOfFixTimestamp (reading : Samples) : Except GnssTimeExtError Int := do
  let sinceArielEpoch ← partAt reading 0
  return arielEpoch + sinceArielEpoch

def timeOfFixSubsecNanos (reading : Samples) : Except GnssTimeExtError Int := partAt reading 1

def timeOfFixTimestampNanos (reading : Samples) : Except GnssTimeExtError Int := do
  let seconds ← timeOfFixTimestamp reading
  let nanos ← timeOfFixSubsecNanos reading
  return seconds * 1000000000 + nanos

section Convert

variable {t : Int}

theorem fits_32 {x : Int} : Fits 32 x ↔ -2147483648 ≤ x ∧ x < 2147483648 := Iff.rfl

theorem fits_64 {x : Int} :
    Fits 64 x ↔ -9223372036854775808 ≤ x ∧ x < 9223372036854775808 := Iff.rfl

theorem checked_fits {bits : Nat} {x : Int} (fits : Fits bits x) : checked bits x = .ok x :=
  if_pos fits

theorem checked_ok {bits : Nat} {x y : Int} (done : checked bits x = .ok y) : Fits bits x ∧ y = x := by
  unfold checked at done
  split at done
  · rename_i fits
    cases done
    exact ⟨fits, rfl⟩
  · cases done

/-- The nanoseconds are less than a second, in both directions. -/
theorem fits_nanoseconds (t : Int) : Fits 32 (t.tmod 1000000000) := by
  have above := Int.tmod_lt_of_pos t (show (0 : Int) < 1000000000 by decide)
  have below := Int.lt_tmod_of_pos t (show (0 : Int) < 1000000000 by decide)
  rw [fits_32]
  omega

/-- Whoever has seconds that fit behind the epoch has all else that the conversion checks. -/
theorem convert_fits (fits : Fits 32 (t.tdiv 1000000000 - arielEpoch)) :
    convertDatetimeToParts t = .ok (t.tdiv 1000000000 - arielEpoch, t.tmod 1000000000) := by
  have range := fits_32.mp fits
  have seconds : Fits 64 (t.tdiv 1000000000) := by
    rw [fits_64]
    unfold arielEpoch at range
    omega
  have since : Fits 64 (t.tdiv 1000000000 - arielEpoch) := by
    rw [fits_64]
    omega
  unfold convertDatetimeToParts
  simp only [checked_fits seconds, checked_fits since, checked_fits fits,
    checked_fits (fits_nanoseconds t), Machine.ok_bind, Machine.pure_eq_ok]

theorem convert_ok {parts : Int × Int} (done : convertDatetimeToParts t = .ok parts) :
    Fits 32 (t.tdiv 1000000000 - arielEpoch) ∧
      parts = (t.tdiv 1000000000 - arielEpoch, t.tmod 1000000000) := by
  unfold convertDatetimeToParts at done
  obtain ⟨seconds, first, done⟩ := bind_ok_iff.mp done
  obtain ⟨since, second, done⟩ := bind_ok_iff.mp done
  obtain ⟨sinceEpoch, third, done⟩ := bind_ok_iff.mp done
  obtain ⟨nanoseconds, fourth, done⟩ := bind_ok_iff.mp done
  obtain ⟨-, rfl⟩ := checked_ok first
  obtain ⟨-, rfl⟩ := checked_ok second
  obtain ⟨fits, rfl⟩ := checked_ok third
  obtain ⟨-, rfl⟩ := checked_ok fourth
  cases done
  exact ⟨fits, rfl⟩

end Convert

section Parts

variable {reading : Samples} {before : List ReadingChannel} {marker behind : ReadingChannel}
  {first second : Sample}

/-- The first marker has an opaque channel directly behind it, and these are the samples of both. -/
structure Marked (reading : Samples) (before : List ReadingChannel) (marker behind : ReadingChannel)
    (first second : Sample) : Prop where
  channels : ∃ after, reading.readingChannels = before ++ marker :: behind :: after
  isMarker : marker.label = .opaqueGnssTime
  isOpaque : behind.label = .opaqueChannel
  isFirst : ∀ channel ∈ before, channel.label ≠ .opaqueGnssTime
  firstPart : reading.samples[before.length]? = some first
  secondPart : reading.samples[before.length + 1]? = some second

theorem items_eq (reading : Samples) :
    reading.items = reading.readingChannels.zip reading.samples := by
  refine ChannelsSamplesZip.collect_after _ 0 ?_
  rw [List.length_zip]
  omega

theorem Marked.rest (marked : Marked reading before marker behind first second) :
    ∃ later, reading.items.dropWhile (fun item => item.1.label ≠ .opaqueGnssTime) =
      (marker, first) :: (behind, second) :: later := by
  obtain ⟨after, channels⟩ := marked.channels
  obtain ⟨bound, here⟩ := List.getElem?_eq_some_iff.mp marked.firstPart
  obtain ⟨bound', next⟩ := List.getElem?_eq_some_iff.mp marked.secondPart
  have split : reading.samples =
      reading.samples.take before.length ++ first :: second :: reading.samples.drop (before.length + 2) := by
    rw [← here, ← next, ← List.drop_eq_getElem_cons, ← List.drop_eq_getElem_cons,
      List.take_append_drop]
  have same : before.length = (reading.samples.take before.length).length := by
    rw [List.length_take]
    omega
  rw [items_eq, channels, split, List.zip_append same, List.dropWhile_append_of_pos]
  · rw [List.zip_cons_cons, List.zip_cons_cons, List.dropWhile_cons_of_neg (by simp [marked.isMarker])]
    exact ⟨_, rfl⟩
  · intro item member
    exact decide_eq_true (marked.isFirst item.1 (List.of_mem_zip member).1)

theorem partAt_eq {position : Nat} {channel : ReadingChannel} {sample : Sample}
    (found : getElementAfterMarker reading.items .opaqueGnssTime position = some (channel, sample))
    (bears : sample.metadata.bearsValue = true) : partAt reading position = .ok sample.value := by
  unfold partAt
  rw [found]
  dsimp only
  rw [Sample.readValue_ok bears]

theorem Marked.first_part (marked : Marked reading before marker behind first second)
    (bears : first.metadata.bearsValue = true) : partAt reading 0 = .ok first.value := by
  obtain ⟨later, rest⟩ := marked.rest
  have found : getElementAfterMarker reading.items .opaqueGnssTime 0 = some (marker, first) := by
    unfold getElementAfterMarker
    rw [rest]
    exact if_pos (Or.inr marked.isMarker)
  exact partAt_eq found bears

theorem Marked.second_part (marked : Marked reading before marker behind first second)
    (bears : second.metadata.bearsValue = true) : partAt reading 1 = .ok second.value := by
  obtain ⟨later, rest⟩ := marked.rest
  have found : getElementAfterMarker reading.items .opaqueGnssTime 1 = some (behind, second) := by
    unfold getElementAfterMarker
    rw [rest]
    exact if_pos (Or.inl marked.isOpaque)
  exact partAt_eq found bears

end Parts

/-- A time is converted exactly if its seconds since the epoch fit, and it is read back from the
    samples that have its parts. -/
theorem time_round_trip (t : Int) :
    ((∃ parts, convertDatetimeToParts t = .ok parts) ↔
      Fits 32 (t.tdiv 1000000000 - arielEpoch)) ∧
    ∀ (parts : Int × Int) (reading : Samples) (before : List ReadingChannel)
      (marker behind : ReadingChannel) (first second : Sample),
      convertDatetimeToParts t = .ok parts → Marked reading before marker behind first second →
      first.value = parts.1 → first.metadata.bearsValue = true →
      second.value = parts.2 → second.metadata.bearsValue = true →
        timeOfFixTimestampNanos reading = .ok t ∧
          timeOfFixTimestamp reading = .ok (t.tdiv 1000000000) := by
  refine ⟨⟨fun ⟨parts, done⟩ => (convert_ok done).1, fun fits => ⟨_, convert_fits fits⟩⟩, ?_⟩
  intro parts reading before marker behind first second done marked firstPart bearsFirst secondPart
    bearsSecond
  obtain ⟨-, rfl⟩ := convert_ok done
  have seconds : timeOfFixTimestamp reading = .ok (t.tdiv 1000000000) := by
    unfold timeOfFixTimestamp
    rw [marked.first_part bearsFirst, ok_bind, firstPart, pure_eq_ok, Except.ok.injEq]
    omega
  refine ⟨?_, seconds⟩
  unfold timeOfFixTimestampNanos timeOfFixSubsecNanos
  rw [seconds, ok_bind, marked.second_part bearsSecond, ok_bind, secondPart, pure_eq_ok,
    Int.tdiv_mul_add_tmod]

/-- A time before 1970, with a channel before its parts. -/
def pastReading : Samples where
  readingChannels := [⟨.altitude, 0⟩, ⟨.opaqueGnssTime, 0⟩, ⟨.opaqueChannel, -9⟩]
  samples := [⟨0, .unknownAccuracy⟩, ⟨-2036238475, .unknownAccuracy⟩, ⟨-876550000, .unknownAccuracy⟩]

theorem time_round_trip_sample : timeOfFixTimestampNanos pastReading = .ok (-300548875876550000) ∧
    timeOfFixTimestamp pastReading = .ok (-300548875) :=
  (time_round_trip (-300548875876550000)).2 (-2036238475, -876550000) pastReading [⟨.altitude, 0⟩]
    ⟨.opaqueGnssTime, 0⟩ ⟨.opaqueChannel, -9⟩ _ _ (by decide)
    ⟨⟨[], rfl⟩, rfl, rfl, by decide, rfl, rfl⟩ rfl rfl rfl rfl

end GnssTime

end ArielOS.Sensors
