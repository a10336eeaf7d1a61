import Mathlib.Data.List.Basic
import ArielOS.Sensors.Sample

namespace ArielOS.Sensors

structure ChannelsSamplesZip where
  readingChannels : List ReadingChannel
  samples : List Sample
  i : Nat

namespace ChannelsSamplesZip

def new (readingChannels : List ReadingChannel) (samples : List Sample) : ChannelsSamplesZip where
  readingChannels := readingChannels
  samples := samples
  i := 0

def next (it : ChannelsSamplesZip) : ChannelsSamplesZip × Option (ReadingChannel × Sample) :=
  match it.readingChannels[it.i]?, it.samples[it.i]? with
  | some readingChannel, some sample => ({ it with i := it.i + 1 }, some (readingChannel, sample))
  | _, _ => (it, none)

def len (it : ChannelsSamplesZip) : Nat := min it.readingChannels.length it.samples.length

/-- The iterator after a number of calls of `next`, and what they returned. -/
def nexts : Nat → ChannelsSamplesZip →
    ChannelsSamplesZip × List (Option (ReadingChannel × Sample))
  | 0, it => (it, [])
  | k + 1, it =>
    let (it, item) := it.next
    let (it, items) := nexts k it
    (it, item :: items)

/-- The items before the first `None`, as far as this number of calls reaches. -/
def collect : Nat → ChannelsSamplesZip → List (ReadingChannel × Sample)
  | 0, _ => []
  | k + 1, it =>
    match it.next with
    | (_, none) => []
    | (it, some item) => item :: collect k it

variable (channels : List ReadingChannel) (samples : List Sample)

/-- The iterator when it has returned a number of pairs. -/
def after (i : Nat) : ChannelsSamplesZip := ⟨channels, samples, i⟩

variable {channels samples}

theorem next_pair {i : Nat} {pair : ReadingChannel × Sample}
    (here : (channels.zip samples)[i]? = some pair) :
    (after channels samples i).next = (after channels samples (i + 1), some pair) := by
  obtain ⟨first, second⟩ := List.getElem?_zip_eq_some.mp here
  unfold next after
  dsimp only at first second ⊢
  rw [first, second]

theorem next_ended {i : Nat} (ended : (channels.zip samples)[i]? = none) :
    (after channels samples i).next = (after channels samples i, none) := by
  unfold next after
  dsimp only
  split
  · rename_i channel sample first second
    have pair : (channels.zip samples)[i]? = some (channel, sample) :=
      List.getElem?_zip_eq_some.mpr ⟨first, second⟩
    rw [pair] at ended
    cases ended
  · rfl

/-- The calls return the remaining pairs one after the other, and then nothing. -/
theorem nexts_after (k i : Nat) (within : i ≤ (channels.zip samples).length) :
    nexts k (after channels samples i) =
      (after channels samples (i + min k ((channels.zip samples).length - i)),
        (((channels.zip samples).drop i).take k).map some ++
          List.replicate (k - ((channels.zip samples).length - i)) none) := by
  induction k generalizing i with
  | zero => simp [nexts]
  | succ k ih =>
    cases here : (channels.zip samples)[i]? with
    | none =>
      have last : (channels.zip samples).length ≤ i := List.getElem?_eq_none_iff.mp here
      simp only [nexts, next_ended here, ih i within, Nat.sub_eq_zero_of_le last,
        List.drop_of_length_le last, Nat.min_zero, Nat.sub_zero, List.take_nil, List.map_nil,
        List.nil_append, List.replicate_succ]
    | some pair =>
      obtain ⟨bound, found⟩ := List.getElem?_eq_some_iff.mp here
      have moved : i + 1 + min k ((channels.zip samples).length - (i + 1)) =
          i + min (k + 1) ((channels.zip samples).length - i) := by omega
      have rest : k - ((channels.zip samples).length - (i + 1)) =
          k + 1 - ((channels.zip samples).length - i) := by omega
      simp only [nexts, next_pair here, ih (i + 1) bound, moved, rest]
      rw [List.drop_eq_getElem_cons bound, found]
      rfl

theorem collect_after (k i : Nat) (enough : (channels.zip samples).length ≤ i + k) :
    collect k (after channels samples i) = (channels.zip samples).drop i := by
  induction k generalizing i with
  | zero => exact (List.drop_of_length_le enough).symm
  | succ k ih =>
    cases here : (channels.zip samples)[i]? with
    | none =>
      rw [collect, next_ended here, List.drop_of_length_le (List.getElem?_eq_none_iff.mp here)]
    | some pair =>
      obtain ⟨bound, found⟩ := List.getElem?_eq_some_iff.mp here
      rw [collect, next_pair here, List.drop_eq_getElem_cons bound, found]
      dsimp only
      rw [ih (i + 1) (by omega)]

/-- `next` returns the pairs in order and then nothing, and `len` is the number of pairs that remain
    exactly if none was returned before. -/
theorem samples_iterator_iff (channels : List ReadingChannel) (samples : List Sample) (k : Nat) :
    (nexts k (new channels samples)).2 =
        ((channels.zip samples).take k).map some ++
          List.replicate (k - min channels.length samples.length) none ∧
      ((nexts k (new channels samples)).1.len =
          min channels.length samples.length - min k (min channels.length samples.length) ↔
        k = 0 ∨ min channels.length samples.length = 0) := by
  have all : nexts k (new channels samples) = _ := nexts_after k 0 (Nat.zero_le _)
  rw [all, List.length_zip]
  refine ⟨rfl, ?_⟩
  unfold len after
  dsimp only
  omega

/-- When one of two pairs was returned, `len` is still two. -/
theorem len_not_remaining :
    (nexts 1 (new [⟨.temperature, -2⟩, ⟨.relativeHumidity, 0⟩]
      [⟨2500, .unknownAccuracy⟩, ⟨40, .unknownAccuracy⟩])).1.len ≠ 2 - min 1 2 := by
  decide

end ChannelsSamplesZip

end ArielOS.Sensors
