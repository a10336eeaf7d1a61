import Mathlib.Data.Nat.Log
import Mathlib.Order.Bounds.Basic
import ArielOS.RingBuffer.RingBufferSpec

namespace ArielOS

open Machine

/-- The powers of two up to a bound. -/
def powersUpTo (bound : Nat) : Set Nat := {c | (∃ k, c = 2 ^ k) ∧ c ≤ bound}

theorem isGreatest_two_pow_log {n : Nat} (positive : n ≠ 0) :
    IsGreatest (powersUpTo n) (2 ^ Nat.log 2 n) := by
  refine ⟨⟨⟨_, rfl⟩, Nat.pow_log_le_self 2 positive⟩, ?_⟩
  rintro _ ⟨⟨k, rfl⟩, below⟩
  exact Nat.pow_le_pow_right (by decide) (Nat.le_log_of_pow_le (by decide) below)

namespace RingBufferIndex

/-- The capacity by the size that eight bits leave of a length. -/
theorem new_capacity (size : U8) : (new size).map capacity =
    .ok (if size.toNat < 2 then 0 else 2 ^ Nat.log2 size.toNat) := by
  revert size
  decide +kernel

end RingBufferIndex

namespace RingBuffer

variable {T : Type} {buffer : RingBuffer T} {array : List (MaybeUninit T)} {n : Nat}

/-- The capacity for a backing slice of this length. -/
def capacityFor (length : Nat) : Nat :=
  if length % 256 < 2 then 0 else 2 ^ Nat.log 2 (length % 256)

theorem newWith_capacity (made : newWith array = .ok buffer) :
    buffer.capacity = capacityFor array.length := by
  obtain ⟨index, new, rest⟩ := bind_ok_iff.mp made
  cases rest
  have capacity := RingBufferIndex.new_capacity (BitVec.ofNat 8 array.length)
  rw [new, BitVec.toNat_ofNat, Nat.log2_eq_log_two] at capacity
  exact Except.ok.inj capacity

/-- The length is below the range of eight bits, or eight bits leave at least half of it. -/
def Fitting (length : Nat) : Prop := length < 256 ∨ 128 ≤ length % 256

theorem log_of_upper_half {r : Nat} (low : 128 ≤ r) (high : r < 256) : Nat.log 2 r = 7 :=
  Nat.log_eq_of_pow_le_of_lt_pow low high

theorem capacityFor_le (length : Nat) : capacityFor length ≤ length % 256 := by
  unfold capacityFor
  split
  · exact Nat.zero_le _
  · rename_i large
    exact Nat.pow_log_le_self 2 (by omega)

theorem capacityFor_fitting (long : 2 ≤ n) (fitting : Fitting n) :
    capacityFor n = 2 ^ Nat.log 2 (min n 128) := by
  have upper : 128 ≤ n % 256 → capacityFor n = 2 ^ Nat.log 2 (min n 128) := by
    intro low
    have cut : min n 128 = 128 := by omega
    rw [capacityFor, if_neg (by omega), cut, log_of_upper_half low (Nat.mod_lt _ (by decide)),
      log_of_upper_half (Nat.le_refl 128) (by decide)]
  rcases fitting with short | low
  · by_cases low : 128 ≤ n % 256
    · exact upper low
    · have whole : n % 256 = n := Nat.mod_eq_of_lt short
      have uncut : min n 128 = n := by omega
      rw [capacityFor, whole, if_neg (by omega), uncut]
  · exact upper low

/-- No capacity exceeds the greatest power of two that the storage has room for. -/
theorem capacityFor_upper (length : Nat) (positive : 0 < length) :
    capacityFor length ≤ 2 ^ Nat.log 2 (min length 128) := by
  by_cases fitting : 2 ≤ length ∧ Fitting length
  · exact (capacityFor_fitting fitting.1 fitting.2).le
  · unfold capacityFor
    split
    · exact Nat.zero_le _
    · rename_i large
      apply Nat.pow_le_pow_right (by decide)
      apply Nat.log_mono_right
      unfold Fitting at fitting
      omega

theorem isGreatest_capacityFor_iff (long : 2 ≤ n) :
    IsGreatest (powersUpTo (min n 128)) (capacityFor n) ↔ Fitting n := by
  apply Iff.intro
  · intro greatest
    by_contra unfitting
    unfold Fitting at unfitting
    have power : 128 ∈ powersUpTo (min n 128) := ⟨⟨7, rfl⟩, by omega⟩
    have above : 128 ≤ capacityFor n := greatest.2 power
    have below := capacityFor_le n
    omega
  · intro fitting
    rw [capacityFor_fitting long fitting]
    exact isGreatest_two_pow_log (by omega)

theorem capacityFor_monotone_iff (long : 2 ≤ n) :
    (∀ m, 2 ≤ m → m ≤ n → capacityFor m ≤ capacityFor n) ↔ Fitting n := by
  apply Iff.intro
  · intro monotone
    by_contra unfitting
    unfold Fitting at unfitting
    have above := monotone 128 (by decide) (by omega)
    rw [capacityFor_fitting (by decide) (Or.inl (by decide)), Nat.min_self,
      log_of_upper_half (Nat.le_refl 128) (by decide)] at above
    have below := capacityFor_le n
    omega
  · intro fitting m some shorter
    rw [capacityFor_fitting long fitting]
    refine Nat.le_trans (capacityFor_upper m (by omega)) ?_
    apply Nat.pow_le_pow_right (by decide)
    apply Nat.log_mono_right
    omega

/-- Both ways of giving the buffer its storage use as much of it as a power of two up to 128 can, and
    no less than of any shorter storage, exactly if its length fits. -/
theorem storage_used_iff (array : List (MaybeUninit T)) (long : 2 ≤ array.length) :
    ∃ buffer, newWith array = .ok buffer ∧
      (∀ old : RingBuffer T, old.setBackingArray (some array) = .ok buffer) ∧
      (IsGreatest (powersUpTo (min array.length 128)) buffer.capacity ↔ Fitting array.length) ∧
      ((∀ (shorter : List (MaybeUninit T)) (other : RingBuffer T), 2 ≤ shorter.length →
        shorter.length ≤ array.length → newWith shorter = .ok other →
          other.capacity ≤ buffer.capacity) ↔ Fitting array.length) := by
  obtain ⟨buffer, made, -⟩ := newWith_spec array
  refine ⟨buffer, made, fun _ => made, ?_, ?_⟩
  · rw [newWith_capacity made]
    exact isGreatest_capacityFor_iff long
  · rw [newWith_capacity made, ← capacityFor_monotone_iff long]
    apply Iff.intro
    · intro monotone m some shorter
      obtain ⟨other, smaller, -⟩ := newWith_spec (array.take m)
      have length : (array.take m).length = m := by
        rw [List.length_take]
        omega
      have below := monotone (array.take m) other (by omega) (by omega) smaller
      rwa [newWith_capacity smaller, length] at below
    · intro monotone shorter other some below made'
      rw [newWith_capacity made']
      exact monotone shorter.length some below

theorem storage_used_iff_sample : ∃ buffer : RingBuffer Nat,
    newWith (List.replicate 200 none) = .ok buffer ∧
      IsGreatest (powersUpTo (min 200 128)) buffer.capacity := by
  have long : 2 ≤ (List.replicate 200 (none : MaybeUninit Nat)).length := by
    rw [List.length_replicate]
    decide
  obtain ⟨buffer, made, -, greatest, -⟩ := storage_used_iff _ long
  rw [List.length_replicate] at greatest
  exact ⟨buffer, made, greatest.mpr (Or.inl (by decide))⟩

/-- Of 256 slots, none is used. -/
theorem long_storage_unused : (newWith (List.replicate 256 none) : Except RingFault (RingBuffer Nat)).map
    RingBuffer.capacity = .ok 0 ∧ ¬ IsGreatest (powersUpTo (min 256 128)) 0 := by
  refine ⟨by decide +kernel, fun greatest => ?_⟩
  obtain ⟨k, power⟩ := greatest.1.1
  exact absurd power (Nat.ne_of_lt (Nat.two_pow_pos k))

end RingBuffer

end ArielOS
