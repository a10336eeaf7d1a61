import Mathlib.Algebra.Group.Nat.Defs
import ArielOS.Lib.Ring
import ArielOS.Lib.Run
import ArielOS.RingBuffer.RingBuffer

namespace ArielOS

open Machine Ring

theorem nextSmallerPowerOfTwo_spec (size : U8) :
    ∃ k < 8, nextSmallerPowerOfTwo size = .ok (BitVec.twoPow 8 k) ∧
      (BitVec.twoPow 8 k ≤ size ∨ k = 0) := by
  revert size
  decide +kernel

namespace RingBufferIndex

variable {index : RingBufferIndex}

/-- The mask selects the position in a ring of a power of two. -/
def Masks (index : RingBufferIndex) : Prop := ∃ k < 8, index.mask.toNat + 1 = 2 ^ k

def size (index : RingBufferIndex) : Nat := index.mask.toNat + 1

theorem Masks.divides (masks : index.Masks) : index.size ∣ 2 ^ 8 := by
  obtain ⟨k, small, same⟩ := masks
  rw [size, same]
  exact Nat.pow_dvd_pow 2 (Nat.le_of_lt small)

theorem Masks.position (masks : index.Masks) (counter : U8) :
    (counter &&& index.mask).toNat = counter.toNat % index.size := by
  obtain ⟨k, small, same⟩ := masks
  have mask : index.mask.toNat = 2 ^ k - 1 := Nat.eq_sub_of_add_eq same
  rw [BitVec.toNat_and, mask, Nat.and_two_pow_sub_one_eq_mod, size, same]

theorem Masks.small (masks : index.Masks) : index.size ≤ 128 := by
  obtain ⟨k, small, same⟩ := masks
  rw [size, same]
  exact Nat.pow_le_pow_right (by decide) (Nat.le_of_lt_succ small)

theorem Masks.writes (masks : index.Masks) :
    index.writes.toNat % index.size =
      (index.reads.toNat + index.available.toNat) % index.size := by
  have counted : index.writes = index.reads + index.available := by
    rw [available]
    bv_omega
  rw [counted, BitVec.toNat_add]
  exact Nat.mod_mod_of_dvd _ masks.divides

theorem capacity_eq : index.capacity = if index.mask.toNat = 0 then 0 else index.size := by
  unfold capacity size
  by_cases zero : index.mask.toNat = 0
  · simp [BitVec.lt_def, zero]
  · have positive : 0 < index.mask.toNat := Nat.pos_of_ne_zero zero
    simp [BitVec.lt_def, zero, positive]

theorem isEmpty_iff : index.isEmpty = true ↔ index.available.toNat = 0 := by
  unfold isEmpty available
  rw [decide_eq_true_eq]
  apply Iff.intro
  · intro none
    rw [none]
    rfl
  · intro none
    exact BitVec.eq_of_toNat_eq none

theorem isFull_iff (held : index.available.toNat ≤ index.capacity) :
    index.isFull = true ↔ index.available.toNat = index.capacity := by
  rw [capacity_eq] at held ⊢
  unfold isFull size at *
  rw [Bool.or_eq_true, decide_eq_true_eq, decide_eq_true_eq, BitVec.lt_def]
  by_cases zero : index.mask.toNat = 0
  · have mask : index.mask = 0 := BitVec.eq_of_toNat_eq zero
    rw [if_pos zero] at held ⊢
    simp only [mask, true_or, true_iff]
    exact Nat.le_zero.mp held
  · have mask : index.mask ≠ 0 := fun same => zero (congrArg BitVec.toNat same)
    rw [if_neg zero] at held ⊢
    simp only [mask, false_or]
    omega

/-- The index of a slice of any length, of which at most `length` slots are used. -/
theorem new_spec (size : U8) : ∃ index, new size = .ok index ∧ index.Masks ∧ index.reads = 0 ∧
    index.writes = 0 ∧ index.capacity ≤ size.toNat := by
  obtain ⟨k, small, found, below⟩ := nextSmallerPowerOfTwo_spec size
  have power : (BitVec.twoPow 8 k).toNat = 2 ^ k := BitVec.toNat_twoPow_of_lt small
  have positive : BitVec.twoPow 8 k ≠ 0 := by
    intro zero
    have none := congrArg BitVec.toNat zero
    rw [power] at none
    exact absurd none (Nat.ne_of_gt (Nat.two_pow_pos k))
  have mask : (BitVec.twoPow 8 k - 1).toNat + 1 = 2 ^ k := by
    have wide : 2 ^ k < 2 ^ 8 := Nat.pow_lt_pow_right (by decide) small
    have atLeast : 0 < 2 ^ k := Nat.two_pow_pos k
    have one : (1 : U8).toNat = 1 := rfl
    rw [BitVec.toNat_sub_of_le, power, one]
    · omega
    · rw [BitVec.le_def, power, one]
      exact atLeast
  refine ⟨⟨0, 0, BitVec.twoPow 8 k - 1⟩, ?_, ⟨k, small, mask⟩, rfl, rfl, ?_⟩
  · rw [new, found, ok_bind, if_neg positive]
    rfl
  · rw [capacity_eq, RingBufferIndex.size, mask]
    rcases below with below | rfl
    · rw [BitVec.le_def, power] at below
      split
      · exact Nat.zero_le _
      · exact below
    · simp

end RingBufferIndex

namespace RingBuffer

variable {T : Type} {buffer : RingBuffer T} {q : BoundedQueue T}

/-- The slots of the backing slice, as far as they were written. -/
def slots (buffer : RingBuffer T) (i : Nat) : Option T :=
  match buffer.slice with
  | none => none
  | some slice => slice[i]?.join

/-- The buffer holds the queue: its capacity is that of the buffer, its elements are in the slots from
    the read counter on, and the slots that are used exist. -/
structure Represents (buffer : RingBuffer T) (q : BoundedQueue T) : Prop where
  masks : buffer.index.Masks
  capacity : buffer.capacity = q.capacity
  available : buffer.available = q.elements.length
  backed : 0 < buffer.capacity →
    ∃ slice, buffer.slice = some slice ∧ buffer.index.size ≤ slice.length
  window : Window buffer.slots buffer.index.size buffer.index.reads.toNat q.elements

namespace Represents

theorem held (repr : buffer.Represents q) :
    buffer.index.available.toNat ≤ buffer.index.capacity := by
  have bounded := q.bounded
  rw [← repr.available, ← repr.capacity] at bounded
  exact bounded

theorem isEmpty_iff (repr : buffer.Represents q) : buffer.isEmpty = true ↔ q.elements = [] := by
  have length : buffer.index.available.toNat = q.elements.length := repr.available
  rw [RingBuffer.isEmpty, RingBufferIndex.isEmpty_iff, length, List.length_eq_zero_iff]

theorem isFull_iff (repr : buffer.Represents q) :
    buffer.isFull = true ↔ q.elements.length = q.capacity := by
  have length : buffer.index.available.toNat = q.elements.length := repr.available
  have capacity : buffer.index.capacity = q.capacity := repr.capacity
  rw [RingBuffer.isFull, RingBufferIndex.isFull_iff repr.held, length, capacity]

theorem size_of_room (repr : buffer.Represents q) (room : q.elements.length < q.capacity) :
    0 < buffer.capacity ∧ buffer.capacity = buffer.index.size := by
  have capacity : buffer.index.capacity = q.capacity := repr.capacity
  have positive : 0 < buffer.index.capacity := by omega
  refine ⟨positive, ?_⟩
  rw [RingBuffer.capacity, RingBufferIndex.capacity_eq] at *
  split at positive
  · exact absurd positive (Nat.lt_irrefl 0)
  · rename_i mask
    exact if_neg mask

theorem slots_eq_some {i : Nat} {a : T} (found : buffer.slots i = some a) :
    ∃ slice, buffer.slice = some slice ∧ slice[i]? = some (some a) := by
  unfold RingBuffer.slots at found
  cases backing : buffer.slice with
  | none =>
    rw [backing] at found
    cases found
  | some slice =>
    rw [backing] at found
    exact ⟨slice, rfl, Option.join_eq_some_iff.mp found⟩

theorem getPos (repr : buffer.Represents q) {a : T} {L : List T} (front : q.elements = a :: L) :
    buffer.getPos (buffer.index.reads &&& buffer.index.mask).toNat = .ok a := by
  have here : buffer.slots (buffer.index.reads.toNat % buffer.index.size) = some a :=
    (front ▸ repr.window).front
  obtain ⟨slice, backing, read⟩ := slots_eq_some here
  rw [repr.masks.position, RingBuffer.getPos, backing]
  dsimp only
  rw [read]

end Represents

theorem slots_set {slice : List (MaybeUninit T)} {index : RingBufferIndex} {pos : Nat} {element : T}
    (backing : buffer.slice = some slice) (bound : pos < slice.length) :
    slots ⟨index, some (slice.set pos (some element))⟩ =
      Function.update buffer.slots pos (some element) := by
  funext i
  by_cases same : i = pos
  · subst same
    simp [slots, bound]
  · rw [Function.update_of_ne same]
    simp [slots, backing, List.getElem?_set_ne (Ne.symm same)]

theorem put_spec (repr : buffer.Represents q) (element : T) :
    ∃ next, buffer.put element = .ok (next, (q.put element).2) ∧
      next.Represents (q.put element).1 := by
  by_cases room : q.elements.length < q.capacity
  · have open_ : buffer.index.isFull = false := by
      rw [Bool.eq_false_iff]
      exact fun full => Nat.ne_of_lt room (repr.isFull_iff.mp full)
    obtain ⟨positive, capacity⟩ := repr.size_of_room room
    obtain ⟨slice, backing, long⟩ := repr.backed positive
    have bound : (buffer.index.writes &&& buffer.index.mask).toNat < slice.length := by
      rw [repr.masks.position]
      exact Nat.lt_of_lt_of_le (Nat.mod_lt _ (Nat.succ_pos _)) long
    have position : (buffer.index.writes &&& buffer.index.mask).toNat =
        (buffer.index.reads.toNat + q.elements.length) % buffer.index.size := by
      rw [repr.masks.position, repr.masks.writes, ← repr.available]
      rfl
    have length : buffer.index.available.toNat = q.elements.length := repr.available
    have below : q.elements.length < 128 := by
      have small := repr.masks.small
      have same := repr.capacity
      omega
    refine ⟨⟨{ buffer.index with writes := buffer.index.writes + 1 }, some (slice.set
      (buffer.index.writes &&& buffer.index.mask).toNat (some element))⟩, ?_, ?_⟩
    · have next : buffer.index.put = ({ buffer.index with writes := buffer.index.writes + 1 },
          some (buffer.index.writes &&& buffer.index.mask)) := by
        simp [RingBufferIndex.put, open_]
      simp only [RingBuffer.put, next, backing, bound, BoundedQueue.put, room, ↓reduceIte, ↓reduceDIte]
    · simp only [BoundedQueue.put, room, ↓reduceDIte]
      constructor
      · exact repr.masks
      · exact repr.capacity
      · rw [RingBuffer.available, RingBufferIndex.available, List.length_append]
        rw [RingBufferIndex.available] at length
        rw [List.length_singleton, ← length]
        bv_omega
      · exact fun _ => ⟨_, rfl, by rw [List.length_set]; exact long⟩
      · rw [slots_set backing bound, position]
        apply repr.window.push
        rw [← capacity, repr.capacity]
        exact room
  · have full : buffer.index.isFull = true :=
      repr.isFull_iff.mpr (Nat.le_antisymm q.bounded (Nat.not_lt.mp room))
    refine ⟨buffer, ?_, ?_⟩
    · simp [RingBuffer.put, RingBufferIndex.put, full, BoundedQueue.put, room]
    · simpa only [BoundedQueue.put, room, ↓reduceDIte] using repr

theorem get_spec (repr : buffer.Represents q) :
    ∃ next, buffer.get = .ok (next, q.get.2) ∧ next.Represents q.get.1 := by
  have length : buffer.index.available.toNat = q.elements.length := repr.available
  cases front : q.elements with
  | nil =>
    have empty : buffer.index.isEmpty = true := repr.isEmpty_iff.mpr front
    refine ⟨buffer, ?_, ?_⟩
    · simp [RingBuffer.get, RingBufferIndex.get, empty, BoundedQueue.get, front]
    · refine ⟨repr.masks, repr.capacity, ?_, repr.backed, ?_⟩
      · simpa [BoundedQueue.get, front] using repr.available
      · simp only [BoundedQueue.get, front, List.tail_nil]
        exact window_nil
  | cons a L =>
    have filled : buffer.index.isEmpty = false := by
      rw [Bool.eq_false_iff]
      intro empty
      cases front.symm.trans (repr.isEmpty_iff.mp empty)
    refine ⟨{ buffer with index := { buffer.index with reads := buffer.index.reads + 1 } }, ?_, ?_⟩
    · have next : buffer.index.get = ({ buffer.index with reads := buffer.index.reads + 1 },
          some (buffer.index.reads &&& buffer.index.mask)) := by
        simp [RingBufferIndex.get, filled]
      simp only [RingBuffer.get, next, repr.getPos front, ok_bind, BoundedQueue.get, front,
        List.head?_cons]
      rfl
    · have window := repr.window
      rw [front] at window length
      refine ⟨repr.masks, repr.capacity, ?_, repr.backed, ?_⟩
      · simp only [BoundedQueue.get, front, List.tail_cons]
        rw [RingBuffer.available, RingBufferIndex.available]
        rw [RingBufferIndex.available, List.length_cons] at length
        bv_omega
      · simp only [BoundedQueue.get, front, List.tail_cons]
        apply window.pop.wrap
        rw [BitVec.toNat_add]
        exact Nat.mod_mod_of_dvd _ repr.masks.divides

theorem peek_spec (repr : buffer.Represents q) : buffer.peek = .ok q.peek := by
  cases front : q.elements with
  | nil =>
    have empty : buffer.index.isEmpty = true := repr.isEmpty_iff.mpr front
    simp [RingBuffer.peek, RingBufferIndex.peek, empty, BoundedQueue.peek, front]
  | cons a L =>
    have filled : buffer.index.isEmpty = false := by
      rw [Bool.eq_false_iff]
      intro empty
      cases front.symm.trans (repr.isEmpty_iff.mp empty)
    have next : buffer.index.peek = some (buffer.index.reads &&& buffer.index.mask) := by
      simp [RingBufferIndex.peek, filled]
    simp only [RingBuffer.peek, next, repr.getPos front, ok_bind, BoundedQueue.peek, front,
      List.head?_cons]
    rfl

theorem newWith_spec (backingArray : List (MaybeUninit T)) :
    ∃ buffer, newWith backingArray = .ok buffer ∧ buffer.slice = some backingArray ∧
      buffer.Represents (.empty buffer.capacity) := by
  obtain ⟨index, made, masks, reads, writes, bound⟩ :=
    RingBufferIndex.new_spec (BitVec.ofNat 8 backingArray.length)
  refine ⟨⟨index, some backingArray⟩, ?_, rfl, masks, rfl, ?_, ?_, window_nil⟩
  · rw [newWith, made]
    rfl
  · simp [RingBuffer.available, RingBufferIndex.available, reads, writes, BoundedQueue.empty]
  · intro positive
    refine ⟨backingArray, rfl, ?_⟩
    rw [RingBuffer.capacity] at positive
    rw [RingBufferIndex.capacity_eq] at bound positive
    split at bound
    · rename_i mask
      simp [mask] at positive
    · rw [BitVec.toNat_ofNat] at bound
      exact Nat.le_trans bound (Nat.mod_le _ _)

theorem setBackingArray_spec (old : RingBuffer T) (array : Option (List (MaybeUninit T))) :
    ∃ buffer, old.setBackingArray array = .ok buffer ∧ buffer.slice = array ∧
      buffer.Represents (.empty buffer.capacity) := by
  cases array with
  | some array => exact newWith_spec array
  | none =>
    obtain ⟨index, made, masks, reads, writes, bound⟩ := RingBufferIndex.new_spec 0
    have nothing : index.capacity = 0 := Nat.le_zero.mp bound
    refine ⟨⟨index, none⟩, ?_, rfl, masks, rfl, ?_, ?_, window_nil⟩
    · have made' : RingBufferIndex.new (BitVec.ofNat 8 0) = .ok index := made
      rw [setBackingArray, made']
      rfl
    · simp [RingBuffer.available, RingBufferIndex.available, reads, writes, BoundedQueue.empty]
    · intro positive
      rw [RingBuffer.capacity, nothing] at positive
      exact absurd positive (Nat.lt_irrefl 0)

/-- What the operation does to the queue and returns. -/
def queueOp (q : BoundedQueue T) : RingOp T → BoundedQueue T × RingResult T
  | .put element => ((q.put element).1, .put (q.put element).2)
  | .get => (q.get.1, .got q.get.2)
  | .peek => (q, .got q.peek)

def queueOps : List (RingOp T) → BoundedQueue T → BoundedQueue T × List (RingResult T)
  | [], q => (q, [])
  | op :: ops, q =>
    let (q, result) := queueOp q op
    let (q, results) := queueOps ops q
    (q, result :: results)

theorem queueOp_capacity (q : BoundedQueue T) (op : RingOp T) : (queueOp q op).1.capacity = q.capacity := by
  cases op with
  | put element =>
    simp only [queueOp, BoundedQueue.put]
    split <;> rfl
  | get => rfl
  | peek => rfl

theorem exec_spec (repr : buffer.Represents q) (op : RingOp T) :
    ∃ next, buffer.exec op = .ok (next, (queueOp q op).2) ∧ next.Represents (queueOp q op).1 := by
  cases op with
  | put element =>
    obtain ⟨next, done, repr'⟩ := put_spec repr element
    exact ⟨next, by rw [exec, done]; rfl, repr'⟩
  | get =>
    obtain ⟨next, done, repr'⟩ := get_spec repr
    exact ⟨next, by rw [exec, done]; rfl, repr'⟩
  | peek => exact ⟨buffer, by rw [exec, peek_spec repr]; rfl, repr⟩

theorem execAll_spec (repr : buffer.Represents q) (ops : List (RingOp T)) :
    ∃ final, execAll ops buffer = .ok (final, (queueOps ops q).2) ∧
      final.Represents (queueOps ops q).1 := by
  induction ops generalizing buffer q with
  | nil => exact ⟨buffer, rfl, repr⟩
  | cons op ops ih =>
    obtain ⟨next, first, repr₁⟩ := exec_spec repr op
    obtain ⟨final, rest, repr₂⟩ := ih repr₁
    refine ⟨final, ?_, repr₂⟩
    simp only [execAll, first, ok_bind, rest, queueOps]
    rfl

theorem queueOps_capacity (ops : List (RingOp T)) (q : BoundedQueue T) :
    (queueOps ops q).1.capacity = q.capacity := by
  induction ops generalizing q with
  | nil => rfl
  | cons op ops ih => exact (ih _).trans (queueOp_capacity q op)

theorem put_refused_iff (repr : buffer.Represents q) (element : T) :
    buffer.put element = .ok (buffer, false) ↔ q.elements.length = q.capacity := by
  apply Iff.intro
  · intro refused
    obtain ⟨next, done, -⟩ := put_spec repr element
    rw [refused, Except.ok.injEq, Prod.mk.injEq] at done
    by_contra other
    have room : q.elements.length < q.capacity := Nat.lt_of_le_of_ne q.bounded other
    simp [BoundedQueue.put, room] at done
  · intro full
    simp [RingBuffer.put, RingBufferIndex.put, (show buffer.index.isFull = true from
      repr.isFull_iff.mpr full)]

/-- All results of the operations are those of a queue bounded by the capacity of the buffer, and at
    the end the buffer agrees with it. -/
def Behaves (buffer : RingBuffer T) (ops : List (RingOp T)) : Prop :=
  ∃ final, execAll ops buffer = .ok (final, (queueOps ops (.empty buffer.capacity)).2) ∧
    final.capacity = buffer.capacity ∧
    let q := (queueOps ops (.empty buffer.capacity)).1
    q.capacity = buffer.capacity ∧ final.available = q.elements.length ∧
      (final.isEmpty = true ↔ q.elements = []) ∧
      (final.isFull = true ↔ q.elements.length = q.capacity) ∧
      (∀ element, final.put element = .ok (final, false) ↔ q.elements.length = q.capacity) ∧
      final.peek = .ok q.elements.head?

theorem Represents.behaves (repr : buffer.Represents (.empty buffer.capacity))
    (ops : List (RingOp T)) : buffer.Behaves ops := by
  obtain ⟨final, done, repr'⟩ := execAll_spec repr ops
  have capacity : (queueOps ops (.empty buffer.capacity)).1.capacity = buffer.capacity :=
    queueOps_capacity ops _
  exact ⟨final, done, repr'.capacity.trans capacity, capacity, repr'.available, repr'.isEmpty_iff,
    repr'.isFull_iff, put_refused_iff repr', peek_spec repr'⟩

/-- For every backing slice, and for none, no operation fails and all of them are those of a bounded
    queue. -/
theorem ring_buffer_refines_queue (ops : List (RingOp T)) :
    (∀ array, ∃ buffer, newWith array = .ok buffer ∧ buffer.slice = some array ∧ buffer.Behaves ops) ∧
      ∀ (old : RingBuffer T) array, ∃ buffer, old.setBackingArray array = .ok buffer ∧
        buffer.slice = array ∧ buffer.Behaves ops := by
  refine ⟨fun array => ?_, fun old array => ?_⟩
  · obtain ⟨buffer, made, backing, repr⟩ := newWith_spec array
    exact ⟨buffer, made, backing, repr.behaves ops⟩
  · obtain ⟨buffer, made, backing, repr⟩ := setBackingArray_spec old array
    exact ⟨buffer, made, backing, repr.behaves ops⟩

/-- Of 300 slots, which are 44 modulo 256, only 32 are used. -/
example : ((newWith (List.replicate 300 none) : Except RingFault (RingBuffer Nat)).map
    RingBuffer.capacity) = .ok 32 := by
  decide +kernel

end RingBuffer

end ArielOS
