import ArielOS.RunQueue.CListSpec
import ArielOS.RunQueue.RunQueue

namespace ArielOS.RunQueue

open Queues

variable {usizeBits nQueues nThreads : Nat} {r : RunQueue usizeBits nQueues nThreads}
  {L : Queues Nat} {n q : Nat}

/-- The queues hold the lists `L`, and the bit cache marks the non-empty ones. -/
structure Represents (r : RunQueue usizeBits nQueues nThreads) (L : Queues Nat) : Prop where
  queues : r.queues.Represents L
  bits : ∀ q, r.bitcache.getLsbD q = true ↔ L q ≠ []

theorem new_represents : (new : RunQueue usizeBits nQueues nThreads).Represents (fun _ => []) where
  queues := CList.new_represents
  bits := by simp [new]

theorem getLsbD_bit (i : Nat) :
    (bit q : BitVec usizeBits).getLsbD i = decide (i = q ∧ i < usizeBits) := by
  rw [Bool.eq_iff_iff]
  simp only [bit, BitVec.getLsbD_shiftLeft, BitVec.getLsbD_one, Bool.and_eq_true,
    decide_eq_true_eq, Bool.not_eq_true', decide_eq_false_iff_not]
  omega

theorem set_bits {bitcache : BitVec usizeBits} {l : List Nat}
    (bits : ∀ i, bitcache.getLsbD i = true ↔ L i ≠ []) (bound : q < usizeBits) (filled : l ≠ [])
    (i : Nat) :
    (bitcache ||| bit q).getLsbD i = true ↔ Function.update L q l i ≠ [] := by
  rw [BitVec.getLsbD_or, getLsbD_bit, Bool.or_eq_true, decide_eq_true_eq, bits i]
  by_cases same : i = q
  · subst same
    simp [filled, bound]
  · simp [same]

theorem clear_bits {bitcache : BitVec usizeBits}
    (bits : ∀ i, bitcache.getLsbD i = true ↔ L i ≠ []) (i : Nat) :
    (bitcache &&& ~~~bit q).getLsbD i = true ↔ Function.update L q [] i ≠ [] := by
  rw [BitVec.getLsbD_and, BitVec.getLsbD_not, getLsbD_bit, Bool.and_eq_true, bits i]
  by_cases same : i = q
  · subst same
    simp
  · simp only [same, false_and, decide_false, Bool.not_false, Bool.and_true,
      decide_eq_true_eq, Function.update_of_ne same, ne_eq]
    apply and_iff_left_of_imp
    intro filled
    by_contra outside
    exact absurd ((bits i).mpr filled) (by simp [BitVec.getLsbD_of_ge _ _ (Nat.not_lt.mp outside)])

theorem keep_bits {bitcache : BitVec usizeBits} {l : List Nat}
    (bits : ∀ i, bitcache.getLsbD i = true ↔ L i ≠ []) (same : L q = [] ↔ l = []) (i : Nat) :
    bitcache.getLsbD i = true ↔ Function.update L q l i ≠ [] := by
  rw [bits i]
  by_cases here : i = q
  · subst here
    simp [same]
  · simp [here]

/-- `ffs` is one more than the number of the highest non-empty queue. -/
theorem ffs_spec {bitcache : BitVec usizeBits}
    (bits : ∀ q, bitcache.getLsbD q = true ↔ L q ≠ []) :
    ffs bitcache = match highest L usizeBits with
      | none => 0
      | some q => q + 1 := by
  have general : ∀ i, leadingZerosFrom bitcache i ≤ i ∧ i - leadingZerosFrom bitcache i =
      match highest L i with
      | none => 0
      | some q => q + 1 := by
    intro i
    induction i with
    | zero => simp [leadingZerosFrom, highest]
    | succ i ih =>
      have marked := bits i
      by_cases empty : L i = []
      · have clear : bitcache.getLsbD i = false := by
          rw [← Bool.not_eq_true, marked]
          simp [empty]
        simp only [leadingZerosFrom, clear, highest, empty, List.isEmpty_nil, Bool.false_eq_true,
          ↓reduceIte]
        exact ⟨by omega, by rw [← ih.2]; omega⟩
      · have set := marked.mpr empty
        have filled : (L i).isEmpty = false := by simp [empty]
        simp [leadingZerosFrom, set, highest, filled]
  exact (general usizeBits).2

namespace Represents

theorem queue_lt (h : r.Represents L) (filled : L q ≠ []) : q < nQueues := by
  obtain ⟨m, member⟩ := List.exists_mem_of_ne_nil _ filled
  exact h.queues.queue_lt member

theorem bit_lt (h : r.Represents L) (filled : L q ≠ []) : q < usizeBits := by
  by_contra outside
  have set := (h.bits q).mpr filled
  rw [BitVec.getLsbD_of_ge _ _ (Nat.not_lt.mp outside)] at set
  exact Bool.noConfusion set

end Represents

theorem add_spec (h : r.Represents L) (small : nThreads < 255) (width : nQueues ≤ usizeBits)
    (thread : n < nThreads) (queue : q < nQueues) (elsewhere : ∀ p, n ∈ L p → p = q) :
    ∃ r', r.add n q = .ok r' ∧ r'.Represents (enqueue L n q) := by
  obtain ⟨queues, pushed, holds⟩ := CList.push_spec h.queues small thread queue elsewhere
  refine ⟨⟨r.bitcache ||| bit q, queues⟩, ?_, holds, ?_⟩
  · simp [add, checkThread, checkQueue, thread, queue, pushed]
  · unfold enqueue
    have wide : q < usizeBits := by omega
    split
    · rename_i queued
      have same : Function.update L q (L q) = L := Function.update_eq_self q L
      have bits := set_bits h.bits wide (List.ne_nil_of_mem queued)
      rwa [same] at bits
    · exact set_bits h.bits wide (by simp)

theorem peekHead_spec (h : r.Represents L) (small : nThreads < 255) (queue : q < nQueues) :
    r.peekHead q = .ok (L q).head? := CList.peekHead_spec h.queues small queue

theorem isEmpty_spec (h : r.Represents L) (small : nThreads < 255) (queue : q < nQueues) :
    r.isEmpty q = .ok (L q).isEmpty := by
  simp [isEmpty, checkQueue, queue, CList.isEmpty_spec h.queues small queue]

theorem dropHead_bits {bitcache : BitVec usizeBits}
    (bits : ∀ i, bitcache.getLsbD i = true ↔ L i ≠ []) (filled : L q ≠ []) (i : Nat) :
    (if (dropHead L q q).isEmpty then bitcache &&& ~~~bit q else bitcache).getLsbD i = true ↔
      dropHead L q i ≠ [] := by
  unfold dropHead
  rw [Function.update_self]
  cases rest : (L q).tail with
  | nil => exact clear_bits bits i
  | cons a l => exact keep_bits bits (by simp [filled]) i

theorem popHead_spec (h : r.Represents L) (small : nThreads < 255) (thread : n < nThreads)
    (queue : q < nQueues) (head : (L q).head? = some n) :
    ∃ r', r.popHead n q = .ok r' ∧ r'.Represents (dropHead L q) := by
  obtain ⟨queues, popped, holds⟩ := CList.popHead_spec h.queues small queue
  have filled : L q ≠ [] := by
    intro none
    simp [none] at head
  have bits := dropHead_bits h.bits filled
  have emptied := CList.isEmpty_spec holds small queue
  by_cases last : (dropHead L q q).isEmpty = true
  · refine ⟨⟨r.bitcache &&& ~~~bit q, queues⟩, ?_, holds, ?_⟩
    · simp [popHead, checkThread, checkQueue, thread, queue, popped, head, emptied, last]
    · simpa only [last, ↓reduceIte] using bits
  · refine ⟨{ r with queues }, ?_, holds, ?_⟩
    · simp [popHead, checkThread, checkQueue, thread, queue, popped, head, emptied, last]
    · simpa only [last, Bool.false_eq_true, ↓reduceIte] using bits

theorem popHead_other (h : r.Represents L) (small : nThreads < 255) (thread : n < nThreads)
    (queue : q < nQueues) (head : (L q).head? ≠ some n) :
    r.popHead n q = .error .poppedOtherThread := by
  obtain ⟨queues, popped, -⟩ := CList.popHead_spec h.queues small queue
  simp [popHead, checkThread, checkQueue, thread, queue, popped, head]

theorem del_spec (h : r.Represents L) (small : nThreads < 255) (thread : n < nThreads) :
    ∃ r', r.del n = .ok r' ∧ r'.Represents (remove L n) := by
  obtain ⟨queues, emptied, deleted, holds, single⟩ := CList.del_spec h.queues small thread
  by_cases nowhere : ∀ q, n ∉ L q
  · have unchanged : emptied = none := by
      cases emptied with
      | none => rfl
      | some q => exact absurd (by simp [(single q).mp rfl]) (nowhere q)
    refine ⟨{ r with queues }, by simp [del, deleted, unchanged], holds, ?_⟩
    rw [remove_of_notMem nowhere]
    exact h.bits
  · simp only [not_forall, not_not] at nowhere
    obtain ⟨q, member⟩ := nowhere
    cases emptied with
    | some p =>
      have list := (single p).mp rfl
      obtain rfl := h.queues.separate.apart member (by rw [list]; exact List.mem_singleton_self n)
      refine ⟨⟨r.bitcache &&& ~~~bit q, queues⟩, by simp [del, deleted], holds, ?_⟩
      rw [remove_eq_update h.queues.separate member, list, List.erase_cons_head]
      exact clear_bits h.bits
    | none =>
      refine ⟨{ r with queues }, by simp [del, deleted], holds, ?_⟩
      rw [remove_eq_update h.queues.separate member]
      apply keep_bits h.bits
      have several : L q ≠ [n] := fun list => by simpa using (single q).mpr list
      simp [List.ne_nil_of_mem member, List.erase_eq_nil_iff, several]

theorem getNextWithRq_spec (h : r.Represents L) (small : nThreads < 255) :
    r.getNextWithRq =
      .ok ((highest L usizeBits).bind fun q => (L q).head?.map fun n => (n, q)) := by
  have found := ffs_spec h.bits
  cases top : highest L usizeBits with
  | none =>
    simp only [top] at found
    simp [getNextWithRq, found]
  | some q =>
    simp only [top] at found
    have queue := h.queue_lt (highest_eq_some.mp top).2.1
    simp [getNextWithRq, found, CList.peekHead_spec h.queues small queue]

theorem getNext_spec (h : r.Represents L) (small : nThreads < 255) :
    r.getNext = .ok ((highest L usizeBits).bind fun q => (L q).head?) := by
  rw [getNext, getNextWithRq_spec h small]
  cases highest L usizeBits with
  | none => rfl
  | some q => cases head : (L q).head? <;> simp [head]

theorem popNext_spec (h : r.Represents L) (small : nThreads < 255) :
    ∃ r', r.popNext = .ok (r', (highest L usizeBits).bind fun q => (L q).head?) ∧
      r'.Represents (match highest L usizeBits with
        | none => L
        | some q => dropHead L q) := by
  have found := ffs_spec h.bits
  cases top : highest L usizeBits with
  | none =>
    simp only [top] at found
    exact ⟨r, by simp [popNext, found], h⟩
  | some q =>
    simp only [top] at found
    have filled := (highest_eq_some.mp top).2.1
    have queue := h.queue_lt filled
    obtain ⟨queues, popped, holds⟩ := CList.popHead_spec h.queues small queue
    have bits := dropHead_bits h.bits filled
    have emptied := CList.isEmpty_spec holds small queue
    by_cases last : (dropHead L q q).isEmpty = true
    · refine ⟨⟨r.bitcache &&& ~~~bit q, queues⟩, ?_, holds, ?_⟩
      · simp [popNext, found, popped, emptied, last]
      · simpa only [last, ↓reduceIte] using bits
    · refine ⟨{ r with queues }, ?_, holds, ?_⟩
      · simp [popNext, found, popped, emptied, last]
      · simpa only [last, Bool.false_eq_true, ↓reduceIte] using bits

theorem advance_spec (h : r.Represents L) (small : nThreads < 255) (queue : q < nQueues) :
    ∃ r', r.advance q = .ok (r', decide (2 ≤ (L q).length)) ∧ r'.Represents (rotate L q) := by
  obtain ⟨queues, advanced, holds⟩ := CList.advance_spec h.queues small queue
  refine ⟨{ r with queues }, by simp [advance, checkQueue, queue, advanced], holds, ?_⟩
  exact keep_bits h.bits (by simp [List.rotate_eq_nil_iff])

end ArielOS.RunQueue
