import ArielOS.RunQueue.IterSpec
import ArielOS.RunQueue.Refinement
import ArielOS.Threads.Scheduler

/-! What the runqueue calls of the scheduler did, once they returned. -/

namespace ArielOS.ReadyQueue

open Machine Queues RunQueue

variable {r r' : RunQueue usizeBits schedPrioLevels threadCount} {L : Queues Nat} {n q : Nat}

theorem small : threadCount < 255 := by decide

theorem width : schedPrioLevels ≤ usizeBits := by decide

theorem add_ok (h : r.Represents L) (elsewhere : ∀ p, n ∈ L p → p = q)
    (done : r.add n q = .ok r') :
    n < threadCount ∧ q < schedPrioLevels ∧ r'.Represents (enqueue L n q) := by
  have thread : n < threadCount := by
    by_contra outside
    simp [RunQueue.add, checkThread, outside] at done
  have queue : q < schedPrioLevels := by
    by_contra outside
    simp [RunQueue.add, checkThread, checkQueue, thread, outside] at done
  obtain ⟨r₁, added, holds⟩ := add_spec h small width thread queue elsewhere
  rw [done, Except.ok.injEq] at added
  exact ⟨thread, queue, added ▸ holds⟩

theorem add_error (h : r.Represents L) (elsewhere : ∀ p, n ∈ L p → p = q) {e : Fault}
    (failed : r.add n q = .error e) : e = .indexOutOfBounds := by
  by_cases thread : n < threadCount
  · by_cases queue : q < schedPrioLevels
    · obtain ⟨r', added, -⟩ := add_spec h small width thread queue elsewhere
      simp [added] at failed
    · simpa [RunQueue.add, checkThread, checkQueue, thread, queue, eq_comm] using failed
  · simpa [RunQueue.add, checkThread, thread, eq_comm] using failed

theorem popHead_ok (h : r.Represents L) (done : r.popHead n q = .ok r') :
    (L q).head? = some n ∧ r'.Represents (remove L n) := by
  have thread : n < threadCount := by
    by_contra outside
    simp [RunQueue.popHead, checkThread, outside] at done
  have queue : q < schedPrioLevels := by
    by_contra outside
    simp [RunQueue.popHead, checkThread, checkQueue, thread, outside] at done
  have head : (L q).head? = some n := by
    by_contra other
    rw [popHead_other h small thread queue other] at done
    cases done
  obtain ⟨r₁, popped, holds⟩ := popHead_spec h small thread queue head
  rw [done, Except.ok.injEq] at popped
  rw [dropHead_eq_remove h.queues.separate head] at holds
  exact ⟨head, popped ▸ holds⟩

theorem del_ok (h : r.Represents L) (done : r.del n = .ok r') : r'.Represents (remove L n) := by
  have thread : n < threadCount := by
    by_contra outside
    simp [RunQueue.del, CList.del, readAt, outside] at done
  obtain ⟨r₁, deleted, holds⟩ := del_spec h small thread
  rw [done, Except.ok.injEq] at deleted
  exact deleted ▸ holds

theorem getNext_eq_some (h : r.Represents L) : r.getNext = .ok (some n) ↔ IsTop L n := by
  rw [getNext_spec h small, Except.ok.injEq, ← isTop_iff fun _ filled => h.bit_lt filled]

theorem getNext_eq_none (h : r.Represents L) : r.getNext = .ok none ↔ ∀ q, L q = [] := by
  rw [getNext_spec h small, Except.ok.injEq, ← order_head?, List.head?_eq_none_iff,
    List.eq_nil_iff_forall_not_mem]
  apply Iff.intro
  · intro nothing q
    by_contra filled
    obtain ⟨m, member⟩ := List.exists_mem_of_ne_nil _ filled
    exact nothing m (mem_order.mpr ⟨q, h.bit_lt filled, member⟩)
  · intro empty m member
    obtain ⟨q, -, here⟩ := mem_order.mp member
    simp [empty q] at here

theorem popNext_none (h : r.Represents L) (done : r.popNext = .ok (r', none)) :
    ∀ q, L q = [] := by
  obtain ⟨r₁, popped, -⟩ := popNext_spec h small
  rw [done, Except.ok.injEq, Prod.mk.injEq] at popped
  rw [← getNext_eq_none h, getNext_spec h small, popped.2]

theorem popNext_some (h : r.Represents L) (done : r.popNext = .ok (r', some n)) :
    IsTop L n ∧ r'.Represents (remove L n) := by
  obtain ⟨r₁, popped, holds⟩ := popNext_spec h small
  rw [done, Except.ok.injEq, Prod.mk.injEq] at popped
  obtain ⟨rfl, head⟩ := popped
  refine ⟨(isTop_iff fun _ filled => h.bit_lt filled).mpr head.symm, ?_⟩
  obtain ⟨q, top, front⟩ := Option.bind_eq_some_iff.mp head.symm
  simp only [top] at holds
  rwa [dropHead_eq_remove h.queues.separate front] at holds

theorem getNextFilter_none (h : r.Represents L) {predicate : Nat → Bool}
    (done : r.getNextFilter predicate = .ok none) :
    ∀ q n, n ∈ L q → predicate n = false := by
  rw [getNextFilter_spec h small (by decide), Except.ok.injEq, List.find?_eq_none] at done
  intro q n member
  have found := done n (mem_order.mpr ⟨q, h.bit_lt (List.ne_nil_of_mem member), member⟩)
  simpa using found

theorem getNextFilter_some (h : r.Represents L) {predicate : Nat → Bool}
    (done : r.getNextFilter predicate = .ok (some n)) :
    (∃ q, n ∈ L q) ∧ predicate n = true := by
  rw [getNextFilter_spec h small (by decide), Except.ok.injEq] at done
  obtain ⟨q, -, member⟩ := mem_order.mp (List.mem_of_find?_eq_some done)
  exact ⟨⟨q, member⟩, List.find?_some done⟩

theorem advance_ok (h : r.Represents L) {advanced : Bool}
    (done : r.advance q = .ok (r', advanced)) :
    advanced = decide (2 ≤ (L q).length) ∧ r'.Represents (rotate L q) := by
  have queue : q < schedPrioLevels := by
    by_contra outside
    simp [RunQueue.advance, checkQueue, outside] at done
  obtain ⟨r₁, moved, holds⟩ := advance_spec h small queue
  rw [done, Except.ok.injEq, Prod.mk.injEq] at moved
  exact ⟨moved.2, moved.1 ▸ holds⟩

/-- `requeue` moves the thread to the tail of its new queue. -/
theorem requeue_ok {oldPrio : Nat} (h : r.Represents L)
    (done : Scheduler.requeue r n oldPrio q = .ok r') :
    r'.Represents (enqueue (remove L n) n q) := by
  obtain ⟨head, -, rest⟩ := bind_ok_iff.mp done
  dsimp only at rest
  have leave : ∃ r₁ : RunQueue usizeBits schedPrioLevels threadCount,
      r₁.Represents (remove L n) ∧ r₁.add n q = .ok r' := by
    split at rest
    · obtain ⟨r₁, popped, added⟩ := bind_ok_iff.mp rest
      exact ⟨r₁, (popHead_ok h popped).2, added⟩
    · obtain ⟨r₁, deleted, added⟩ := bind_ok_iff.mp rest
      exact ⟨r₁, del_ok h deleted, added⟩
  obtain ⟨r₁, left, added⟩ := leave
  have elsewhere : ∀ p, n ∈ remove L n p → p = q := by
    intro p member
    exact absurd rfl ((mem_remove h.queues.separate).mp member).2
  exact (add_ok left elsewhere added).2.2

end ArielOS.ReadyQueue
