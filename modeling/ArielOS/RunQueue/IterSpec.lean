import Mathlib.Data.List.Perm.Subperm
import ArielOS.RunQueue.RunQueueSpec

namespace ArielOS.RunQueue

open Linked Queues

variable {usizeBits nQueues nThreads : Nat} {r : RunQueue usizeBits nQueues nThreads}
  {c : CList nQueues nThreads} {L : Queues Nat} {n q : Nat} {it : Iter usizeBits}
  {rest : List Nat}

/-- The iterator has just yielded `prev`, and `rest` is what it yields from then on. -/
def Iter.Remaining (it : Iter usizeBits) (L : Queues Nat) (rest : List Nat) : Prop :=
  ∃ q front back, L q = front ++ it.prev :: back ∧ it.rqHead = (L q).head? ∧
    (∀ p, it.bitcache.getLsbD p = true ↔ below L (q + 1) p ≠ []) ∧ rest = back ++ order L q

/-- Within a queue, `peek_next` leads to the element behind, and from the last one to the head. -/
theorem peekNext_spec (h : c.Represents L) {front back : List Nat}
    (split : L q = front ++ n :: back) :
    c.peekNext n = .ok (match back with
      | [] => c.next (c.last q)
      | b :: _ => b) := by
  have member : n ∈ L q := by simp [split]
  have path := (h.ring member).2
  rw [split, segment_append] at path
  obtain ⟨m, -, -, onward⟩ := path
  rw [CList.peekNext, readAt_ok CList.sentinel _ (h.thread_lt member)]
  cases back with
  | nil => exact congrArg Except.ok onward
  | cons b back => exact congrArg Except.ok onward.1

theorem below_clear {bitcache : BitVec usizeBits}
    (bits : ∀ p, bitcache.getLsbD p = true ↔ below L (q + 1) p ≠ []) (p : Nat) :
    (bitcache &&& ~~~bit q).getLsbD p = true ↔ below L q p ≠ [] := by
  rw [clear_bits bits]
  by_cases same : p = q
  · subst same
    simp [below]
  · rw [Function.update_of_ne same, below, below]
    have bound : p < q + 1 ↔ p < q := by omega
    simp only [bound]

/-- Moving on to the next lower queue. -/
theorem next_queue {bitcache : BitVec usizeBits} (wide : q ≤ usizeBits)
    (bits : ∀ p, bitcache.getLsbD p = true ↔ below L q p ≠ []) :
    (bitcache = BitVec.ofNat usizeBits 0 ∧ highest L q = none) ∨
      ∃ p, bitcache ≠ BitVec.ofNat usizeBits 0 ∧ ffs bitcache = p + 1 ∧ highest L q = some p := by
  have found := ffs_spec bits
  rw [highest_below L wide] at found
  cases top : highest L q with
  | none =>
    have zero : bitcache = BitVec.ofNat usizeBits 0 := by
      apply BitVec.eq_of_getLsbD_eq
      intro i _
      rw [BitVec.getLsbD_zero, ← Bool.not_eq_true, bits i,
        not_not, below]
      split
      · rename_i lower
        exact highest_eq_none.mp top i lower
      · rfl
    exact Or.inl ⟨zero, rfl⟩
  | some p =>
    obtain ⟨lower, filled, -⟩ := highest_eq_some.mp top
    refine Or.inr ⟨p, ?_, by simpa [top] using found, rfl⟩
    intro zero
    have set := (bits p).mpr (by simpa [below, lower] using filled)
    simp [zero] at set

/-- One step yields the first of the remaining threads. -/
theorem next_spec (h : c.Represents L) (small : nThreads < 255) (width : nQueues ≤ usizeBits)
    (remaining : it.Remaining L rest) :
    ∃ it', it.next c = .ok (it', rest.head?) ∧
      (∀ n later, rest = n :: later → it'.Remaining L later) ∧
      (rest = [] → it'.rqHead = none ∧ it'.prev < nThreads) := by
  obtain ⟨q, front, back, split, head, bits, rfl⟩ := remaining
  have member : it.prev ∈ L q := by simp [split]
  have first := h.head member
  have queue := h.queue_lt member
  have step := peekNext_spec h split
  rw [first] at head
  cases back with
  | cons b back =>
    have other : b ≠ c.next (c.last q) := by
      intro same
      have nodup := h.separate.nodup q
      rw [split] at nodup first
      cases front with
      | nil =>
        simp only [List.nil_append, List.head?_cons, Option.some.injEq] at first
        simp [← same, first] at nodup
      | cons a front =>
        simp only [List.cons_append, List.head?_cons, Option.some.injEq] at first
        simp [← same, first] at nodup
    refine ⟨{ it with prev := b }, ?_, ?_, by simp⟩
    · simp [Iter.next, step, head, other]
    · intro n later same
      cases same
      exact ⟨q, front ++ [it.prev], back, by simp [split], by rw [first]; exact head, bits, rfl⟩
  | nil =>
    have highestBit : ffs it.bitcache = q + 1 := by
      have found := ffs_spec bits
      rw [highest_below L (by omega)] at found
      have filled : L q ≠ [] := List.ne_nil_of_mem member
      have top : highest L (q + 1) = some q := highest_eq_some.mpr
        ⟨by omega, filled, fun p low high => by omega⟩
      simpa [top] using found
    have cleared := below_clear bits
    rcases next_queue (by omega) cleared with ⟨zero, top⟩ | ⟨p, nonzero, found, top⟩
    · have nothing : order L q = [] := by
        rw [← List.head?_eq_none_iff, order_head?, top, Option.bind_none]
      refine ⟨⟨it.prev, none, it.bitcache &&& ~~~bit q⟩, ?_, by simp [nothing],
        fun _ => ⟨rfl, h.thread_lt member⟩⟩
      simp only [Iter.next, step, head, highestBit]
      simp [zero, nothing]
    · obtain ⟨lower, filled, above⟩ := highest_eq_some.mp top
      obtain ⟨m, back, front⟩ := List.exists_cons_of_ne_nil filled
      have member : m ∈ L p := by simp [front]
      have peeked := CList.peekHead_spec h small (h.queue_lt member)
      rw [order_of_highest top, front]
      refine ⟨⟨m, some m, it.bitcache &&& ~~~bit q⟩, ?_, ?_, by simp⟩
      · simp only [Iter.next, step, head, highestBit]
        simp [nonzero, found, peeked, front]
      · intro n later same
        cases same
        refine ⟨p, [], back, front, by simp [front], ?_, rfl⟩
        intro i
        rw [cleared, below, below]
        by_cases between : p < i ∧ i < q
        · have empty := above i between.1 between.2
          simp [empty]
        · have bound : i < q ↔ i < p + 1 := by omega
          simp only [bound]

/-- `find` on the iterator is `find` on what it yields. -/
theorem find_spec (h : c.Represents L) (small : nThreads < 255) (width : nQueues ≤ usizeBits)
    (predicate : Nat → Bool) {fuel : Nat} (enough : rest.length < fuel)
    (remaining : it.Remaining L rest) :
    it.find c predicate fuel = .ok (rest.find? predicate) := by
  induction fuel generalizing it rest with
  | zero => omega
  | succ fuel ih =>
    obtain ⟨it', step, later, -⟩ := next_spec h small width remaining
    cases rest with
    | nil =>
      rw [List.head?_nil] at step
      simp [Iter.find, step]
    | cons n rest =>
      rw [List.head?_cons] at step
      rw [List.length_cons] at enough
      have onward := ih (by omega) (later n rest rfl)
      by_cases found : predicate n = true
      · simp [Iter.find, step, found]
      · simp [Iter.find, step, found, onward]

theorem order_length (h : c.Represents L) (bound : Nat) : (order L bound).length ≤ nThreads := by
  have nodup := h.separate.nodup_order bound
  have inside : order L bound ⊆ List.range nThreads := by
    intro n member
    obtain ⟨q, -, here⟩ := mem_order.mp member
    exact List.mem_range.mpr (h.thread_lt here)
  simpa using (List.subperm_of_subset nodup inside).length_le

theorem iterFrom_spec (h : r.Represents L) (small : nThreads < 255) (wide : q + 1 < usizeBits)
    {front back : List Nat} (split : L q = front ++ n :: back) :
    ∃ it, r.iterFrom n q = .ok it ∧ it.Remaining L (back ++ order L q) := by
  have queue : q < nQueues := h.queues.queue_lt (n := n) (by simp [split])
  have peeked := CList.peekHead_spec h.queues small queue
  refine ⟨⟨n, (L q).head?, r.bitcache % bit (q + 1)⟩, ?_, q, front, back, split, rfl, ?_, rfl⟩
  · simp [iterFrom, wide, peeked]
  · intro p
    have power : (bit (q + 1) : BitVec usizeBits).toNat = 2 ^ (q + 1) := by
      rw [bit, BitVec.toNat_shiftLeft, Nat.shiftLeft_eq, BitVec.toNat_one (by omega), Nat.one_mul]
      exact Nat.mod_eq_of_lt (Nat.pow_lt_pow_right (by omega) wide)
    rw [BitVec.getLsbD, BitVec.toNat_umod, power, Nat.testBit_mod_two_pow, ← BitVec.getLsbD,
      Bool.and_eq_true, decide_eq_true_eq, h.bits p, below]
    by_cases lower : p < q + 1 <;> simp [lower]

/-- The first thread that the predicate accepts, from the highest queue down, if the iterator starts
    below the highest bit of the cache or is not needed. -/
theorem getNextFilter_top (h : r.Represents L) (small : nThreads < 255)
    (width : nQueues ≤ usizeBits) (predicate : Nat → Bool)
    (fits : ∀ q m, highest L usizeBits = some q → (L q).head? = some m →
      q + 1 < usizeBits ∨ predicate m = true) :
    r.getNextFilter predicate = .ok ((order L usizeBits).find? predicate) := by
  rw [getNextFilter, getNextWithRq_spec h small]
  cases top : highest L usizeBits with
  | none =>
    have nothing : order L usizeBits = [] := by
      rw [← List.head?_eq_none_iff, order_head?, top, Option.bind_none]
    simp [nothing]
  | some q =>
    obtain ⟨m, back, front⟩ := List.exists_cons_of_ne_nil (highest_eq_some.mp top).2.1
    have all := order_of_highest top
    rw [front] at all
    rw [all]
    by_cases found : predicate m = true
    · simp [front, found]
    · obtain wide := (fits q m top (by simp [front])).resolve_right found
      have split : L q = [] ++ m :: back := front
      obtain ⟨it, started, remaining⟩ := iterFrom_spec h small wide split
      have few := order_length h.queues usizeBits
      rw [all, List.cons_append, List.length_cons] at few
      have onward := find_spec h.queues small width predicate
        (show (back ++ order L q).length < nThreads + 1 by omega) remaining
      simp [front, found, started, onward]

theorem getNextFilter_spec (h : r.Represents L) (small : nThreads < 255)
    (width : nQueues < usizeBits) (predicate : Nat → Bool) :
    r.getNextFilter predicate = .ok ((order L usizeBits).find? predicate) := by
  refine getNextFilter_top h small (Nat.le_of_lt width) predicate fun q m top head => Or.inl ?_
  have queue : q < nQueues := h.queues.queue_lt (List.mem_of_head? head)
  omega

end ArielOS.RunQueue
