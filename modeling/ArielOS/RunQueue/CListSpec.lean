import ArielOS.Lib.Queues
import ArielOS.RunQueue.CList

namespace ArielOS.CList

open Linked Queues

variable {nQueues nThreads : Nat} {c : CList nQueues nThreads} {L : Queues Nat}
  {n q : Nat}

def last (c : CList nQueues nThreads) (q : Nat) : Nat := view sentinel c.tail q

def next (c : CList nQueues nThreads) (n : Nat) : Nat := view sentinel c.nextIdxs n

/-- The arrays hold the lists `L`: a ring for each non-empty one, and the sentinel wherever no
    list or no thread is. -/
structure Represents (c : CList nQueues nThreads) (L : Queues Nat) : Prop where
  separate : Separate L
  thread_lt : ∀ {n q}, n ∈ L q → n < nThreads
  queue_lt : ∀ {n q}, n ∈ L q → q < nQueues
  ring : ∀ {n q}, n ∈ L q → Ring c.next (c.last q) (L q)
  empty : ∀ {q}, L q = [] → c.last q = sentinel
  free : ∀ {n}, (∀ q, n ∉ L q) → c.next n = sentinel

theorem new_represents : (new : CList nQueues nThreads).Represents (fun _ => []) where
  separate := separate_nil
  thread_lt := by simp
  queue_lt := by simp
  ring := by simp
  empty := by simp [last, new, view_replicate]
  free := by simp [next, new, view_replicate]

namespace Represents

theorem next_mem (h : c.Represents L) (member : n ∈ L q) : c.next n ∈ L q :=
  (h.ring member).next_mem member

theorem next_lt (h : c.Represents L) (member : n ∈ L q) : c.next n < nThreads :=
  h.thread_lt (h.next_mem member)

theorem last_mem (h : c.Represents L) (member : n ∈ L q) : c.last q ∈ L q :=
  (h.ring member).last_mem

theorem last_eq_sentinel (h : c.Represents L) (small : nThreads < 255) :
    c.last q = sentinel ↔ L q = [] := by
  apply Iff.intro
  · intro last
    by_contra nonempty
    obtain ⟨n, member⟩ := List.exists_mem_of_ne_nil _ nonempty
    have bound := h.thread_lt (h.last_mem member)
    rw [last, sentinel] at bound
    omega
  · exact h.empty

theorem next_eq_sentinel (h : c.Represents L) (small : nThreads < 255) :
    c.next n = sentinel ↔ ∀ q, n ∉ L q := by
  apply Iff.intro
  · intro next q member
    have bound := h.next_lt member
    rw [next, sentinel] at bound
    omega
  · exact h.free

theorem head (h : c.Represents L) (member : n ∈ L q) : (L q).head? = some (c.next (c.last q)) :=
  (h.ring member).head

end Represents

theorem isEmpty_spec (h : c.Represents L) (small : nThreads < 255) (bound : q < nQueues) :
    c.isEmpty q = .ok (L q).isEmpty := by
  have empty := h.last_eq_sentinel (q := q) small
  simp only [isEmpty, readAt_ok sentinel c.tail bound, Machine.ok_bind, Machine.pure_eq_ok,
    Except.ok.injEq]
  rw [Bool.eq_iff_iff, beq_iff_eq, List.isEmpty_iff]
  exact empty

theorem peekHead_spec (h : c.Represents L) (small : nThreads < 255) (bound : q < nQueues) :
    c.peekHead q = .ok (L q).head? := by
  simp only [peekHead, isEmpty_spec h small bound, Machine.ok_bind]
  cases list : L q with
  | nil => simp
  | cons a l =>
    have member : a ∈ L q := by simp [list]
    have tail := readAt_ok sentinel c.tail bound
    have head := readAt_ok sentinel c.nextIdxs (h.thread_lt (h.last_mem member))
    simp only [last] at head
    simp only [tail, Machine.ok_bind, head, List.isEmpty_cons, Bool.false_eq_true, ↓reduceIte,
      Machine.pure_eq_ok]
    rw [← list, h.head member]
    rfl

/-- An operation on queue `q` has to leave the other tails and the links of the other nodes
    alone, to lay out the new list as a ring, and to clear the links of the nodes it drops. -/
theorem Represents.change {c' : CList nQueues nThreads} {l : List Nat} (h : c.Represents L)
    (queue : q < nQueues) (separate : Separate (Function.update L q l))
    (threads : ∀ m ∈ l, m < nThreads) (lasts : ∀ r, r ≠ q → c'.last r = c.last r)
    (nexts : ∀ m, m ∉ L q → m ∉ l → c'.next m = c.next m)
    (ring : l ≠ [] → Ring c'.next (c'.last q) l) (empty : l = [] → c'.last q = sentinel)
    (dropped : ∀ m ∈ L q, m ∉ l → c'.next m = sentinel) :
    c'.Represents (Function.update L q l) where
  separate := separate
  thread_lt := by
    intro m r member
    by_cases same : r = q
    · subst same
      exact threads m (by simpa using member)
    · exact h.thread_lt (by simpa [same] using member)
  queue_lt := by
    intro m r member
    by_cases same : r = q
    · exact same ▸ queue
    · exact h.queue_lt (by simpa [same] using member)
  ring := by
    intro m r member
    by_cases same : r = q
    · subst same
      rw [Function.update_self] at member ⊢
      exact ring (List.ne_nil_of_mem member)
    · rw [Function.update_of_ne same] at member ⊢
      rw [lasts r same]
      apply (h.ring member).congr
      intro k inRing
      apply nexts k
      · exact fun inQueue => same (h.separate.apart inRing inQueue)
      · intro inList
        exact same (separate.apart (q := r) (r := q) (by simpa [same] using inRing)
          (by simpa using inList))
  empty := by
    intro r none
    by_cases same : r = q
    · subst same
      exact empty (by simpa using none)
    · rw [lasts r same]
      exact h.empty (by simpa [same] using none)
  free := by
    intro m absent
    have notInList : m ∉ l := by simpa using absent q
    by_cases inQueue : m ∈ L q
    · exact dropped m inQueue notInList
    · rw [nexts m inQueue notInList]
      apply h.free
      intro r
      by_cases same : r = q
      · exact same ▸ inQueue
      · simpa [same] using absent r

theorem last_eq (c : CList nQueues nThreads) : c.last = view sentinel c.tail := rfl

theorem next_eq (c : CList nQueues nThreads) : c.next = view sentinel c.nextIdxs := rfl

theorem push_spec (h : c.Represents L) (small : nThreads < 255) (thread : n < nThreads)
    (queue : q < nQueues) (elsewhere : ∀ r, n ∈ L r → r = q) :
    ∃ c', c.push n q = .ok c' ∧ c'.Represents (enqueue L n q) := by
  have notSentinel : ¬ n ≥ sentinel := by simp only [sentinel]; omega
  have readNext : readAt c.nextIdxs n = .ok (c.next n) := readAt_ok sentinel c.nextIdxs thread
  have readTail : readAt c.tail q = .ok (c.last q) := readAt_ok sentinel c.tail queue
  by_cases queued : n ∈ L q
  · have occupied : c.next n ≠ sentinel := fun free =>
      (h.next_eq_sentinel small).mp free q queued
    refine ⟨c, ?_, ?_⟩
    · simp [push, notSentinel, readNext, occupied]
    · simpa [enqueue, queued] using h
  · have absent : ∀ r, n ∉ L r := by
      intro r member
      exact queued (elsewhere r member ▸ member)
    have free := (h.next_eq_sentinel small).mpr absent
    have separate := h.separate.enqueue elsewhere
    simp only [enqueue, queued, ↓reduceIte] at separate ⊢
    cases list : L q with
    | nil =>
      refine ⟨⟨c.tail.set q n, c.nextIdxs.set n n⟩, ?_, ?_⟩
      · simp [push, notSentinel, readNext, free, peekHead_spec h small queue, list,
          writeAt_ok c.tail n queue, writeAt_ok c.nextIdxs n thread]
      · rw [list] at separate
        apply h.change queue separate
        · simpa using thread
        · intro r other
          simp [last_eq, view_set, other]
        · intro m _ outside
          have other : m ≠ n := by simpa using outside
          simp [next_eq, view_set, other]
        · intro _
          simp only [last_eq, next_eq, view_set, Function.update_self, List.nil_append]
          exact ring_single _ n
        · simp
        · simp [list]
    | cons a l =>
      have member : a ∈ L q := by simp [list]
      have ring := h.ring member
      have lastLt := h.thread_lt ring.last_mem
      have peek : c.peekHead q = .ok (some (c.next (c.last q))) := by
        rw [peekHead_spec h small queue, h.head member]
      refine ⟨⟨c.tail.set q n, (c.nextIdxs.set n (c.next (c.last q))).set (c.last q) n⟩, ?_, ?_⟩
      · simp [push, notSentinel, readNext, free, peek, readTail, writeAt_ok _ _ thread,
          writeAt_ok _ _ lastLt, writeAt_ok _ _ queue]
      · rw [← list]
        apply h.change queue separate
        · intro m inList
          rcases List.mem_append.mp inList with old | new
          · exact h.thread_lt old
          · obtain rfl := List.mem_singleton.mp new
            exact thread
        · intro r other
          simp [last_eq, view_set, other]
        · intro m outside fresh
          have notNew : m ≠ n := fun same => fresh (by simp [same])
          have notLast : m ≠ c.last q := fun same => outside (same ▸ ring.last_mem)
          rw [next_eq, view_set _ _ _ lastLt, view_set _ _ _ thread,
            Function.update_of_ne notLast, Function.update_of_ne notNew]
          rfl
        · intro _
          have newTail : view sentinel (c.tail.set q n) q = n := by simp [view_set]
          rw [next_eq, view_set _ _ _ lastLt, view_set _ _ _ thread]
          change Ring _ (view sentinel (c.tail.set q n) q) _
          rw [newTail]
          exact ring.append (h.separate.nodup q) queued
        · simp
        · intro m old gone
          exact absurd (List.mem_append_left _ old) gone

/-- The only node of a queue is taken out. -/
theorem Represents.clear (h : c.Represents L) (queue : q < nQueues) (thread : n < nThreads)
    (list : L q = [n]) :
    (⟨c.tail.set q sentinel, c.nextIdxs.set n sentinel⟩ : CList nQueues nThreads).Represents
      (remove L n) := by
  have member : n ∈ L q := by simp [list]
  have separate := h.separate.remove n
  rw [remove_eq_update h.separate member] at separate ⊢
  apply h.change queue separate
  · simp [list]
  · intro r other
    simp [last_eq, view_set, other]
  · intro m outside _
    have other : m ≠ n := fun same => outside (same ▸ member)
    simp [next_eq, view_set, other]
  · simp [list]
  · simp [last_eq, view_set]
  · intro m old _
    rw [list] at old
    obtain rfl := List.mem_singleton.mp old
    simp [next_eq, view_set]

/-- A node that is not the only one of its queue is taken out: the previous node takes over its link,
    and its place at the end. -/
theorem Represents.unlink {prev : Nat} {tail : Vector Nat nQueues} (h : c.Represents L)
    (thread : n < nThreads) (prevLt : prev < nThreads) (member : n ∈ L q) (prevMem : prev ∈ L q)
    (link : c.next prev = n) (distinct : prev ≠ n)
    (self : view sentinel tail q = if n = c.last q then prev else c.last q)
    (others : ∀ r, r ≠ q → view sentinel tail r = c.last r) :
    (⟨tail, (c.nextIdxs.set prev (c.next n)).set n sentinel⟩ : CList nQueues nThreads).Represents
      (remove L n) := by
  have nodup := h.separate.nodup q
  have separate := h.separate.remove n
  have shorter := (h.ring member).erase nodup member prevMem link distinct
  have reduced : (L q).erase n ≠ [] :=
    List.ne_nil_of_mem ((nodup.mem_erase_iff).mpr ⟨distinct, prevMem⟩)
  have absent : n ∉ (L q).erase n := nodup.not_mem_erase
  rw [remove_eq_update h.separate member] at separate ⊢
  apply h.change (h.queue_lt member) separate
  · intro m inList
    exact h.thread_lt (List.mem_of_mem_erase inList)
  · exact others
  · intro m outside _
    have notThis : m ≠ n := fun same => outside (same ▸ member)
    have notPrev : m ≠ prev := fun same => outside (same ▸ prevMem)
    rw [next_eq, view_set _ _ _ thread, view_set _ _ _ prevLt,
      Function.update_of_ne notThis, Function.update_of_ne notPrev]
    rfl
  · intro _
    change Ring _ (view sentinel tail q) _
    rw [self]
    apply shorter.congr
    intro m inList
    have notThis : m ≠ n := fun same => absent (same ▸ inList)
    rw [next_eq, view_set _ _ _ thread, view_set _ _ _ prevLt,
      Function.update_of_ne notThis]
    rfl
  · exact fun none => absurd none reduced
  · intro m old gone
    have same : m = n := by
      by_contra other
      exact gone ((nodup.mem_erase_iff).mpr ⟨other, old⟩)
    subst same
    rw [next_eq, view_set _ _ _ thread, Function.update_self]

theorem popHead_spec (h : c.Represents L) (small : nThreads < 255) (queue : q < nQueues) :
    ∃ c', c.popHead q = .ok (c', (L q).head?) ∧ c'.Represents (dropHead L q) := by
  have readTail : readAt c.tail q = .ok (c.last q) := readAt_ok sentinel c.tail queue
  cases list : L q with
  | nil =>
    refine ⟨c, ?_, ?_⟩
    · simp [popHead, peekHead_spec h small queue, list]
    · rwa [dropHead_of_nil list]
  | cons a l =>
    have head : (L q).head? = some a := by simp [list]
    have member := List.mem_of_head? head
    have ring := h.ring member
    have first : c.next (c.last q) = a := Option.some.inj ((h.head member).symm.trans head)
    have headLt := h.thread_lt member
    have lastLt := h.thread_lt ring.last_mem
    have readHead : readAt c.nextIdxs a = .ok (c.next a) := readAt_ok sentinel c.nextIdxs headLt
    rw [dropHead_eq_remove h.separate head]
    by_cases only : a = c.last q
    · have single : L q = [a] := by
        rw [ring.singleton (h.separate.nodup q) (first.trans only), only]
      refine ⟨⟨c.tail.set q sentinel, c.nextIdxs.set a sentinel⟩, ?_, h.clear queue headLt single⟩
      rw [popHead, peekHead_spec h small queue, list]
      simp [readTail, ← only, writeAt_ok _ _ queue, writeAt_ok _ _ headLt]
    · refine ⟨⟨c.tail, (c.nextIdxs.set (c.last q) (c.next a)).set a sentinel⟩, ?_, ?_⟩
      · rw [popHead, peekHead_spec h small queue, list]
        simp [readTail, readHead, only, writeAt_ok _ _ lastLt, writeAt_ok _ _ headLt]
      · apply h.unlink headLt lastLt member ring.last_mem first (Ne.symm only)
        · rw [if_neg only]
          rfl
        · exact fun r _ => rfl

theorem positionFrom_some {m : Nat} {v : Vector Nat m} {item i j fuel : Nat}
    (found : positionFrom v item i fuel = some j) :
    i ≤ j ∧ j < i + fuel ∧ view sentinel v j = item := by
  induction fuel generalizing i with
  | zero => simp [positionFrom] at found
  | succ fuel ih =>
    rw [positionFrom] at found
    split at found
    · rename_i here
      obtain rfl := Option.some.inj found
      exact ⟨Nat.le_refl _, by omega, here⟩
    · obtain ⟨low, high, value⟩ := ih found
      exact ⟨by omega, by omega, value⟩

theorem positionFrom_none {m : Nat} {v : Vector Nat m} {item i j fuel : Nat}
    (missing : positionFrom v item i fuel = none) (low : i ≤ j) (high : j < i + fuel) :
    view sentinel v j ≠ item := by
  induction fuel generalizing i with
  | zero => omega
  | succ fuel ih =>
    rw [positionFrom] at missing
    split at missing
    · cases missing
    · rename_i other
      by_cases here : j = i
      · exact here ▸ other
      · exact ih missing (by omega) (by omega)

/-- The predecessor search of `del` finds the previous node of the same list. -/
theorem Represents.position_pred (h : c.Represents L) (small : nThreads < 255) (member : n ∈ L q) :
    ∃ prev ∈ L q, position c.nextIdxs n = some prev ∧ c.next prev = n := by
  have bound := h.thread_lt member
  cases search : position c.nextIdxs n with
  | none =>
    obtain ⟨p, queued, link⟩ := (h.ring member).exists_pred member
    have low := h.thread_lt queued
    exact absurd link (positionFrom_none search (Nat.zero_le p) (by omega))
  | some prev =>
    obtain ⟨-, -, link⟩ := positionFrom_some search
    refine ⟨prev, ?_, rfl, link⟩
    by_contra outside
    have queued : ¬ ∀ r, prev ∉ L r := by
      intro nowhere
      have free := h.free nowhere
      rw [next_eq, link, sentinel] at free
      omega
    simp only [not_forall, not_not] at queued
    obtain ⟨r, queued⟩ := queued
    have follows := h.next_mem queued
    rw [next_eq, link] at follows
    exact outside (h.separate.apart follows member ▸ queued)

theorem Represents.position_tail (h : c.Represents L) (small : nThreads < 255) (member : n ∈ L q) :
    position c.tail n = if n = c.last q then some q else none := by
  have bound := h.thread_lt member
  have queue := h.queue_lt member
  cases search : position c.tail n with
  | none =>
    have other : n ≠ c.last q := fun same =>
      positionFrom_none search (Nat.zero_le q) (by omega) same.symm
    rw [if_neg other]
  | some r =>
    obtain ⟨-, -, tail⟩ := positionFrom_some search
    have nonempty : L r ≠ [] := by
      intro none
      have empty := h.empty none
      rw [last_eq, tail, sentinel] at empty
      omega
    obtain ⟨m, inList⟩ := List.exists_mem_of_ne_nil _ nonempty
    have lastMem := h.last_mem inList
    rw [last_eq, tail] at lastMem
    obtain rfl := h.separate.apart lastMem member
    exact (if_pos tail.symm).symm

theorem del_spec (h : c.Represents L) (small : nThreads < 255) (thread : n < nThreads) :
    ∃ c' emptied, c.del n = .ok (c', emptied) ∧ c'.Represents (remove L n) ∧
      ∀ q, emptied = some q ↔ L q = [n] := by
  have readNext : readAt c.nextIdxs n = .ok (c.next n) := readAt_ok sentinel c.nextIdxs thread
  by_cases nowhere : ∀ q, n ∉ L q
  · have free := h.free nowhere
    refine ⟨c, none, by simp [del, readNext, free], ?_, ?_⟩
    · rwa [remove_of_notMem nowhere]
    · intro q
      have other : L q ≠ [n] := fun list => nowhere q (by simp [list])
      simp [other]
  · have occupied : c.next n ≠ sentinel := fun free =>
      nowhere ((h.next_eq_sentinel small).mp free)
    simp only [not_forall, not_not] at nowhere
    obtain ⟨q, member⟩ := nowhere
    have queue := h.queue_lt member
    have ring := h.ring member
    obtain ⟨prev, prevMem, search, link⟩ := h.position_pred small member
    have prevLt := h.thread_lt prevMem
    have tailSearch := h.position_tail small member
    have elsewhere : ∀ r, L r = [n] → r = q := fun r list =>
      h.separate.apart (by simp [list]) member
    by_cases alone : prev = n
    · subst alone
      have single := ring.self_link (h.separate.nodup q) member link
      have isLast : prev = c.last q := by
        have ending := ring.last_mem
        rw [single] at ending
        exact (List.mem_singleton.mp ending).symm
      rw [if_pos isLast] at tailSearch
      refine ⟨⟨c.tail.set q sentinel, c.nextIdxs.set prev sentinel⟩, some q, ?_,
        h.clear queue thread single, ?_⟩
      · simp [del, readNext, occupied, search, tailSearch, writeAt_ok _ _ queue,
          writeAt_ok _ _ thread]
      · intro r
        apply Iff.intro
        · intro same
          exact Option.some.inj same ▸ single
        · intro list
          rw [elsewhere r list]
    · have longer : ∀ r, L r ≠ [n] := by
        intro r list
        obtain rfl := elsewhere r list
        rw [list] at prevMem
        exact alone (List.mem_singleton.mp prevMem)
      -- The previous node becomes the last one of its queue where `n` was.
      by_cases isLast : n = c.last q
      · rw [if_pos isLast] at tailSearch
        refine ⟨⟨c.tail.set q prev, (c.nextIdxs.set prev (c.next n)).set n sentinel⟩, none, ?_, ?_,
          fun r => by simp [longer r]⟩
        · simp [del, readNext, occupied, search, tailSearch, alone, writeAt_ok _ _ queue,
            writeAt_ok _ _ thread, writeAt_ok _ _ prevLt]
        · apply h.unlink thread prevLt member prevMem link alone
          · simp [if_pos isLast, view_set]
          · intro r other
            simp [view_set, last_eq, other]
      · rw [if_neg isLast] at tailSearch
        refine ⟨⟨c.tail, (c.nextIdxs.set prev (c.next n)).set n sentinel⟩, none, ?_, ?_,
          fun r => by simp [longer r]⟩
        · simp [del, readNext, occupied, search, tailSearch,
            writeAt_ok _ _ thread, writeAt_ok _ _ prevLt]
        · apply h.unlink thread prevLt member prevMem link alone
          · rw [if_neg isLast]
            rfl
          · exact fun r _ => rfl

theorem advance_spec (h : c.Represents L) (small : nThreads < 255) (queue : q < nQueues) :
    ∃ c', c.advance q = .ok (c', decide (2 ≤ (L q).length)) ∧ c'.Represents (rotate L q) := by
  have readTail : readAt c.tail q = .ok (c.last q) := readAt_ok sentinel c.tail queue
  cases list : L q with
  | nil =>
    have empty := h.empty list
    refine ⟨c, ?_, ?_⟩
    · have large : c.last q ≥ nThreads := by rw [empty, sentinel]; omega
      simp [advance, readTail, large]
    · have same : rotate L q = L := by simp [rotate, list]
      rwa [same]
  | cons a l =>
    have member : a ∈ L q := by simp [list]
    have ring := h.ring member
    have lastLt := h.thread_lt ring.last_mem
    have inside : ¬ c.last q ≥ nThreads := by omega
    have readLast : readAt c.nextIdxs (c.last q) = .ok (c.next (c.last q)) :=
      readAt_ok sentinel c.nextIdxs lastLt
    by_cases alone : c.last q = c.next (c.last q)
    · have single := ring.singleton (h.separate.nodup q) alone.symm
      rw [list] at single
      simp only [List.cons.injEq] at single
      obtain ⟨-, rfl⟩ := single
      refine ⟨c, ?_, ?_⟩
      · simp [advance, readTail, inside, readLast, ← alone]
      · have same : rotate L q = L := by simp [rotate, list]
        rwa [same]
    · have turned := ring.rotate
      have several : 2 ≤ (a :: l).length := by
        cases l with
        | nil =>
          have first : a = c.next (c.last q) := by simpa [list] using h.head member
          have last := ring.last_mem
          rw [list] at last
          exact absurd ((List.mem_singleton.mp last).trans first) alone
        | cons b l => simp
      refine ⟨⟨c.tail.set q (c.next (c.last q)), c.nextIdxs⟩, ?_, ?_⟩
      · rw [decide_eq_true several]
        simp [advance, readTail, inside, readLast, alone, writeAt_ok _ _ queue]
      · have separate := h.separate.rotate q
        apply h.change queue separate
        · intro m inList
          exact h.thread_lt (List.mem_rotate.mp inList)
        · intro r other
          simp [last_eq, view_set, other]
        · intro m _ _
          rfl
        · intro _
          have newTail : view sentinel (c.tail.set q (c.next (c.last q))) q = c.next (c.last q) := by
            simp [view_set]
          change Ring _ (view sentinel (c.tail.set q (c.next (c.last q))) q) _
          rw [newTail]
          exact turned
        · intro none
          simp [list] at none
        · intro m old gone
          exact absurd (List.mem_rotate.mpr old) gone

end ArielOS.CList
