import ArielOS.RunQueue.IterSpec
import ArielOS.RunQueue.Refinement

namespace ArielOS.RunQueue

open Queues

variable {usizeBits nQueues nThreads : Nat} {r : RunQueue usizeBits nQueues nThreads}
  {c : CList nQueues nThreads} {L : Queues Nat} {n q : Nat} {it : Iter usizeBits}
  {rest : List Nat}

/-- The first results of the iterator. -/
def Iter.nexts (queues : CList nQueues nThreads) :
    Nat → Iter usizeBits → Except Fault (List (Option Nat))
  | 0, _ => .ok []
  | k + 1, it => do
    let (it, n) ← it.next queues
    return n :: (← it.nexts queues k)

theorem nexts_succ {it' : Iter usizeBits} {next : Option Nat} {later : List (Option Nat)} {k : Nat}
    (step : it.next c = .ok (it', next)) (onward : it'.nexts c k = .ok later) :
    it.nexts c (k + 1) = .ok (next :: later) := by
  rw [Iter.nexts, step, Machine.ok_bind]
  dsimp only
  rw [onward]
  rfl

theorem next_finished (ended : it.rqHead = none) (bound : it.prev < nThreads) :
    it.next c = .ok (it, none) := by
  rw [Iter.next, CList.peekNext, readAt_ok CList.sentinel _ bound, Machine.ok_bind, ended]
  rfl

theorem nexts_finished (ended : it.rqHead = none) (bound : it.prev < nThreads) (k : Nat) :
    it.nexts c k = .ok (List.replicate k none) := by
  induction k with
  | zero => rfl
  | succ k ih => exact nexts_succ (next_finished ended bound) ih

/-- The iterator yields what remains, and from then on nothing. -/
theorem nexts_spec (h : c.Represents L) (small : nThreads < 255) (width : nQueues ≤ usizeBits)
    (remaining : it.Remaining L rest) (k : Nat) :
    it.nexts c k = .ok ((List.range k).map fun i => rest[i]?) := by
  induction k generalizing it rest with
  | zero => rfl
  | succ k ih =>
    obtain ⟨it', step, later, ended⟩ := next_spec h small width remaining
    rw [List.range_succ_eq_map, List.map_cons, List.map_map]
    cases rest with
    | nil =>
      obtain ⟨finished, bound⟩ := ended rfl
      rw [nexts_succ step (nexts_finished finished bound k)]
      simp [Function.comp_def]
    | cons m rest => exact nexts_succ step (ih (later m rest rfl))

/-- From `n` in queue `q` on, the iterator yields the threads behind it and those of all lower queues,
    each once, and then nothing. -/
def Iterates (r : RunQueue usizeBits nQueues nThreads) (L : Queues Nat) (n q : Nat)
    (back : List Nat) : Prop :=
  (back ++ order L q).Nodup ∧ ∃ it, r.iterFrom n q = .ok it ∧ ∀ k,
    it.nexts r.queues k = .ok ((List.range k).map fun i => (back ++ order L q)[i]?)

theorem iterates_iff (h : r.Represents L) (small : nThreads < 255) (width : nQueues ≤ usizeBits)
    {front back : List Nat} (split : L q = front ++ n :: back) :
    r.Iterates L n q back ↔ q + 1 < usizeBits := by
  apply Iff.intro
  · intro ⟨_, it, started, _⟩
    by_contra narrow
    rw [iterFrom, if_pos (Nat.not_lt.mp narrow)] at started
    cases started
  · intro wide
    obtain ⟨it, started, remaining⟩ := iterFrom_spec h small wide split
    refine ⟨?_, it, started, nexts_spec h.queues small width remaining⟩
    have nodup := h.queues.separate.nodup_order (q + 1)
    rw [order, split, List.append_assoc] at nodup
    exact (List.nodup_cons.mp (List.nodup_append.mp nodup).2.1).2

theorem getNextFilter_iff (h : r.Represents L) (small : nThreads < 255)
    (width : nQueues ≤ usizeBits) (predicate : Nat → Bool) :
    r.getNextFilter predicate = .ok ((order L nQueues).find? predicate) ↔
      ∀ q m, highest L nQueues = some q → (L q).head? = some m →
        q + 1 < usizeBits ∨ predicate m = true := by
  have highest := h.highest_eq width
  have all : order L usizeBits = order L nQueues := by
    cases top : Queues.highest L nQueues with
    | none =>
      rw [top] at highest
      have nothing : ∀ bound, Queues.highest L bound = none → order L bound = [] := by
        intro bound none
        rw [← List.head?_eq_none_iff, order_head?, none, Option.bind_none]
      rw [nothing _ highest, nothing _ top]
    | some q =>
      rw [top] at highest
      rw [order_of_highest top, order_of_highest highest]
  rw [← all, ← highest]
  apply Iff.intro
  · intro done q m top head
    by_contra neither
    obtain ⟨narrow, refused⟩ := not_or.mp neither
    rw [getNextFilter, getNextWithRq_spec h small, top] at done
    simp [head, refused, iterFrom, Nat.not_lt.mp narrow] at done
  · exact getNextFilter_top h small width predicate

/-- Iterating and filtering go through the threads from the highest queue down exactly if the shift
    past the queue that the iterator starts in does not overflow. -/
theorem iteration_iff (small : nThreads < 255) (width : nQueues ≤ usizeBits) (h : r.Represents L) :
    (∀ q front n back, L q = front ++ n :: back →
      (r.Iterates L n q back ↔ q + 1 < usizeBits)) ∧
    ∀ predicate, r.getNextFilter predicate = .ok ((order L nQueues).find? predicate) ↔
      ∀ q m, highest L nQueues = some q → (L q).head? = some m →
        q + 1 < usizeBits ∨ predicate m = true :=
  ⟨fun _ _ _ _ split => iterates_iff h small width split, getNextFilter_iff h small width⟩

def iteratedOps : List Op := [.add 0 0, .add 1 2, .add 2 2, .add 3 3]

theorem iteration_iff_sample : ∃ (r : RunQueue 32 8 32) (L : Queues Nat), r.Represents L ∧
    L 2 = [1, 2] ∧ r.Iterates L 1 2 [2] ∧
    r.getNextFilter (· = 0) = .ok ((order L 8).find? (· = 0)) := by
  obtain ⟨r, -, holds⟩ := execAll_spec (by decide) (by decide)
    (new_represents : (new : RunQueue 32 8 32).Represents _)
    (show AllAllowed 8 32 iteratedOps fun _ => [] by decide) (by decide)
  obtain ⟨iterates, filters⟩ := iteration_iff (by decide) (by decide) holds
  refine ⟨r, _, holds, by decide, (iterates 2 [] 1 [2] (by decide)).mpr (by decide), ?_⟩
  refine (filters _).mpr fun q m top _ => Or.inl ?_
  have third : q = 3 := (Option.some.inj top).symm
  omega

/-- With as many queues as bits, the threads below the head of the highest queue are not reached. -/
theorem highest_queue_stuck : ∃ (r : RunQueue 32 32 2) (L : Queues Nat), r.Represents L ∧
    order L 32 = [1, 0] ∧ (∃ replies, execAll [.add 0 0, .add 1 31] new = .ok (r, replies)) ∧
    r.iterFrom 1 31 = .error .shiftOverflow ∧
    r.getNextFilter (· = 0) ≠ .ok ((order L 32).find? (· = 0)) := by
  obtain ⟨r, run, holds⟩ := execAll_spec (by decide) (by decide)
    (new_represents : (new : RunQueue 32 32 2).Represents _)
    (show AllAllowed 32 2 [.add 0 0, .add 1 31] fun _ => [] by decide) (by decide)
  refine ⟨r, _, holds, by decide, ⟨_, run⟩, rfl, fun done => ?_⟩
  have fits := (getNextFilter_iff holds (by decide) (by decide) _).mp done
  exact absurd (fits 31 1 (by decide) (by decide)) (by decide)

end ArielOS.RunQueue
