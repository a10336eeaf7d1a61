import ArielOS.RunQueue.RunQueueSpec

namespace ArielOS.RunQueue

open Queues

variable {usizeBits nQueues nThreads : Nat} {r : RunQueue usizeBits nQueues nThreads}
  {L : Queues Nat}

inductive Op
  | add (n rq : Nat)
  | popHead (n rq : Nat)
  | popNext
  | del (n : Nat)
  | advance (rq : Nat)

inductive Reply
  | done
  | thread (tid : Option Nat)
  | advanced (effect : Bool)
  deriving DecidableEq

def exec (r : RunQueue usizeBits nQueues nThreads) :
    Op → Except Fault (RunQueue usizeBits nQueues nThreads × Reply)
  | .add n rq => do return (← r.add n rq, .done)
  | .popHead n rq => do return (← r.popHead n rq, .done)
  | .popNext => do
    let (r, tid) ← r.popNext
    return (r, .thread tid)
  | .del n => do return (← r.del n, .done)
  | .advance rq => do
    let (r, effect) ← r.advance rq
    return (r, .advanced effect)

/-- What the operations mean for a family of first-in first-out lists, one for each of `nQueues`
    priorities. -/
def Op.spec (nQueues : Nat) (L : Queues Nat) : Op → Queues Nat × Reply
  | .add n rq => (enqueue L n rq, .done)
  | .popHead _ rq => (dropHead L rq, .done)
  | .popNext =>
    match highest L nQueues with
    | none => (L, .thread none)
    | some q => (dropHead L q, .thread (L q).head?)
  | .del n => (remove L n, .done)
  | .advance rq => (rotate L rq, .advanced (decide (2 ≤ (L rq).length)))

/-- The uses of `add` and `pop_head` that callers promise. -/
def Op.Allowed (nQueues nThreads : Nat) (L : Queues Nat) : Op → Prop
  | .add n rq => n < nThreads ∧ rq < nQueues ∧ ∀ q < nQueues, n ∈ L q → q = rq
  | .popHead n rq => (L rq).head? = some n
  | _ => True

/-- The arguments on which `del` and `advance` do not stop at an index check. -/
def Op.InRange (nQueues nThreads : Nat) : Op → Prop
  | .del n => n < nThreads
  | .advance rq => rq < nQueues
  | _ => True

instance (op : Op) : Decidable (op.Allowed nQueues nThreads L) := by
  cases op <;> unfold Op.Allowed <;> infer_instance

instance (op : Op) : Decidable (op.InRange nQueues nThreads) := by
  cases op <;> unfold Op.InRange <;> infer_instance

theorem Represents.highest_eq (h : r.Represents L) (width : nQueues ≤ usizeBits) :
    highest L usizeBits = highest L nQueues := by
  cases top : highest L nQueues with
  | none =>
    rw [highest_eq_none] at top ⊢
    intro q _
    by_contra filled
    exact filled (top q (h.queue_lt filled))
  | some q =>
    obtain ⟨bound, filled, above⟩ := highest_eq_some.mp top
    apply highest_eq_some.mpr
    refine ⟨by omega, filled, ?_⟩
    intro p higher _
    by_contra other
    exact other (above p higher (h.queue_lt other))

/-- One operation: it answers as the lists do, and leaves a state for the new lists. -/
theorem exec_spec (h : r.Represents L) (small : nThreads < 255) (width : nQueues ≤ usizeBits)
    {op : Op} (allowed : op.Allowed nQueues nThreads L) (inRange : op.InRange nQueues nThreads) :
    ∃ r', r.exec op = .ok (r', (op.spec nQueues L).2) ∧ r'.Represents (op.spec nQueues L).1 := by
  cases op with
  | add n rq =>
    obtain ⟨thread, queue, elsewhere⟩ := allowed
    obtain ⟨r', added, holds⟩ := add_spec h small width thread queue fun p member =>
      elsewhere p (h.queues.queue_lt member) member
    exact ⟨r', by simp [exec, added, Op.spec], holds⟩
  | popHead n rq =>
    have member := List.mem_of_head? allowed
    obtain ⟨r', popped, holds⟩ := popHead_spec h small (h.queues.thread_lt member)
      (h.queues.queue_lt member) allowed
    exact ⟨r', by simp [exec, popped, Op.spec], holds⟩
  | popNext =>
    obtain ⟨r', popped, holds⟩ := popNext_spec h small
    rw [h.highest_eq width] at popped holds
    refine ⟨r', ?_, ?_⟩
    · rw [exec, popped]
      cases top : highest L nQueues <;> simp [Op.spec, top]
    · cases top : highest L nQueues <;> simpa [Op.spec, top] using holds
  | del n =>
    obtain ⟨r', deleted, holds⟩ := del_spec h small inRange
    exact ⟨r', by simp [exec, deleted, Op.spec], holds⟩
  | advance rq =>
    obtain ⟨r', advanced, holds⟩ := advance_spec h small inRange
    exact ⟨r', by simp [exec, advanced, Op.spec], holds⟩

theorem exec_inRange {op : Op} {out : RunQueue usizeBits nQueues nThreads × Reply}
    (done : r.exec op = .ok out) : op.InRange nQueues nThreads := by
  cases op with
  | del n =>
    by_contra outside
    have bound : ¬ n < nThreads := outside
    simp [exec, del, CList.del, readAt, bound] at done
  | advance rq =>
    by_contra outside
    have bound : ¬ rq < nQueues := outside
    simp [exec, advance, checkQueue, bound] at done
  | _ => exact trivial

def execAll : List Op → RunQueue usizeBits nQueues nThreads →
    Except Fault (RunQueue usizeBits nQueues nThreads × List Reply)
  | [], r => .ok (r, [])
  | op :: ops, r => do
    let (r, reply) ← r.exec op
    let (r, replies) ← execAll ops r
    return (r, reply :: replies)

def specAll (nQueues : Nat) : List Op → Queues Nat → Queues Nat × List Reply
  | [], L => (L, [])
  | op :: ops, L =>
    let (L, reply) := op.spec nQueues L
    let (L, replies) := specAll nQueues ops L
    (L, reply :: replies)

def AllAllowed (nQueues nThreads : Nat) : List Op → Queues Nat → Prop
  | [], _ => True
  | op :: ops, L =>
    op.Allowed nQueues nThreads L ∧ AllAllowed nQueues nThreads ops (op.spec nQueues L).1

instance decidableAllAllowed : (ops : List Op) → (L : Queues Nat) →
    Decidable (AllAllowed nQueues nThreads ops L)
  | [], _ => isTrue trivial
  | op :: ops, L =>
    have := decidableAllAllowed ops (op.spec nQueues L).1
    inferInstanceAs (Decidable (_ ∧ _))

theorem execAll_spec (small : nThreads < 255) (width : nQueues ≤ usizeBits) {ops : List Op}
    (h : r.Represents L) (allowed : AllAllowed nQueues nThreads ops L)
    (inRange : ∀ op ∈ ops, op.InRange nQueues nThreads) :
    ∃ r', execAll ops r = .ok (r', (specAll nQueues ops L).2) ∧
      r'.Represents (specAll nQueues ops L).1 := by
  induction ops generalizing r L with
  | nil => exact ⟨r, rfl, h⟩
  | cons op ops ih =>
    obtain ⟨r₁, first, holds⟩ := exec_spec h small width allowed.1 (inRange op (by simp))
    obtain ⟨r₂, rest, final⟩ := ih holds allowed.2 fun o member => inRange o (by simp [member])
    exact ⟨r₂, by simp [execAll, first, rest, specAll], final⟩

theorem execAll_inRange {ops : List Op} {out : RunQueue usizeBits nQueues nThreads × List Reply}
    (done : execAll ops r = .ok out) : ∀ op ∈ ops, op.InRange nQueues nThreads := by
  induction ops generalizing r out with
  | nil => simp
  | cons op ops ih =>
    obtain ⟨mid, first, rest⟩ := Machine.bind_ok_iff.mp done
    obtain ⟨last, rest, -⟩ := Machine.bind_ok_iff.mp rest
    intro o member
    rcases List.mem_cons.mp member with same | later
    · exact same ▸ exec_inRange first
    · exact ih rest o later

/-- A state of the runqueue and what it reports, against the lists. -/
structure Agrees (r : RunQueue usizeBits nQueues nThreads) (L : Queues Nat) : Prop where
  represents : r.Represents L
  getNext : r.getNext = .ok ((highest L nQueues).bind fun q => (L q).head?)
  getNextWithRq : r.getNextWithRq =
    .ok ((highest L nQueues).bind fun q => (L q).head?.map fun n => (n, q))
  peekHead : ∀ q < nQueues, r.peekHead q = .ok (L q).head?
  isEmpty : ∀ q < nQueues, r.isEmpty q = .ok (L q).isEmpty

theorem Represents.agrees (h : r.Represents L) (small : nThreads < 255)
    (width : nQueues ≤ usizeBits) : Agrees r L where
  represents := h
  getNext := by rw [getNext_spec h small, h.highest_eq width]
  getNextWithRq := by rw [getNextWithRq_spec h small, h.highest_eq width]
  peekHead := fun _ queue => peekHead_spec h small queue
  isEmpty := fun _ queue => isEmpty_spec h small queue

/-- Every sequence of operations from the new runqueue behaves as on the lists, from the empty
    lists; it ends early only at an index check of `del` or `advance`. -/
theorem runs_refine_lists (small : nThreads < 255) (width : nQueues ≤ usizeBits) (ops : List Op)
    (allowed : AllAllowed nQueues nThreads ops fun _ => []) :
    (∀ r replies, execAll ops (new : RunQueue usizeBits nQueues nThreads) = .ok (r, replies) →
      replies = (specAll nQueues ops fun _ => []).2 ∧
        Agrees r (specAll nQueues ops fun _ => []).1) ∧
    ((∀ op ∈ ops, op.InRange nQueues nThreads) →
      ∃ out, execAll ops (new : RunQueue usizeBits nQueues nThreads) = .ok out) := by
  have fresh : (new : RunQueue usizeBits nQueues nThreads).Represents fun _ => [] :=
    new_represents
  have run := execAll_spec small width fresh allowed
  refine ⟨?_, ?_⟩
  · intro r replies done
    obtain ⟨r', completed, holds⟩ := run (execAll_inRange done)
    rw [done, Except.ok.injEq, Prod.mk.injEq] at completed
    obtain ⟨rfl, rfl⟩ := completed
    exact ⟨rfl, holds.agrees small width⟩
  · intro inRange
    obtain ⟨r', completed, -⟩ := run inRange
    exact ⟨_, completed⟩

def sampleOps : List Op :=
  [.add 0 0, .add 1 2, .add 2 2, .add 3 3, .add 1 2, .advance 2, .popNext, .del 1, .popHead 2 2,
    .popNext, .popNext]

theorem runs_refine_lists_sample :
    (∀ r replies, execAll sampleOps (new : RunQueue 32 8 32) = .ok (r, replies) →
      replies = (specAll 8 sampleOps fun _ => []).2 ∧
        Agrees r (specAll 8 sampleOps fun _ => []).1) ∧
    ((∀ op ∈ sampleOps, op.InRange 8 32) →
      ∃ out, execAll sampleOps (new : RunQueue 32 8 32) = .ok out) :=
  runs_refine_lists (by decide) (by decide) sampleOps (by decide)

end ArielOS.RunQueue
