import ArielOS.Threads.Preserve

namespace ArielOS

open Machine Queues

/-! What holds of the runqueue in every state, even where its bitcache is stale. -/

namespace RunQueue

variable {usizeBits nQueues nThreads : Nat} {r r' : RunQueue usizeBits nQueues nThreads}
  {P : Nat → Prop} {n q : Nat}

/-- The lists of the runqueue are well-formed and hold only threads with the property. -/
def Holds (r : RunQueue usizeBits nQueues nThreads) (P : Nat → Prop) : Prop :=
  ∃ L, r.queues.Represents L ∧ ∀ {n q}, n ∈ L q → P n

theorem new_holds (P : Nat → Prop) : (new : RunQueue usizeBits nQueues nThreads).Holds P :=
  ⟨fun _ => [], CList.new_represents, fun member => by cases member⟩

theorem Holds.mono {P' : Nat → Prop} (holds : r.Holds P) (weaker : ∀ n, P n → P' n) : r.Holds P' := by
  obtain ⟨L, h, all⟩ := holds
  exact ⟨L, h, fun member => weaker _ (all member)⟩

theorem checkThread_ok (done : checkThread nThreads n = .ok ()) : n < nThreads := by
  unfold checkThread at done
  split at done
  · assumption
  · cases done

theorem checkQueue_ok (done : checkQueue nQueues q = .ok ()) : q < nQueues := by
  unfold checkQueue at done
  split at done
  · assumption
  · cases done

/-- A thread that is in a list is not pushed again. -/
theorem push_linked {c c' : CList nQueues nThreads} {L : Queues Nat} (h : c.Represents L)
    (small : nThreads < 255) (thread : n < nThreads) (queue : q < nQueues)
    (done : c.push n q = .ok c') : ∃ L', c'.Represents L' ∧ ∀ m p, m ∈ L' p → m ∈ L p ∨ m = n := by
  by_cases elsewhere : ∀ p, n ∈ L p → p = q
  · obtain ⟨c₁, pushed, represents⟩ := CList.push_spec h small thread queue elsewhere
    rw [done, Except.ok.injEq] at pushed
    refine ⟨_, pushed ▸ represents, fun m p member => ?_⟩
    exact (mem_enqueue.mp member).imp_right And.left
  · have linked : c.next n ≠ CList.sentinel := by
      intro free
      exact elsewhere fun p member => absurd member ((h.next_eq_sentinel small).mp free p)
    have notSentinel : ¬ n ≥ CList.sentinel := by simp only [CList.sentinel]; omega
    have readNext : readAt c.nextIdxs n = .ok (c.next n) :=
      readAt_ok CList.sentinel c.nextIdxs thread
    have same : c.push n q = .ok c := by simp [CList.push, notSentinel, readNext, linked]
    rw [done, Except.ok.injEq] at same
    exact ⟨L, same ▸ h, fun m p member => Or.inl member⟩

section

variable (small : nThreads < 255)

include small

theorem Holds.add (holds : r.Holds P) (known : P n) (done : r.add n q = .ok r') : r'.Holds P := by
  obtain ⟨L, h, all⟩ := holds
  obtain ⟨_, thread, rest⟩ := bind_ok_iff.mp done
  obtain ⟨_, queue, rest⟩ := bind_ok_iff.mp rest
  obtain ⟨c, pushed, rest⟩ := bind_ok_iff.mp rest
  cases rest
  obtain ⟨L', h', members⟩ :=
    push_linked h small (checkThread_ok thread) (checkQueue_ok queue) pushed
  refine ⟨L', h', fun member => ?_⟩
  rcases members _ _ member with before | rfl
  · exact all before
  · exact known

theorem Holds.pop {c : CList nQueues nThreads} {x : Option Nat} (holds : r.Holds P)
    (queue : q < nQueues) (done : r.queues.popHead q = .ok (c, x)) (bits : BitVec usizeBits) :
    (⟨bits, c⟩ : RunQueue usizeBits nQueues nThreads).Holds P ∧ ∀ n, x = some n → P n := by
  obtain ⟨L, h, all⟩ := holds
  obtain ⟨c', popped, h'⟩ := CList.popHead_spec h small queue
  rw [done, Except.ok.injEq, Prod.mk.injEq] at popped
  obtain ⟨rfl, rfl⟩ := popped
  refine ⟨⟨_, h', fun {n p} member => ?_⟩, fun n first => all (List.mem_of_head? first)⟩
  unfold dropHead at member
  by_cases same : p = q
  · subst same
    rw [Function.update_self] at member
    exact all (List.mem_of_mem_tail member)
  · rw [Function.update_of_ne same] at member
    exact all member

theorem Holds.popHead (holds : r.Holds P) (done : r.popHead n q = .ok r') : r'.Holds P := by
  obtain ⟨_, -, rest⟩ := bind_ok_iff.mp done
  obtain ⟨_, queue, rest⟩ := bind_ok_iff.mp rest
  obtain ⟨⟨c, x⟩, popped, rest⟩ := bind_ok_iff.mp rest
  have after := fun bits => (holds.pop small (checkQueue_ok queue) popped bits).1
  dsimp only at rest
  split at rest
  · cases rest
  · obtain ⟨empty, -, rest⟩ := bind_ok_iff.mp rest
    split at rest
    · cases rest
      exact after _
    · cases rest
      exact after _

theorem Holds.del (holds : r.Holds P) (done : r.del n = .ok r') : r'.Holds P := by
  obtain ⟨L, h, all⟩ := holds
  obtain ⟨⟨c, emptied⟩, deleted, rest⟩ := bind_ok_iff.mp done
  have thread : n < nThreads := by
    by_contra outside
    simp [CList.del, readAt, outside] at deleted
  obtain ⟨c', emptied', deleted', h', -⟩ := CList.del_spec h small thread
  rw [deleted, Except.ok.injEq, Prod.mk.injEq] at deleted'
  obtain ⟨rfl, rfl⟩ := deleted'
  have after : ∀ bits, (⟨bits, c⟩ : RunQueue usizeBits nQueues nThreads).Holds P :=
    fun bits => ⟨_, h', fun member => all ((mem_remove h.separate).mp member).1⟩
  cases emptied with
  | some q => cases rest; exact after _
  | none => cases rest; exact after _

theorem Holds.advance {advanced : Bool} (holds : r.Holds P) (done : r.advance q = .ok (r', advanced)) :
    r'.Holds P := by
  obtain ⟨L, h, all⟩ := holds
  obtain ⟨_, queue, rest⟩ := bind_ok_iff.mp done
  obtain ⟨⟨c, moved⟩, advancing, rest⟩ := bind_ok_iff.mp rest
  cases rest
  obtain ⟨c', advancing', h'⟩ := CList.advance_spec h small (checkQueue_ok queue)
  rw [advancing, Except.ok.injEq, Prod.mk.injEq] at advancing'
  obtain ⟨rfl, -⟩ := advancing'
  exact ⟨_, h', fun member => all (mem_rotate.mp member)⟩

theorem peekHead_mem {c : CList nQueues nThreads} {L : Queues Nat} (h : c.Represents L)
    (done : c.peekHead q = .ok (some n)) : n ∈ L q := by
  have queue : q < nQueues := by
    by_contra outside
    simp [CList.peekHead, CList.isEmpty, readAt, outside] at done
  rw [CList.peekHead_spec h small queue, Except.ok.injEq] at done
  exact List.mem_of_head? done

theorem getNextWithRq_mem {L : Queues Nat} (h : r.queues.Represents L)
    (done : r.getNextWithRq = .ok (some (n, q))) : n ∈ L q := by
  unfold getNextWithRq at done
  dsimp only at done
  split at done
  · cases done
  · obtain ⟨head, peeked, rest⟩ := bind_ok_iff.mp done
    cases head with
    | none => cases rest
    | some m =>
      cases rest
      exact peekHead_mem small h peeked

theorem Holds.getNext (holds : r.Holds P) (done : r.getNext = .ok (some n)) : P n := by
  obtain ⟨L, h, all⟩ := holds
  obtain ⟨found, read, rest⟩ := bind_ok_iff.mp done
  cases found with
  | none => cases rest
  | some first =>
    cases rest
    exact all (getNextWithRq_mem small h read)

theorem Holds.popNext {x : Option Nat} (holds : r.Holds P) (done : r.popNext = .ok (r', x)) :
    r'.Holds P ∧ ∀ n, x = some n → P n := by
  unfold RunQueue.popNext at done
  dsimp only at done
  split at done
  · cases done
    exact ⟨holds, fun n none => by cases none⟩
  · obtain ⟨⟨c, head⟩, popped, rest⟩ := bind_ok_iff.mp done
    have queue : ffs r.bitcache - 1 < nQueues := by
      by_contra outside
      simp [CList.popHead, CList.peekHead, CList.isEmpty, readAt, outside] at popped
    have after := fun bits => holds.pop small queue popped bits
    obtain ⟨empty, -, rest⟩ := bind_ok_iff.mp rest
    split at rest
    · cases rest
      exact after _
    · cases rest
      exact after _

/-- The iterator only yields threads that are in a list. -/
theorem next_mem {c : CList nQueues nThreads} {L : Queues Nat} (h : c.Represents L)
    {it it' : Iter usizeBits} (linked : ∃ q, it.prev ∈ L q)
    (done : it.next c = .ok (it', some n)) : it'.prev = n ∧ ∃ q, n ∈ L q := by
  obtain ⟨next, peeked, rest⟩ := bind_ok_iff.mp done
  have onward : ∃ q, next ∈ L q := by
    obtain ⟨q, member⟩ := linked
    have read := readAt_ok CList.sentinel c.nextIdxs (h.thread_lt member)
    rw [CList.peekNext, read, Except.ok.injEq] at peeked
    exact ⟨q, peeked ▸ h.next_mem member⟩
  cases head : it.rqHead with
  | none =>
    simp only [head] at rest
    cases rest
  | some rqHead =>
    simp only [head] at rest
    split at rest
    · cases rest
      exact ⟨rfl, onward⟩
    · split at rest
      · obtain ⟨first, peeked, rest⟩ := bind_ok_iff.mp rest
        cases first with
        | none => cases rest
        | some m =>
          cases rest
          exact ⟨rfl, _, peekHead_mem small h peeked⟩
      · cases rest

theorem find_mem {c : CList nQueues nThreads} {L : Queues Nat} (h : c.Represents L)
    {predicate : Nat → Bool} {fuel : Nat} {it : Iter usizeBits} (linked : ∃ q, it.prev ∈ L q)
    (done : it.find c predicate fuel = .ok (some n)) : ∃ q, n ∈ L q := by
  induction fuel generalizing it with
  | zero => cases done
  | succ fuel ih =>
    obtain ⟨⟨it', found⟩, stepped, rest⟩ := bind_ok_iff.mp done
    cases found with
    | none => cases rest
    | some m =>
      obtain ⟨prev, member⟩ := next_mem small h linked stepped
      dsimp only at rest
      split at rest
      · cases rest
        exact member
      · exact ih (prev ▸ member) rest

theorem Holds.getNextFilter {predicate : Nat → Bool} (holds : r.Holds P)
    (done : r.getNextFilter predicate = .ok (some n)) : P n := by
  obtain ⟨L, h, all⟩ := holds
  obtain ⟨found, read, rest⟩ := bind_ok_iff.mp done
  cases found with
  | none => cases rest
  | some first =>
    obtain ⟨next, prio⟩ := first
    have member := getNextWithRq_mem small h read
    dsimp only at rest
    split at rest
    · cases rest
      exact all member
    · obtain ⟨it, started, rest⟩ := bind_ok_iff.mp rest
      have prev : it.prev = next := by
        unfold iterFrom at started
        split at started
        · cases started
        · obtain ⟨head, -, rest⟩ := bind_ok_iff.mp started
          cases rest
          rfl
      obtain ⟨q, here⟩ := find_mem small h ⟨prio, by rwa [prev]⟩ rest
      exact all here

end

end RunQueue

namespace Scheduler

variable {cpu : Cpu} {s s' : Scheduler} {t prio : Nat} {state old : ThreadState}
  {refs : Nat → Prop}

/-- Queued threads hold their own id. -/
def QueueNamed (s : Scheduler) : Prop := s.runqueue.Holds fun t => s.tidOf t = t

theorem queueNamed_new (config : Config) : (new config).QueueNamed := RunQueue.new_holds _

theorem QueueNamed.congr (named : s.QueueNamed) (runqueue : s'.runqueue = s.runqueue)
    (tids : ∀ t, s.tidOf t = t → s'.tidOf t = t) : s'.QueueNamed := by
  rw [QueueNamed, runqueue]
  exact named.mono tids

theorem QueueNamed.keep (named : s.QueueNamed) (runqueue : s'.runqueue = s.runqueue)
    (tids : s'.tidOf = s.tidOf) : s'.QueueNamed := by
  rwa [QueueNamed, runqueue, tids]

theorem queueNamed_of {r : RunQueue usizeBits schedPrioLevels threadCount}
    (holds : r.Holds fun t => s.tidOf t = t) (runqueue : s'.runqueue = r)
    (tids : s'.tidOf = s.tidOf) : s'.QueueNamed := by
  rwa [QueueNamed, runqueue, tids]

theorem queueNamed_requeue {r r' : RunQueue usizeBits schedPrioLevels threadCount} {P : Nat → Prop}
    {oldPrio : Nat} (holds : r.Holds P) (known : P t) (done : requeue r t oldPrio prio = .ok r') :
    r'.Holds P := by
  obtain ⟨head, -, rest⟩ := bind_ok_iff.mp done
  dsimp only at rest
  split at rest
  · obtain ⟨r₁, popped, added⟩ := bind_ok_iff.mp rest
    exact (holds.popHead ReadyQueue.small popped).add ReadyQueue.small known added
  · obtain ⟨r₁, deleted, added⟩ := bind_ok_iff.mp rest
    exact (holds.del ReadyQueue.small deleted).add ReadyQueue.small known added

theorem queueNamed_setPriority (named : s.Named refs) (queue : s.QueueNamed)
    (done : s.setPriority cpu t prio = .ok s') : s'.QueueNamed := by
  rcases setPriority_ok done with ⟨rfl, -⟩ | ⟨-, known, -, ⟨-, rfl⟩ | ⟨-, _, _, _, -, -, rfl⟩ |
    ⟨-, r, moved, outcome⟩⟩
  · exact queue
  · exact queue.keep rfl (withPrio_tidOf ..)
  · exact queue.keep rfl (withPrio_tidOf ..)
  · have holds := queueNamed_requeue queue (named.created t known) moved
    rcases outcome with ⟨-, -, rfl⟩ | ⟨-, -, raised⟩ | ⟨-, -, rfl⟩
    · exact queueNamed_of holds rfl (withPrio_tidOf ..)
    · obtain ⟨q, rfl⟩ := scheduleIfHigherPrio_ok raised
      exact queueNamed_of holds rfl (withPrio_tidOf ..)
    · exact queueNamed_of holds rfl (withPrio_tidOf ..)

theorem queueNamed_yieldSame (queue : s.QueueNamed) (done : s.yieldSame cpu = .ok s') :
    s'.QueueNamed := by
  unfold yieldSame at done
  split at done
  · cases done
    exact queue
  · split at done
    · obtain ⟨⟨r, advanced⟩, moved, rest⟩ := bind_ok_iff.mp done
      have holds := queue.advance ReadyQueue.small moved
      cases rest
      cases advanced with
      | true => exact queueNamed_of holds rfl rfl
      | false => exact queueNamed_of holds rfl rfl
    · obtain ⟨empty, -, rest⟩ := bind_ok_iff.mp done
      split at rest
      · cases rest
        exact queue
      · split at rest
        · obtain ⟨q, rfl⟩ := scheduleIfHigherPrio_ok rest
          exact queue.keep rfl rfl
        · cases rest
          exact queue.keep rfl rfl

theorem queueNamed_sched (named : s.Named refs) (queue : s.QueueNamed)
    (done : s.sched cpu = .ok s') : s'.QueueNamed ∧ s'.Named refs := by
  obtain ⟨-, s₁, passed, once, rfl⟩ := sched_ok done
  have after : s₁.QueueNamed ∧ s₁.Named refs := by
    cases config : cpu.config with
    | singleCore =>
      rcases schedOnce_single config once with ⟨-, rfl, -⟩ | ⟨n, found, -, rfl⟩
      · exact ⟨queue, named⟩
      · exact ⟨queue.keep rfl rfl,
          named.setCurrentThread (queue.getNext (P := fun t => s.tidOf t = t) ReadyQueue.small found)⟩
    | multiCore chip affinity =>
      obtain ⟨-, s₂, s₃, n, added, taken, rfl⟩ := schedOnce_multi config once
      have put : s₂.QueueNamed ∧ s₂.Named refs := by
        rcases addCurrentThreadToRq_ok added with ⟨rfl, -⟩ | ⟨c, r, own, -, pushed, rfl⟩
        · exact ⟨queue, named⟩
        · have self := named.current _ c own
          rw [self] at pushed
          exact ⟨queueNamed_of (queue.add ReadyQueue.small self pushed) rfl rfl,
            named.congr rfl rfl rfl⟩
      have next : s₃.QueueNamed ∧ s₃.Named refs ∧ s₃.tidOf n = n := by
        unfold getNextTid at taken
        cases affinity with
        | false =>
          simp only [config] at taken
          obtain ⟨⟨r, x⟩, popped, rest⟩ := bind_ok_iff.mp taken
          cases rest
          obtain ⟨holds, known⟩ := put.1.popNext ReadyQueue.small popped
          exact ⟨queueNamed_of holds rfl rfl, put.2.congr rfl rfl rfl, known n rfl⟩
        | true =>
          simp only [config] at taken
          obtain ⟨found, filtered, rest⟩ := bind_ok_iff.mp taken
          cases found with
          | none => cases rest
          | some m =>
            obtain ⟨r, deleted, rest⟩ := bind_ok_iff.mp rest
            cases rest
            exact ⟨queueNamed_of (put.1.del ReadyQueue.small deleted) rfl rfl,
              put.2.congr rfl rfl rfl,
              put.1.getNextFilter (P := fun t => s₂.tidOf t = t) ReadyQueue.small filtered⟩
      exact ⟨next.1.keep rfl rfl, next.2.1.setCurrentThread next.2.2⟩
  cases passed with
  | true => exact ⟨after.1.keep rfl rfl, after.2.congr rfl rfl rfl⟩
  | false => exact after

/-- On every configuration, all operations keep the ids of queued threads. -/
theorem queueNamed_keeps (cpu : Cpu) (refs : Nat → Prop) :
    Keeps cpu refs (fun _ _ => True) (fun _ _ _ => True) (fun _ => True) True QueueNamed where
  quiet := fun h queue => queue.keep h.runqueue h.tidOf
  quietReady := fun _ _ => trivial
  ready := fun _ self _ queue done => by
    obtain ⟨-, -, r, q, added, -, rfl⟩ := setState_running_ok done
    exact queueNamed_of (queue.add ReadyQueue.small self added) rfl (withState_tidOf ..)
  stop := fun {s s' t state old} _ _ _ stops queue done => by
    by_cases ready : s.stateOf t = .running
    · obtain ⟨-, -, r, popped, same, rfl⟩ := setState_block_ok stops ready done
      by_cases single : cpu.config = .singleCore
      · exact queueNamed_of (queue.popHead ReadyQueue.small (popped single)) rfl
          (withState_tidOf ..)
      · exact queue.keep (same single) (withState_tidOf ..)
    · obtain ⟨-, rfl⟩ := setState_idle_ok stops ready done
      exact queue.keep rfl (withState_tidOf ..)
  create := fun {s s' stackStart stackLen prio affinity t} _ _ queue made => by
    obtain ⟨-, -, thread, rfl, -, -, tid, -⟩ := create_ok made
    refine queue.congr rfl fun u known => ?_
    rw [setThread_tidOf]
    by_cases same : u = t
    · rw [same, Function.update_self, tid]
    · rw [Function.update_of_ne same, known]
  setPriority := fun named _ queue done => queueNamed_setPriority named queue done
  yieldSame := fun _ queue done => queueNamed_yieldSame queue done
  startThreading := fun _ _ queue done => by
    obtain ⟨-, rfl⟩ := startThreading_ok done
    exact queue.keep rfl rfl
  handleFifoToken := fun _ queue done => by
    obtain ⟨-, rfl⟩ := handleFifoToken_ok done
    exact queue.keep rfl rfl
  enterPendsv := fun _ queue done => by
    obtain ⟨-, -, rfl⟩ := enterPendsv_ok done
    exact queue.keep rfl rfl
  sched := fun named queue done => queueNamed_sched named queue done

end Scheduler

end ArielOS
