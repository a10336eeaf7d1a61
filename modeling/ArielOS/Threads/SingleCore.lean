import ArielOS.Threads.SystemSpec

namespace ArielOS.SingleCore

open Machine Queues Scheduler

variable {s s' : Scheduler} {L : Queues Nat} {t prio : Nat} {state old : ThreadState}
  {refs : Nat → Prop}

def cpu : Cpu := ⟨.singleCore, 0⟩

/-- The runqueue holds exactly the ready threads, each under its priority. -/
structure Coherent (s : Scheduler) (L : Queues Nat) : Prop where
  represents : s.runqueue.Represents L
  queued : ∀ {t q}, t ∈ L q ↔ s.stateOf t = .running ∧ s.prioOf t = q

/-- Without an outstanding scheduler invocation, the current thread is the one to run. -/
def Settled (s : Scheduler) (L : Queues Nat) : Prop :=
  ∀ t, s.currentThreads 0 = some t → s.requests.pendsv 0 = false → s.requests.active 0 = false →
    IsTop L t

def Invariant (s : Scheduler) : Prop := ∃ L, Coherent s L ∧ Settled s L

theorem invariant_new : Invariant (.new .singleCore) := by
  refine ⟨fun _ => [], ⟨RunQueue.new_represents, ?_⟩, fun t none => by cases none⟩
  intro t q
  simp [stateOf, Scheduler.new, Thread.default]

namespace Coherent

theorem elsewhere (coherent : Coherent s L) (p : Nat) (member : t ∈ L p) : p = s.prioOf t :=
  (coherent.queued.mp member).2.symm

theorem quiet (coherent : Coherent s L) (h : Quiet s s') : Coherent s' L where
  represents := h.runqueue ▸ coherent.represents
  queued := by
    intro t q
    rw [h.stateOf, h.prioOf]
    exact coherent.queued

theorem started (coherent : Coherent s L) {r : RunQueue usizeBits schedPrioLevels threadCount}
    (q : Requests) (holds : r.Represents (enqueue L t (s.prioOf t))) :
    Coherent (s.withState t .running r q) (enqueue L t (s.prioOf t)) where
  represents := holds
  queued := by
    intro u p
    rw [mem_enqueue, coherent.queued, withState_stateOf, withState_prioOf]
    by_cases same : u = t
    · subst same
      rw [Function.update_self]
      apply Iff.intro
      · intro here
        rcases here with here | here
        · exact ⟨rfl, here.2⟩
        · exact ⟨rfl, here.2.symm⟩
      · exact fun here => Or.inr ⟨rfl, here.2.symm⟩
    · rw [Function.update_of_ne same]
      simp [same]

theorem idled (coherent : Coherent s L) (stops : state ≠ .running)
    (stopped : s.stateOf t ≠ .running) (q : Requests) :
    Coherent (s.withState t state s.runqueue q) L where
  represents := coherent.represents
  queued := by
    intro u p
    rw [withState_stateOf, withState_prioOf, coherent.queued]
    by_cases same : u = t
    · subst same
      simp [stops, stopped]
    · rw [Function.update_of_ne same]

theorem blocked (coherent : Coherent s L) (stops : state ≠ .running)
    {r : RunQueue usizeBits schedPrioLevels threadCount} (q : Requests)
    (holds : r.Represents (remove L t)) : Coherent (s.withState t state r q) (remove L t) where
  represents := holds
  queued := by
    intro u p
    rw [mem_remove coherent.represents.queues.separate, withState_stateOf, withState_prioOf,
      coherent.queued]
    by_cases same : u = t
    · subst same
      simp [stops]
    · simp [same]

theorem reprioritised (coherent : Coherent s L) (ready : s.stateOf t = .running)
    {r : RunQueue usizeBits schedPrioLevels threadCount} (q : Requests)
    (holds : r.Represents (enqueue (remove L t) t prio)) :
    Coherent (s.withPrio t prio r q) (enqueue (remove L t) t prio) where
  represents := holds
  queued := by
    intro u p
    rw [mem_enqueue, mem_remove coherent.represents.queues.separate, withPrio_stateOf,
      withPrio_prioOf, coherent.queued]
    by_cases same : u = t
    · subst same
      rw [Function.update_self]
      simp [ready, eq_comm]
    · simp [same]

/-- The priority of a thread that is not ready is free. -/
theorem unready (coherent : Coherent s L) (stopped : s.stateOf t ≠ .running)
    (runqueue : s'.runqueue = s.runqueue) (stays : s'.stateOf t ≠ .running)
    (others : ∀ u, u ≠ t → s'.stateOf u = s.stateOf u ∧ s'.prioOf u = s.prioOf u) :
    Coherent s' L where
  represents := runqueue ▸ coherent.represents
  queued := by
    intro u p
    rw [coherent.queued]
    by_cases same : u = t
    · subst same
      simp [stopped, stays]
    · rw [(others u same).1, (others u same).2]

end Coherent

theorem scheduleIfHigherPrio_single {c : Nat} (own : s.currentThreads 0 = some c)
    (done : s.scheduleIfHigherPrio cpu t prio = .ok s') :
    s' = if s.prioOf c < prio then s.schedule cpu else s := by
  have current : s.current cpu = some (s.threads c) := by
    simp [Scheduler.current, currentTid, cpu, own]
  simp only [scheduleIfHigherPrio, cpu] at done current
  simp only [current] at done
  cases done
  rfl

theorem pend_pendsv (s : Scheduler) : (s.requests.pend 0).pendsv 0 = true := by
  simp [Requests.pend]

/-- A thread that becomes ready does not overtake the current one without a request. -/
theorem settled_raise {c : Nat} {L' : Queues Nat} (coherent : Coherent s L) (settled : Settled s L)
    (own : s.currentThreads 0 = some c) (below : ¬ s.prioOf c < prio)
    (pendsv : s.requests.pendsv 0 = false) (active : s.requests.active 0 = false)
    (head : ∀ q, (L q).head? = some c → (L' q).head? = some c)
    (above : ∀ q, (L q).head? = some c → ∀ r, q < r → L r = [] → L' r = []) :
    IsTop (enqueue L' t prio) c := by
  obtain ⟨q, first, empty⟩ := settled c own pendsv active
  have level := coherent.elsewhere q (List.mem_of_head? first)
  exact IsTop.enqueue (head q first) (fun r higher => above q first r higher (empty r higher))
    (by omega)

theorem invariant_ready (inv : Invariant s) (done : s.setState cpu t .running = .ok (s', old)) :
    Invariant s' := by
  obtain ⟨L, coherent, settled⟩ := inv
  obtain ⟨-, -, r, q, added, raised, rfl⟩ := setState_running_ok done
  obtain ⟨-, -, holds⟩ := ReadyQueue.add_ok coherent.represents coherent.elsewhere added
  refine ⟨_, coherent.started q holds, ?_⟩
  intro c own pendsv active
  have own : (s.withState t .running r s.requests).currentThreads 0 = some c := own
  have outcome := scheduleIfHigherPrio_single own raised
  rw [withState_prioOf] at outcome
  by_cases higher : s.prioOf c < s.prioOf t
  · rw [if_pos higher] at outcome
    have requests : q = s.requests.pend 0 := congrArg Scheduler.requests outcome
    rw [withState_requests, requests, pend_pendsv] at pendsv
    cases pendsv
  · rw [if_neg higher] at outcome
    have requests : q = s.requests := congrArg Scheduler.requests outcome
    rw [withState_requests, requests] at pendsv active
    exact settled_raise coherent settled own higher pendsv active (fun _ first => first)
      (fun _ _ _ _ empty => empty)

theorem invariant_stop (inv : Invariant s) (stops : state ≠ .running)
    (done : s.setState cpu t state = .ok (s', old)) : Invariant s' := by
  obtain ⟨L, coherent, settled⟩ := inv
  by_cases ready : s.stateOf t = .running
  · obtain ⟨-, -, r, popped, -, rfl⟩ := setState_block_ok stops ready done
    obtain ⟨-, holds⟩ := ReadyQueue.popHead_ok coherent.represents (popped rfl)
    refine ⟨_, coherent.blocked stops _ holds, ?_⟩
    intro c _ pendsv
    exact absurd ((pend_pendsv s).symm.trans pendsv) (by simp)
  · obtain ⟨-, rfl⟩ := setState_idle_ok stops ready done
    exact ⟨L, coherent.idled stops ready _, settled⟩

theorem invariant_create {stackStart stackLen : Nat} {affinity : Option CoreAffinity}
    (inv : Invariant s) (made : s.create cpu stackStart stackLen prio affinity = some (s', t)) :
    Invariant s' := by
  obtain ⟨L, coherent, settled⟩ := inv
  obtain ⟨-, free, thread, rfl, state, -, -, -⟩ := create_ok made
  have stopped : s.stateOf t ≠ .running := by simp [free]
  refine ⟨L, coherent.unready stopped rfl ?_ ?_, settled⟩
  · rw [setThread_stateOf, Function.update_self, state]
    simp
  · intro u other
    rw [setThread_stateOf, setThread_prioOf, Function.update_of_ne other,
      Function.update_of_ne other]
    exact ⟨rfl, rfl⟩

/-- Moving a thread that is not the current one keeps the current thread in front. -/
theorem settled_move {c : Nat} (coherent : Coherent s L) (settled : Settled s L)
    (own : s.currentThreads 0 = some c) (other : c ≠ t) (below : ¬ s.prioOf c < prio)
    (pendsv : s.requests.pendsv 0 = false) (active : s.requests.active 0 = false) :
    IsTop (enqueue (remove L t) t prio) c := by
  apply settled_raise coherent settled own below pendsv active
  · exact fun q first => head_remove first other
  · intro q _ r _ empty
    rw [remove, empty, List.erase_nil]

theorem not_current {c : Nat} (elsewhere : s.isRunning cpu t = none)
    (own : s.currentThreads 0 = some c) : c ≠ t := by
  intro same
  subst same
  simp only [isRunning, cpu, currentTid, own, ↓reduceIte] at elsewhere
  cases elsewhere

theorem invariant_setPriority (inv : Invariant s) (done : s.setPriority cpu t prio = .ok s') :
    Invariant s' := by
  obtain ⟨L, coherent, settled⟩ := inv
  rcases setPriority_ok done with ⟨rfl, -⟩ | ⟨-, -, changed, ⟨stopped, rfl⟩ |
    ⟨-, _, _, _, multi, -⟩ | ⟨ready, r, moved, outcome⟩⟩
  · exact ⟨L, coherent, settled⟩
  · refine ⟨L, coherent.unready stopped rfl ?_ ?_, settled⟩
    · rwa [withPrio_stateOf]
    · intro u other
      rw [withPrio_stateOf, withPrio_prioOf, Function.update_of_ne other]
      exact ⟨rfl, rfl⟩
  · cases multi
  have holds := ReadyQueue.requeue_ok coherent.represents moved
  have next := fun q => coherent.reprioritised ready q holds
  rcases outcome with ⟨-, own, rfl⟩ | ⟨elsewhere, raised, scheduled⟩ | ⟨elsewhere, lowered, rfl⟩
  · refine ⟨_, next _, ?_⟩
    intro c current pendsv active
    obtain rfl : t = c := Option.some.inj (own.symm.trans current)
    by_cases lowered : prio < s.prioOf t
    · rw [withPrio_requests, if_pos lowered] at pendsv
      exact absurd ((pend_pendsv s).symm.trans pendsv) (by simp)
    · -- The current thread moves alone to a higher queue, so it stays in front.
      rw [withPrio_requests, if_neg lowered] at pendsv active
      obtain ⟨q, first, above⟩ := settled t current pendsv active
      have level := coherent.elsewhere q (List.mem_of_head? first)
      have left : ∀ p, q < p → remove L t p = [] := fun p higher => by
        rw [remove, above p higher, List.erase_nil]
      have fresh : t ∉ remove L t prio := by simp [left prio (by omega)]
      refine ⟨prio, ?_, ?_⟩
      · rw [enqueue, if_neg fresh, Function.update_self, left prio (by omega)]
        rfl
      · intro p higher
        rw [enqueue, if_neg fresh, Function.update_of_ne (by omega)]
        exact left p (by omega)
  · obtain ⟨q, rfl⟩ := scheduleIfHigherPrio_ok scheduled
    refine ⟨_, next q, ?_⟩
    intro c own pendsv active
    have other := not_current elsewhere own
    have own : (s.withPrio t prio r s.requests).currentThreads 0 = some c := own
    have chosen := scheduleIfHigherPrio_single own scheduled
    rw [withPrio_prioOf, Function.update_of_ne other] at chosen
    by_cases higher : s.prioOf c < prio
    · rw [if_pos higher] at chosen
      have requests : q = s.requests.pend 0 := congrArg Scheduler.requests chosen
      dsimp only at pendsv
      rw [requests, pend_pendsv] at pendsv
      cases pendsv
    · rw [if_neg higher] at chosen
      have requests : q = s.requests := congrArg Scheduler.requests chosen
      dsimp only at pendsv active
      rw [requests] at pendsv active
      exact settled_move coherent settled own other higher pendsv active
  · refine ⟨_, next _, ?_⟩
    intro c own pendsv active
    have other := not_current elsewhere own
    obtain ⟨q, first, above⟩ := settled c own pendsv active
    have level := coherent.elsewhere q (List.mem_of_head? first)
    have bound : s.prioOf t ≤ q := by
      by_contra higher
      have queued : t ∈ L (s.prioOf t) := coherent.queued.mpr ⟨ready, rfl⟩
      simp [above _ (Nat.not_le.mp higher)] at queued
    exact settled_move coherent settled own other (by omega) pendsv active

theorem invariant_yieldSame (inv : Invariant s) (done : s.yieldSame cpu = .ok s') :
    Invariant s' := by
  obtain ⟨L, coherent, settled⟩ := inv
  unfold yieldSame at done
  cases own : s.current cpu with
  | none =>
    simp only [own] at done
    cases done
    exact ⟨L, coherent, settled⟩
  | some thread =>
    simp only [own] at done
    simp only [cpu] at done
    obtain ⟨⟨r, advanced⟩, moved, rest⟩ := bind_ok_iff.mp done
    obtain ⟨several, holds⟩ := ReadyQueue.advance_ok coherent.represents moved
    cases rest
    by_cases long : 2 ≤ (L thread.prio).length
    · simp only [several, long, decide_true, ↓reduceIte]
      refine ⟨rotate L thread.prio, ⟨holds, ?_⟩, ?_⟩
      · intro t q
        rw [mem_rotate]
        exact coherent.queued
      · intro c _ pendsv
        exact absurd ((pend_pendsv s).symm.trans pendsv) (by simp)
    · simp only [several, long, decide_false, Bool.false_eq_true, ↓reduceIte]
      rw [rotate_of_short long] at holds
      exact ⟨L, ⟨holds, coherent.queued⟩, settled⟩

theorem invariant_pend (inv : Invariant s) {r : Requests} :
    Invariant { s with requests := r.pend 0 } := by
  obtain ⟨L, coherent, -⟩ := inv
  refine ⟨L, ⟨coherent.represents, coherent.queued⟩, ?_⟩
  intro c _ pendsv
  simp [Requests.pend] at pendsv

theorem invariant_enter (inv : Invariant s) (done : s.enterPendsv cpu = .ok s') : Invariant s' := by
  obtain ⟨L, coherent, -⟩ := inv
  obtain ⟨-, -, rfl⟩ := enterPendsv_ok done
  refine ⟨L, ⟨coherent.represents, coherent.queued⟩, ?_⟩
  intro c _ _ active
  simp [Requests.enter, cpu] at active

theorem invariant_sched (named : s.Named refs) (inv : Invariant s) (done : s.sched cpu = .ok s') :
    Invariant s' ∧ s'.Named refs := by
  obtain ⟨L, coherent, settled⟩ := inv
  obtain ⟨active, s₁, passed, once, rfl⟩ := sched_ok done
  rcases schedOnce_single rfl once with ⟨-, rfl, rfl⟩ | ⟨n, top, rfl, rfl⟩
  · exact ⟨⟨L, coherent, settled⟩, named⟩
  · have first := (ReadyQueue.getNext_eq_some coherent.represents).mp top
    obtain ⟨q, member⟩ := first.mem
    have self : s.tidOf n = n := named.created n (by simp [(coherent.queued.mp member).1])
    refine ⟨⟨L, ⟨coherent.represents, coherent.queued⟩, ?_⟩, ?_⟩
    · intro c own _ _
      obtain rfl : n = c := by simpa [cpu] using own
      exact first
    · exact (named.setCurrentThread self).congr rfl rfl rfl

/-- The invariant is kept, whatever thread is woken or changed. -/
theorem keeps (refs : Nat → Prop) : Keeps cpu refs (fun _ _ => True) (fun _ _ _ => True)
    (fun _ => True) True Invariant where
  quiet := fun h inv => by
    obtain ⟨L, coherent, settled⟩ := inv
    refine ⟨L, coherent.quiet h, ?_⟩
    intro c own pendsv active
    rw [h.currentThreads] at own
    rw [h.requests] at pendsv active
    exact settled c own pendsv active
  quietReady := fun _ _ => trivial
  ready := fun _ _ _ inv done => invariant_ready inv done
  stop := fun _ _ _ stops inv done => invariant_stop inv stops done
  create := fun _ _ inv made => invariant_create inv made
  setPriority := fun _ _ inv done => invariant_setPriority inv done
  yieldSame := fun _ inv done => invariant_yieldSame inv done
  startThreading := fun _ _ inv done => by
    obtain ⟨-, rfl⟩ := startThreading_ok done
    exact invariant_pend inv
  handleFifoToken := fun _ inv done => by
    obtain ⟨-, rfl⟩ := handleFifoToken_ok done
    exact invariant_pend inv
  enterPendsv := fun _ inv done => invariant_enter inv done
  sched := fun named inv done => invariant_sched named inv done

theorem invariant_link {i : Nat} {next : Option Nat} (inv : Invariant s) :
    Invariant (ThreadList.link s i next) := by
  obtain ⟨L, coherent, settled⟩ := inv
  exact ⟨L, ⟨coherent.represents, coherent.queued⟩, settled⟩

/-- Taking a thread off a list fails only for a thread id or a priority that is out of range. -/
theorem pop_error {list : ThreadList} {e : Fault} (inv : Invariant s)
    (failed : list.pop cpu s = .error e) : e = .indexOutOfBounds := by
  obtain ⟨L, coherent, -⟩ := inv
  unfold ThreadList.pop at failed
  split at failed
  · cases failed
  · rename_i h first
    rcases bind_error_iff.mp failed with stuck | ⟨out, -, rest⟩
    · unfold setState at stuck
      rcases bind_error_iff.mp stuck with outside | ⟨thread, read, stuck⟩
      · unfold getUnchecked at outside
        split at outside
        · cases outside
        · cases outside
          rfl
      · obtain ⟨-, rfl⟩ := getUnchecked_ok.mp read
        rcases bind_error_iff.mp stuck with full | ⟨r, -, stuck⟩
        · exact ReadyQueue.add_error coherent.represents coherent.elsewhere full
        · rcases bind_error_iff.mp stuck with raised | ⟨s₁, -, rest⟩
          · simp only [scheduleIfHigherPrio, cpu] at raised
            split at raised
            · cases raised
            · cases raised
          · cases rest
    · cases rest

/-- The thread that is executed is ready. -/
theorem executing_running (inv : Invariant s) (executes : s.executing cpu = some t) :
    s.currentTid cpu = some t ∧ s.stateOf t = .running := by
  obtain ⟨L, coherent, settled⟩ := inv
  unfold executing at executes
  split at executes
  · cases executes
  · rename_i idle
    simp only [not_or, Bool.not_eq_true] at idle
    have own : s.currentThreads 0 = some t := executes
    obtain ⟨q, first, -⟩ := settled t own idle.1 idle.2
    exact ⟨own, (coherent.queued.mp (List.mem_of_head? first)).1⟩

end ArielOS.SingleCore
