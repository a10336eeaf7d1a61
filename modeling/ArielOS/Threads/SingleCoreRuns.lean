import ArielOS.Threads.Assertion

namespace ArielOS.SingleCore

open Machine Queues Scheduler

variable {sys sys' : System} {e : Nat × Event} {t : Nat}

theorem reachable_invariant (reached : Reachable (System.step .singleCore) (.new .singleCore) sys) :
    sys.scheduler.Named sys.heads ∧ Invariant sys.scheduler := by
  have permitted : Reaches (System.step .singleCore) (System.Permitted .singleCore
      (fun _ _ _ => True) fun _ _ _ _ => True) (.new .singleCore) sys := by
    refine reached.mono fun e sys _ => ?_
    exact e.2.permitted_true sys
  refine Keeps.reaches ?_ invariant_link (fun _ => trivial) invariant_new permitted
  intro core refs bound
  obtain rfl : core = 0 := Nat.lt_one_iff.mp bound
  exact keeps refs

/-- The step of a blocking event finds the current thread in front, so the assertion holds. -/
theorem step_holds (named : sys.scheduler.Named sys.heads) (inv : Invariant sys.scheduler)
    (e : Nat × Event) : Holds (System.step .singleCore e sys) := by
  simp only [System.step, Config.coreCount, Nat.lt_one_iff]
  split
  · rename_i enabled
    obtain ⟨core, may⟩ := enabled
    rw [core] at may ⊢
    apply event_holds named inv
    intro blocks
    have executes := may blocks
    unfold System.mayBlock at executes
    split at executes
    · rename_i t running
      exact fronted_of_executing inv running
    · cases executes
  · simp [Holds]

theorem count_queued {L : Queues Nat} {s : Scheduler} (coherent : Coherent s L) (t q : Nat) :
    (L q).count t = if s.stateOf t = .running ∧ s.prioOf t = q then 1 else 0 := by
  split
  · rename_i ready
    exact List.count_eq_one_of_mem (coherent.represents.queues.separate.nodup q)
      (coherent.queued.mpr ready)
  · rename_i other
    exact List.count_eq_zero_of_not_mem fun member => other (coherent.queued.mp member)

/-- What holds in a state between the critical sections of a single core. -/
structure InOrder (sys : System) : Prop where
  queued : ∃ L, sys.scheduler.runqueue.Represents L ∧ ∀ t q, (L q).count t =
    if sys.scheduler.stateOf t = .running ∧ sys.scheduler.prioOf t = q then 1 else 0
  /-- A core has a current thread once its first `sched` has completed. -/
  settled : ∀ c, sys.scheduler.currentThreads 0 = some c → sys.scheduler.requests.pendsv 0 = false →
    sys.scheduler.requests.active 0 = false → sys.scheduler.stateOf c = .running ∧
      sys.scheduler.runqueue.getNext = .ok (some c) ∧
        ∃ L, sys.scheduler.runqueue.Represents L ∧ IsTop L c
  asserted : ∀ e, System.step .singleCore e sys ≠ .error .poppedOtherThread

theorem inOrder_of_reachable
    (reached : Reachable (System.step .singleCore) (.new .singleCore) sys) : InOrder sys := by
  obtain ⟨named, inv⟩ := reachable_invariant reached
  have ⟨L, coherent, settled⟩ := inv
  refine ⟨⟨L, coherent.represents, count_queued coherent⟩, ?_, step_holds named inv⟩
  intro c own pendsv active
  have top := settled c own pendsv active
  obtain ⟨q, member⟩ := top.mem
  exact ⟨(coherent.queued.mp member).1, (ReadyQueue.getNext_eq_some coherent.represents).mpr top,
    L, coherent.represents, top⟩

/-- The thread of higher priority parks, and the other one wakes it. -/
def startedEvents : List (Nat × Event) :=
  [(0, .op (.create 0 512 1 none)), (0, .op (.create 512 512 3 none)), (0, .op .startThreading),
    (0, .op .enterPendsv), (0, .op .sched), (0, .op .park), (0, .op .enterPendsv),
    (0, .op .sched), (0, .op (.unpark 1)), (0, .op .enterPendsv), (0, .op .sched)]

def resumed (sys : System) : Bool :=
  sys.scheduler.currentThreads 0 == some 1 && !sys.scheduler.requests.pendsv 0 &&
    !sys.scheduler.requests.active 0

theorem inOrder_of_reachable_sample : ∃ sys, InOrder sys ∧
    sys.scheduler.currentThreads 0 = some 1 ∧ sys.scheduler.runqueue.getNext = .ok (some 1) := by
  have run : ∃ sys, Reachable (System.step .singleCore) (.new .singleCore) sys ∧
      resumed sys = true := reaches_of_check startedEvents (by decide +kernel)
  obtain ⟨sys, reached, checked⟩ := run
  simp only [resumed, Bool.and_eq_true, beq_iff_eq, Bool.not_eq_true'] at checked
  obtain ⟨⟨own, pendsv⟩, active⟩ := checked
  have order := inOrder_of_reachable reached
  exact ⟨sys, order, own, (order.settled 1 own pendsv active).2.1⟩

end ArielOS.SingleCore
