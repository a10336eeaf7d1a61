import ArielOS.Threads.Waiters

namespace ArielOS

open Machine Scheduler

variable {cpu : Cpu} {s s' : Scheduler} {t : Nat} {o : Op}

/-- The thread is among the expired ones, and its deadline has passed when its waker is called. -/
def Expires (s : Scheduler) (t : Nat) (expired : List (Nat × Nat)) : Prop :=
  ∃ now, (t, now) ∈ expired ∧ s.timerDue t now = true

/-- Why an operation makes a thread ready that is not. -/
def Op.Wakes (cpu : Cpu) (s : Scheduler) (t : Nat) : Op → Prop
  | .create .. => s.stateOf t = .invalid
  | .unpark u => t = u ∧ s.stateOf t = .parked
  | .flagSet u mask => t = u ∧ wokenBy (s.stateOf t) ((s.threads t).flags ||| mask) = true
  | .sleepUntil _ expired => Expires s t expired ∨ s.currentTid cpu = some t
  | .wake u now => t = u ∧ s.timerDue t now = true
  | _ => False

/-- The states in which an operation stops the current thread. -/
def Op.Stops (state : ThreadState) : Op → Prop
  | .exit => state = .invalid
  | .park | .sleepUntil .. => state = .parked
  | .flagWaitAll _ | .flagWaitAny _ | .flagWaitOne _ => ∃ mode, state = .flagBlocked mode
  | _ => False

theorem wake_effect {u now : Nat} (done : s.wake cpu u now = .ok s') :
    s'.stateOf t = s.stateOf t ∨
      (s'.stateOf t = .running ∧ t = u ∧ s.timerDue t now = true) := by
  rcases wake_ok done with ⟨-, rfl⟩ | ⟨due, s₁, quiet, -, ⟨-, rfl⟩ | ⟨-, old, set⟩⟩
  · exact Or.inl rfl
  · exact Or.inl (congrFun quiet.stateOf t)
  · rw [setState_stateOf set, quiet.stateOf]
    by_cases same : t = u
    · subst same
      exact Or.inr ⟨Function.update_self .., rfl, due⟩
    · exact Or.inl (Function.update_of_ne same _ _)

theorem timerDue_iff {now : Nat} : s.timerDue t now = true ↔ ∃ d, s.deadlineOf t = some d ∧ d ≤ now := by
  have read : s.deadlineOf t = (s.threads t).deadline := rfl
  unfold timerDue
  rw [read]
  cases (s.threads t).deadline <;> simp

theorem Expires.congr {expired : List (Nat × Nat)} (same : s'.deadlineOf t = s.deadlineOf t)
    (expires : Expires s' t expired) : Expires s t expired := by
  obtain ⟨now, member, due⟩ := expires
  obtain ⟨d, set, passed⟩ := timerDue_iff.mp due
  rw [same] at set
  exact ⟨now, member, timerDue_iff.mpr ⟨d, set, passed⟩⟩

theorem wake_deadlineOf {u now : Nat} (done : s.wake cpu u now = .ok s') :
    s'.deadlineOf = if s.timerDue u now then Function.update s.deadlineOf u none else s.deadlineOf := by
  rcases wake_ok done with ⟨early, rfl⟩ | ⟨due, s₁, -, cleared, ⟨-, rfl⟩ | ⟨-, old, set⟩⟩
  · simp [early]
  · simp [due, cleared]
  · simp [due, setState_deadlineOf set, cleared]

/-- A timer that is due after another one went off was due before. -/
theorem timerDue_of_wake {u now now' : Nat} (done : s.wake cpu u now = .ok s')
    (due : s'.timerDue t now' = true) : s.timerDue t now' = true := by
  obtain ⟨d, set, passed⟩ := timerDue_iff.mp due
  rw [wake_deadlineOf done] at set
  split at set
  · by_cases same : t = u
    · rw [same, Function.update_self] at set
      cases set
    · rw [Function.update_of_ne same] at set
      exact timerDue_iff.mpr ⟨d, set, passed⟩
  · exact timerDue_iff.mpr ⟨d, set, passed⟩

theorem wakeAll_effect {expired : List (Nat × Nat)}
    (done : Scheduler.wakeAll cpu expired s = .ok s') :
    s'.stateOf t = s.stateOf t ∨ (s'.stateOf t = .running ∧ Expires s t expired) := by
  induction expired generalizing s with
  | nil => cases done; exact Or.inl rfl
  | cons first expired ih =>
    obtain ⟨s₁, woken, rest⟩ := bind_ok_iff.mp done
    have here : s₁.stateOf t = s.stateOf t ∨
        (s₁.stateOf t = .running ∧ Expires s t (first :: expired)) := by
      rcases wake_effect (t := t) woken with same | ⟨ready, rfl, due⟩
      · exact Or.inl same
      · exact Or.inr ⟨ready, first.2, by simp, due⟩
    rcases ih rest with same | ⟨ready, now, member, due⟩
    · rwa [same]
    · exact Or.inr ⟨ready, now, List.mem_cons_of_mem _ member, timerDue_of_wake woken due⟩

theorem setState_effect {u : Nat} {state old : ThreadState}
    (done : s.setState cpu u state = .ok (s', old)) :
    s'.stateOf t = s.stateOf t ∨ (s'.stateOf t = state ∧ t = u) := by
  rw [setState_stateOf done]
  by_cases same : t = u
  · exact Or.inr ⟨by rw [same, Function.update_self], same⟩
  · exact Or.inl (Function.update_of_ne same _ _)

/-- A thread keeps its state, is made ready for a reason, or is the one that stops. -/
theorem Op.run_stateOf (named : s.Named fun _ => False) (done : o.run cpu s = .ok s') :
    s'.stateOf t = s.stateOf t ∨ (s'.stateOf t = .running ∧ o.Wakes cpu s t) ∨
      (s.currentTid cpu = some t ∧ o.Stops (s'.stateOf t)) := by
  have flagWaited : FlagWaited cpu s s' → s'.stateOf t = s.stateOf t ∨
      (s.currentTid cpu = some t ∧ ∃ mode, s'.stateOf t = .flagBlocked mode) := by
    intro waited
    rcases waited with ⟨quiet, -⟩ | ⟨u, old, mode, own, set⟩
    · exact Or.inl (congrFun quiet.stateOf t)
    · rw [named.current _ u own] at set
      rcases setState_effect (t := t) set with same | ⟨stopped, rfl⟩
      · exact Or.inl same
      · exact Or.inr ⟨own, mode, stopped⟩
  cases o with
  | create stackStart stackLen prio affinity =>
    obtain ⟨⟨s₁, u⟩, made, rest⟩ := bind_ok_iff.mp done
    cases rest
    obtain ⟨s₂, old, slot, set⟩ := createRaw_ok made
    obtain ⟨-, free, thread, rfl, -⟩ := create_ok slot
    rw [setState_stateOf set, setThread_stateOf]
    by_cases same : t = u
    · subst same
      exact Or.inr (Or.inl ⟨Function.update_self .., free⟩)
    · rw [Function.update_of_ne same, Function.update_of_ne same]
      exact Or.inl rfl
  | exit =>
    obtain ⟨u, old, own, set⟩ := cleanup_ok done
    rcases setState_effect (t := t) set with same | ⟨stopped, rfl⟩
    · exact Or.inl same
    · exact Or.inr (Or.inr ⟨own, stopped⟩)
  | park =>
    rcases park_ok done with rfl | ⟨u, old, own, set⟩
    · exact Or.inl rfl
    · rcases setState_effect (t := t) set with same | ⟨stopped, rfl⟩
      · exact Or.inl same
      · exact Or.inr (Or.inr ⟨own, stopped⟩)
  | unpark u =>
    obtain ⟨⟨s₁, found⟩, unparked, rest⟩ := bind_ok_iff.mp done
    cases rest
    rcases unpark_ok unparked with rfl | ⟨parked, old, set⟩
    · exact Or.inl rfl
    · rcases setState_effect (t := t) set with same | ⟨ready, rfl⟩
      · exact Or.inl same
      · exact Or.inr (Or.inl ⟨ready, rfl, (getState_running parked).2.1⟩)
  | setPriority u prio => exact Or.inl (congrFun (setPriority_keeps done).1 t)
  | flagSet u mask =>
    obtain ⟨-, s₁, quiet, -, rfl | ⟨woken, old, set⟩⟩ := flagSet_ok done
    · exact Or.inl (congrFun quiet.stateOf t)
    · rcases setState_effect (t := t) set with same | ⟨ready, rfl⟩
      · exact Or.inl (same.trans (congrFun quiet.stateOf t))
      · exact Or.inr (Or.inl ⟨ready, rfl, woken⟩)
  | flagWaitAll mask | flagWaitAny mask | flagWaitOne mask =>
    exact (flagWaited (op_flagWaited done)).imp_right Or.inr
  | flagClear mask =>
    obtain ⟨⟨s₁, flags⟩, cleared, rest⟩ := bind_ok_iff.mp done
    cases rest
    exact Or.inl (congrFun (flagClear_ok cleared).1.stateOf t)
  | sleepUntil deadline expired =>
    obtain ⟨s₁, s₂, armed, woken, ending⟩ := sleepUntil_ok done
    obtain ⟨quiet, u, own, deadlines⟩ := armDeadline_ok armed
    have before : s₂.stateOf t = s.stateOf t ∨
        (s₂.stateOf t = .running ∧ (Expires s t expired ∨ s.currentTid cpu = some t)) := by
      rw [← quiet.stateOf]
      rcases wakeAll_effect (t := t) woken with same | ⟨ready, expires⟩
      · exact Or.inl same
      · refine Or.inr ⟨ready, ?_⟩
        by_cases same : t = u
        · exact Or.inr (same ▸ own)
        · refine Or.inl (Expires.congr ?_ expires)
          rw [deadlines, Function.update_of_ne same]
    rcases ending with rfl | parked
    · exact before.imp_right Or.inl
    · rcases park_ok parked with rfl | ⟨v, old, own', set⟩
      · exact before.imp_right Or.inl
      · rcases setState_effect (t := t) set with same | ⟨stopped, rfl⟩
        · rw [same]
          exact before.imp_right Or.inl
        · have current : s₂.currentThreads = s.currentThreads :=
            (Keeps.wakeAll_currentThreads woken).trans quiet.currentThreads
          rw [currentTid, current] at own'
          exact Or.inr (Or.inr ⟨own', stopped⟩)
  | wake u now =>
    rcases wake_effect (t := t) done with same | ⟨ready, rfl, due⟩
    · exact Or.inl same
    · exact Or.inr (Or.inl ⟨ready, rfl, due⟩)
  | yieldSame | startThreading | fifoToken | enterPendsv | sched =>
    have threads : s'.threads = s.threads := op_threads done
    exact Or.inl (by rw [stateOf, stateOf, threads])

theorem wake_prioOf {u now : Nat} (done : s.wake cpu u now = .ok s') : s'.prioOf = s.prioOf := by
  rcases wake_ok done with ⟨-, rfl⟩ | ⟨-, s₁, quiet, -, ⟨-, rfl⟩ | ⟨-, old, set⟩⟩
  · rfl
  · exact quiet.prioOf
  · exact (setState_prioOf set).trans quiet.prioOf

theorem wakeAll_prioOf {expired : List (Nat × Nat)}
    (done : Scheduler.wakeAll cpu expired s = .ok s') : s'.prioOf = s.prioOf := by
  induction expired generalizing s with
  | nil => cases done; rfl
  | cons first expired ih =>
    obtain ⟨s₁, woken, rest⟩ := bind_ok_iff.mp done
    exact (ih rest).trans (wake_prioOf woken)

theorem park_prioOf (done : s.park cpu = .ok s') : s'.prioOf = s.prioOf := by
  rcases park_ok done with rfl | ⟨u, old, own, set⟩
  · rfl
  · exact setState_prioOf set

/-- Only `create` and `set_priority` set priorities. -/
theorem Op.run_prioOf (done : o.run cpu s = .ok s') :
    match o with
    | .create _ _ prio _ => ∃ t, s.getUnused = some t ∧ s.stateOf t = .invalid ∧
        s'.prioOf = Function.update s.prioOf t prio
    | .setPriority .. => True
    | _ => s'.prioOf = s.prioOf := by
  have flagWaited : FlagWaited cpu s s' → s'.prioOf = s.prioOf := by
    intro waited
    rcases waited with ⟨quiet, -⟩ | ⟨u, old, mode, own, set⟩
    · exact quiet.prioOf
    · exact setState_prioOf set
  cases o with
  | create stackStart stackLen prio affinity =>
    obtain ⟨⟨s₁, u⟩, made, rest⟩ := bind_ok_iff.mp done
    cases rest
    obtain ⟨s₂, old, slot, set⟩ := createRaw_ok made
    have unused := create_getUnused slot
    obtain ⟨-, free, thread, rfl, -, given, -⟩ := create_ok slot
    refine ⟨u, unused, free, ?_⟩
    rw [setState_prioOf set, setThread_prioOf, given]
  | exit =>
    obtain ⟨u, old, own, set⟩ := cleanup_ok done
    exact setState_prioOf set
  | park => exact park_prioOf done
  | unpark u =>
    obtain ⟨⟨s₁, found⟩, unparked, rest⟩ := bind_ok_iff.mp done
    cases rest
    rcases unpark_ok unparked with rfl | ⟨parked, old, set⟩
    · rfl
    · exact setState_prioOf set
  | setPriority u prio => trivial
  | flagSet u mask =>
    obtain ⟨-, s₁, quiet, -, rfl | ⟨woken, old, set⟩⟩ := flagSet_ok done
    · exact quiet.prioOf
    · exact (setState_prioOf set).trans quiet.prioOf
  | flagWaitAll mask | flagWaitAny mask | flagWaitOne mask => exact flagWaited (op_flagWaited done)
  | flagClear mask =>
    obtain ⟨⟨s₁, flags⟩, cleared, rest⟩ := bind_ok_iff.mp done
    cases rest
    exact (flagClear_ok cleared).1.prioOf
  | sleepUntil deadline expired =>
    obtain ⟨s₁, s₂, armed, woken, ending⟩ := sleepUntil_ok done
    have before : s₂.prioOf = s.prioOf := (wakeAll_prioOf woken).trans (armDeadline_ok armed).1.prioOf
    rcases ending with rfl | parked
    · exact before
    · exact (park_prioOf parked).trans before
  | wake u now => exact wake_prioOf done
  | yieldSame | startThreading | fifoToken | enterPendsv | sched =>
    have threads : s'.threads = s.threads := op_threads done
    change s'.prioOf = s.prioOf
    funext u
    rw [prioOf, prioOf, threads]

/-- Whether the operation works with deadlines. -/
def Op.timed : Op → Bool
  | .sleepUntil .. | .wake .. => true
  | _ => false

theorem park_deadlineOf (done : s.park cpu = .ok s') : s'.deadlineOf = s.deadlineOf := by
  rcases park_ok done with rfl | ⟨u, old, own, set⟩
  · rfl
  · exact setState_deadlineOf set

theorem Op.run_deadlineOf (untimed : o.timed = false) (done : o.run cpu s = .ok s') :
    s'.deadlineOf = s.deadlineOf := by
  have flagWaited : FlagWaited cpu s s' → s'.deadlineOf = s.deadlineOf := by
    intro waited
    rcases waited with ⟨-, same⟩ | ⟨u, old, mode, own, set⟩
    · exact same
    · exact setState_deadlineOf set
  cases o with
  | create stackStart stackLen prio affinity =>
    obtain ⟨⟨s₁, u⟩, made, rest⟩ := bind_ok_iff.mp done
    cases rest
    obtain ⟨s₂, old, slot, set⟩ := createRaw_ok made
    obtain ⟨-, -, thread, rfl, -, -, -, deadline⟩ := create_ok slot
    rw [setState_deadlineOf set, setThread_deadlineOf, deadline, Function.update_eq_self]
  | exit =>
    obtain ⟨u, old, own, set⟩ := cleanup_ok done
    exact setState_deadlineOf set
  | park => exact park_deadlineOf done
  | unpark u =>
    obtain ⟨⟨s₁, found⟩, unparked, rest⟩ := bind_ok_iff.mp done
    cases rest
    rcases unpark_ok unparked with rfl | ⟨parked, old, set⟩
    · rfl
    · exact setState_deadlineOf set
  | setPriority u prio => exact setPriority_deadlineOf done
  | flagSet u mask =>
    obtain ⟨-, s₁, -, same, rfl | ⟨woken, old, set⟩⟩ := flagSet_ok done
    · exact same
    · exact (setState_deadlineOf set).trans same
  | flagWaitAll mask | flagWaitAny mask | flagWaitOne mask => exact flagWaited (op_flagWaited done)
  | flagClear mask =>
    obtain ⟨⟨s₁, flags⟩, cleared, rest⟩ := bind_ok_iff.mp done
    cases rest
    exact (flagClear_ok cleared).2
  | sleepUntil deadline expired => cases untimed
  | wake u now => cases untimed
  | yieldSame | startThreading | fifoToken | enterPendsv | sched =>
    have threads : s'.threads = s.threads := op_threads done
    funext u
    rw [deadlineOf, deadlineOf, threads]

/-- Without a timer, only threads outside of the wait lists are woken. -/
theorem Op.wakes_outside (untimed : o.timed = false) (wakes : o.Wakes cpu s t) :
    (s.stateOf t).inList = false ∧ s.stateOf t ≠ .running := by
  cases o with
  | create stackStart stackLen prio affinity =>
    rw [show s.stateOf t = .invalid from wakes]
    exact ⟨rfl, by simp⟩
  | unpark u =>
    rw [wakes.2]
    exact ⟨rfl, by simp⟩
  | flagSet u mask =>
    obtain ⟨mode, blocked⟩ := wokenBy_state wakes.2
    rw [blocked]
    exact ⟨rfl, by simp⟩
  | sleepUntil deadline expired => cases untimed
  | wake u now => cases untimed
  | _ => cases wakes

theorem Op.stops_outside {state : ThreadState} (stops : o.Stops state) : state.inList = false := by
  cases o with
  | flagWaitAll mask | flagWaitAny mask | flagWaitOne mask =>
    obtain ⟨mode, rfl⟩ := stops
    rfl
  | exit | park | sleepUntil deadline expired => rw [show state = _ from stops]; rfl
  | _ => cases stops

theorem Op.stops_blocking {state : ThreadState} (stops : o.Stops state) : o.blocking = true := by
  cases o with
  | exit | park | flagWaitAll mask | flagWaitAny mask | flagWaitOne mask
  | sleepUntil deadline expired => rfl
  | _ => cases stops

/-- Timers that go off leave a deadline as it is or clear it. -/
theorem wakeAll_deadlineOf {expired : List (Nat × Nat)}
    (done : Scheduler.wakeAll cpu expired s = .ok s') :
    s'.deadlineOf t = s.deadlineOf t ∨ s'.deadlineOf t = none := by
  induction expired generalizing s with
  | nil => cases done; exact Or.inl rfl
  | cons first expired ih =>
    obtain ⟨s₁, woken, rest⟩ := bind_ok_iff.mp done
    rcases ih rest with same | cleared
    · rw [same, wake_deadlineOf woken]
      split
      · by_cases own : t = first.1
        · rw [own, Function.update_self]
          exact Or.inr rfl
        · exact Or.inl (Function.update_of_ne own _ _)
      · exact Or.inl rfl
    · exact Or.inr cleared

/-- A deadline that is still set after timers went off was set before, and is later than they found. -/
theorem wakeAll_remains {expired : List (Nat × Nat)} {d : Nat}
    (done : Scheduler.wakeAll cpu expired s = .ok s') (remains : s'.deadlineOf t = some d) :
    s.deadlineOf t = some d ∧ ∀ now, (t, now) ∈ expired → now < d := by
  induction expired generalizing s with
  | nil =>
    cases done
    exact ⟨remains, fun now member => by cases member⟩
  | cons first expired ih =>
    obtain ⟨s₁, woken, rest⟩ := bind_ok_iff.mp done
    obtain ⟨before, later⟩ := ih rest
    rw [wake_deadlineOf woken] at before
    split at before
    · have other : t ≠ first.1 := by
        rintro rfl
        rw [Function.update_self] at before
        cases before
      rw [Function.update_of_ne other] at before
      refine ⟨before, fun now member => ?_⟩
      rcases List.mem_cons.mp member with rfl | member
      · exact absurd rfl other
      · exact later now member
    · rename_i early
      refine ⟨before, fun now member => ?_⟩
      rcases List.mem_cons.mp member with rfl | member
      · by_contra late
        exact early (timerDue_iff.mpr ⟨d, before, Nat.not_lt.mp late⟩)
      · exact later now member

theorem wakeAll_running {expired : List (Nat × Nat)} (running : s.stateOf t = .running)
    (done : Scheduler.wakeAll cpu expired s = .ok s') : s'.stateOf t = .running := by
  rcases wakeAll_effect (t := t) done with same | ⟨ready, -⟩
  · exact same.trans running
  · exact ready

/-- A deadline that `set_deadline` finds in the future is the one it was given. -/
theorem setDeadline_future {deadline : Nat} {expired : List (Nat × Nat)} {inFuture : Bool}
    (own : s.currentTid cpu = some t)
    (done : s.setDeadline cpu deadline expired = .ok (s', inFuture)) :
    inFuture = (s'.deadlineOf t).isSome ∧ (inFuture = true → s'.deadlineOf t = some deadline) := by
  obtain ⟨s₁, armed, rest⟩ := bind_ok_iff.mp done
  obtain ⟨s₂, woken, rest⟩ := bind_ok_iff.mp rest
  obtain ⟨thread, read, rest⟩ := bind_ok_iff.mp rest
  cases rest
  obtain ⟨quiet, u, own', set⟩ := armDeadline_ok armed
  obtain rfl : t = u := Option.some.inj (own.symm.trans own')
  obtain ⟨v, current, rfl⟩ := expectCurrent_ok read
  have same : s'.currentThreads = s.currentThreads :=
    (Keeps.wakeAll_currentThreads woken).trans quiet.currentThreads
  rw [currentTid, same] at current
  obtain rfl : t = v := Option.some.inj (own.symm.trans current)
  refine ⟨rfl, fun future => ?_⟩
  rcases wakeAll_deadlineOf (t := t) woken with kept | cleared
  · rw [kept, set, Function.update_self]
  · have future : (s'.deadlineOf t).isSome = true := future
    simp [cleared] at future

/-- On top of what else they keep, operations leave the links of the wait lists as they are. -/
theorem Keeps.blocklist {refs : Nat → Prop} {MayStart : Prop} {I : Scheduler → Prop}
    {b : Nat → Option Nat}
    (base : Keeps cpu refs (fun _ _ => True) (fun _ _ _ => True) (fun _ => True) MayStart I) :
    Keeps cpu refs (fun _ _ => True) (fun _ _ _ => True) (fun _ => True) MayStart
      (fun s => I s ∧ s.threadBlocklist = b) where
  quiet := fun h inv => ⟨base.quiet h inv.1, h.threadBlocklist.trans inv.2⟩
  quietReady := fun _ _ => trivial
  ready := fun named self _ inv done => ⟨base.ready named self trivial inv.1 done,
    (setState_threadBlocklist done).trans inv.2⟩
  stop := fun named own _ stops inv done => ⟨base.stop named own trivial stops inv.1 done,
    (setState_threadBlocklist done).trans inv.2⟩
  create := fun named _ inv made => by
    refine ⟨base.create named trivial inv.1 made, ?_⟩
    obtain ⟨-, -, thread, rfl, -⟩ := create_ok made
    exact inv.2
  setPriority := fun named _ inv done => ⟨base.setPriority named (fun _ => trivial) inv.1 done,
    (setPriority_keeps done).2.trans inv.2⟩
  yieldSame := fun named inv done => by
    refine ⟨base.yieldSame named inv.1 done, ?_⟩
    obtain ⟨r, q, rfl⟩ := yieldSame_ok done
    exact inv.2
  startThreading := fun named may inv done => by
    refine ⟨base.startThreading named may inv.1 done, ?_⟩
    obtain ⟨-, rfl⟩ := startThreading_ok done
    exact inv.2
  handleFifoToken := fun named inv done => by
    refine ⟨base.handleFifoToken named inv.1 done, ?_⟩
    obtain ⟨-, rfl⟩ := handleFifoToken_ok done
    exact inv.2
  enterPendsv := fun named inv done => by
    refine ⟨base.enterPendsv named inv.1 done, ?_⟩
    obtain ⟨-, -, rfl⟩ := enterPendsv_ok done
    exact inv.2
  sched := fun named inv done => by
    obtain ⟨kept, named'⟩ := base.sched named inv.1 done
    exact ⟨⟨kept, (sched_keeps done).2.trans inv.2⟩, named'⟩

end ArielOS
