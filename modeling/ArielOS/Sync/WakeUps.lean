import ArielOS.Sync.WaitLists

namespace ArielOS

open Machine Scheduler

variable {V : Type} {s s' : Scheduler} {t u m : Nat} {P : Nat → Prop}

/-- A thread that timers wake was found to be ready for that. -/
theorem wakeAll_found {expired : List (Nat × Nat)}
    (found : WakesPermitted SingleCore.cpu (fun _ t => P t) expired s)
    (done : Scheduler.wakeAll SingleCore.cpu expired s = .ok s') (stopped : s.stateOf u ≠ .running)
    (ready : s'.stateOf u = .running) : P u := by
  induction expired generalizing s with
  | nil =>
    cases done
    exact absurd ready stopped
  | cons first expired ih =>
    obtain ⟨s₁, woken, rest⟩ := bind_ok_iff.mp done
    rcases wake_effect (t := u) woken with same | ⟨-, rfl, due⟩
    · exact ih (found.2 s₁ woken) rest (by rwa [same])
    · exact found.1 due stopped

/-- The same for the timers that go off while the current thread sets its deadline. -/
theorem setDeadline_found {deadline : Nat} {expired : List (Nat × Nat)} {inFuture : Bool}
    (own : s.currentTid SingleCore.cpu = some t) (other : u ≠ t)
    (found : TimerFinds (fun _ t => P t) s (some (deadline, expired)))
    (done : s.setDeadline SingleCore.cpu deadline expired = .ok (s', inFuture))
    (stopped : s.stateOf u ≠ .running) (ready : s'.stateOf u = .running) :
    P u ∧ Expires s u expired := by
  obtain ⟨s₁, armed, woken⟩ := setDeadline_ok done
  obtain ⟨quiet, -⟩ := armDeadline_ok armed
  have stopped₁ : s₁.stateOf u ≠ .running := by rwa [quiet.stateOf]
  refine ⟨wakeAll_found (found s₁ armed) woken stopped₁ ready, ?_⟩
  rcases setDeadline_others own other done with same | expires
  · exact absurd (same.symm.trans ready) stopped
  · exact expires

namespace ObjectSystem

variable {sys sys' : ObjectSystem V} {objects : Nat → Object} {memory : Nat → V}
  {e : ObjectEvent} {W : Nat → List Nat}

/-- A timer wakes the thread, at or after its deadline. -/
def TimerWakes (e : ObjectEvent) (sys : ObjectSystem V) (t deadline : Nat) : Prop :=
  sys.scheduler.deadlineOf t = some deadline ∧ ∃ now, (t, now) ∈ e.wakers ∧ deadline ≤ now

/-- A call on the object pops the thread, which is the first of its list if only one is popped. -/
def Pops (e : ObjectEvent) (sys : ObjectSystem V) (m t : Nat) : Prop :=
  ∃ c, e = .call m c ∧ ((c.popsOne = true ∧ (sys.lists m).head = some t) ∨
    (c.popsAll = true ∧ ∃ members, (sys.lists m).Links sys.scheduler members ∧ t ∈ members))

/-- The event is one that the state of the thread waits for. -/
def Awaited (e : ObjectEvent) (sys : ObjectSystem V) (t : Nat) : Prop :=
  match sys.scheduler.stateOf t with
  | .running => True
  | .invalid => ∃ stackStart stackLen prio affinity, e = .op (.create stackStart stackLen prio affinity)
  | .parked => e = .op (.unpark t) ∨
    ∃ deadline, sys.pause t = .sleep deadline ∧ TimerWakes e sys t deadline
  | .flagBlocked mode => ∃ mask, e = .op (.flagSet t mask) ∧
    wokenBy (.flagBlocked mode) ((sys.scheduler.threads t).flags ||| mask) = true
  | .lockBlocked | .channelRxBlocked _ | .channelTxBlocked _ =>
    ∃ m, sys.pause t = .waits m ∧ Pops e sys m t
  | .waitQueueBlocked => ∃ m, (sys.pause t).object = some m ∧ (Pops e sys m t ∨
    ∃ deadline, sys.pause t = .timedWait m deadline ∧ TimerWakes e sys t deadline)

/-- The runs in which a timer expires for a thread that is not ready only while the thread sleeps or
    waits with a deadline. -/
def Timely (e : ObjectEvent) (sys : ObjectSystem V) : Prop :=
  e.TimersFind (fun _ t => (sys.pause t).deadline ≠ none) sys.scheduler

theorem Timely.spares (timely : Timely e sys) : SparesWaiters e sys :=
  timely.mono fun _ _ set _ => set

theorem Awaited.timer (orderly : Orderly sys.lists sys.pause W sys.scheduler)
    (stopped : sys.scheduler.stateOf t ≠ .running) (set : (sys.pause t).deadline ≠ none)
    (expires : Expires sys.scheduler t e.wakers) : Awaited e sys t := by
  have fits := orderly.fits t
  have kind := fits.kind stopped
  obtain ⟨now, member, due⟩ := expires
  obtain ⟨passed, same, late⟩ := timerDue_iff.mp due
  unfold Awaited
  cases paused : sys.pause t with
  | idle | waits object => simp [paused, Pause.deadline] at set
  | sleep deadline =>
    rw [paused] at kind
    rw [show sys.scheduler.stateOf t = .parked from kind]
    have own := fits.timed stopped deadline (by rw [paused]; rfl)
    obtain rfl := Option.some.inj (own.symm.trans same)
    exact Or.inr ⟨deadline, rfl, own, now, member, late⟩
  | timedWait object deadline =>
    rw [paused] at kind
    rw [show sys.scheduler.stateOf t = .waitQueueBlocked from kind]
    have own := fits.timed stopped deadline (by rw [paused]; rfl)
    obtain rfl := Option.some.inj (own.symm.trans same)
    exact ⟨object, rfl, Or.inr ⟨deadline, rfl, own, now, member, late⟩⟩

theorem Awaited.pops (orderly : Orderly sys.lists sys.pause W sys.scheduler)
    (stopped : sys.scheduler.stateOf t ≠ .running) (here : t ∈ W m) (pops : Pops e sys m t) :
    Awaited e sys t := by
  have fits := orderly.fits t
  obtain ⟨object, blocked | ⟨running, -⟩⟩ := fits.member here
  · have kind := fits.kind stopped
    have waits : sys.scheduler.stateOf t ≠ .waitQueueBlocked → sys.pause t = .waits m := by
      intro other
      cases paused : sys.pause t with
      | waits object' =>
        rw [paused] at object
        rw [show object' = m from Option.some.inj object]
      | timedWait object' deadline =>
        rw [paused] at kind
        exact absurd kind other
      | _ => simp [paused, Pause.object] at object
    unfold Awaited
    cases state : sys.scheduler.stateOf t with
    | waitQueueBlocked => exact ⟨m, object, Or.inl pops⟩
    | lockBlocked | channelRxBlocked ptr | channelTxBlocked ptr =>
      exact ⟨m, waits (by rw [state]; simp), pops⟩
    | _ => simp [state, ThreadState.inList] at blocked
  · exact absurd running stopped

/-- An operation without a timer wakes a thread that waits for it. -/
theorem Awaited.op {o : Op} (named : sys.scheduler.Named fun _ => False) (untimed : o.timed = false)
    (done : o.run SingleCore.cpu sys.scheduler = .ok s')
    (stopped : sys.scheduler.stateOf t ≠ .running) (ready : s'.stateOf t = .running) :
    Awaited (.op o) sys t := by
  rcases Op.run_stateOf (t := t) named done with same | ⟨-, wakes⟩ | ⟨-, stops⟩
  · exact absurd (same.symm.trans ready) stopped
  · unfold Awaited
    cases o with
    | create stackStart stackLen prio affinity =>
      rw [show sys.scheduler.stateOf t = .invalid from wakes]
      exact ⟨stackStart, stackLen, prio, affinity, rfl⟩
    | unpark v =>
      obtain ⟨rfl, parked⟩ := wakes
      rw [parked]
      exact Or.inl rfl
    | flagSet v mask =>
      obtain ⟨rfl, woken⟩ := wakes
      obtain ⟨mode, blocked⟩ := wokenBy_state woken
      rw [blocked] at woken ⊢
      exact ⟨mask, rfl, woken⟩
    | sleepUntil deadline expired => cases untimed
    | wake v now => cases untimed
    | _ => cases wakes
  · cases o with
    | flagWaitAll mask | flagWaitAny mask | flagWaitOne mask =>
      obtain ⟨mode, same⟩ := stops
      rw [ready] at same
      cases same
    | exit | park | sleepUntil deadline expired =>
      rw [ready] at stops
      cases stops
    | _ => cases stops

/-- Setting a deadline does not switch threads. -/
theorem setDeadline_current {deadline : Nat} {expired : List (Nat × Nat)} {inFuture : Bool}
    (orderly : Orderly sys.lists sys.pause W s) (own : s.currentTid SingleCore.cpu = some t)
    (done : s.setDeadline SingleCore.cpu deadline expired = .ok (s', inFuture)) :
    s'.currentTid SingleCore.cpu = some t ∧ s'.tidOf t = t := by
  obtain ⟨s₁, armed, woken⟩ := setDeadline_ok done
  obtain ⟨named₁, inv₁⟩ := (SingleCore.keeps _).armDeadline orderly.named orderly.invariant armed
  obtain ⟨named', -⟩ := (SingleCore.keeps _).wakeAll named₁ inv₁ (wakesPermitted_true _ _) woken
  have same : s'.currentThreads = s.currentThreads :=
    (Keeps.wakeAll_currentThreads woken).trans (armDeadline_ok armed).1.currentThreads
  have own' : s'.currentTid SingleCore.cpu = some t := by
    rw [currentTid, same]
    exact own
  exact ⟨own', named'.current _ t own'⟩

theorem Awaited.effect {c : ObjectCall} {list : ThreadList} {more : Bool}
    (orderly : Orderly sys.lists sys.pause W sys.scheduler) (timely : Timely (.call m c) sys)
    (may : c.blocking = true → ∃ t, sys.scheduler.currentTid SingleCore.cpu = some t ∧
      sys.scheduler.stateOf t = .running)
    (effect : c.Effect SingleCore.cpu sys.scheduler (sys.lists m) list s' more)
    (stopped : sys.scheduler.stateOf u ≠ .running) (ready : s'.stateOf u = .running) :
    Awaited (.call m c) sys u := by
  have found : TimerFinds (fun _ t => (sys.pause t).deadline ≠ none) sys.scheduler c.timer := timely
  cases effect with
  | stays => exact absurd ready stopped
  | put blocking waits blocks done after =>
    obtain ⟨t, own, running⟩ := may blocking
    have other : u ≠ t := fun same => stopped (same ▸ running)
    have kept := ThreadList.putCurrent_stateOf own (orderly.named.current _ t own) other done
    rw [after.stateOf, kept] at ready
    exact absurd ready stopped
  | pop pops before done =>
    have orderly₁ := reprioritised orderly before
    rcases orderly₁.chained.pop done with ⟨-, -, rfl, -⟩ | ⟨h, rest, front, -, states, -⟩
    · rw [before.stateOf] at ready
      exact absurd ready stopped
    · have isHead : u = h := by
        by_contra other
        rw [states, Function.update_of_ne other, before.stateOf] at ready
        exact stopped ready
      have links := orderly.chained.links m
      rw [front] at links
      refine Awaited.pops orderly stopped (by simp [front, isHead]) ⟨c, rfl, Or.inl ⟨pops, ?_⟩⟩
      rw [isHead]
      exact links.1
  | popAll pops done =>
    have woken := orderly.chained.popAll (t := u) done
    split at woken
    · rename_i here
      exact Awaited.pops orderly stopped here
        ⟨c, rfl, Or.inr ⟨pops, W m, orderly.chained.links m, here⟩⟩
    · exact absurd (woken.symm.trans ready) stopped
  | expired timer done =>
    obtain ⟨t, own, running⟩ := may (ObjectCall.timer_blocking m timer).1
    have other : u ≠ t := fun same => stopped (same ▸ running)
    rw [timer] at found
    obtain ⟨set, expires⟩ := setDeadline_found own other found done stopped ready
    refine Awaited.timer orderly stopped set ?_
    rwa [ObjectEvent.wakers, timer]
  | timed timer armed done =>
    obtain ⟨t, own, running⟩ := may (ObjectCall.timer_blocking m timer).1
    have other : u ≠ t := fun same => stopped (same ▸ running)
    rw [timer] at found
    obtain ⟨own', self⟩ := setDeadline_current orderly own armed
    rw [ThreadList.putCurrent_stateOf own' self other done] at ready
    obtain ⟨set, expires⟩ := setDeadline_found own other found armed stopped ready
    refine Awaited.timer orderly stopped set ?_
    rwa [ObjectEvent.wakers, timer]

theorem Awaited.ofOp {o : Op} (safe : Safe sys) (timely : Timely (.op o) sys)
    (done : step (.op o) sys = .ok sys') (stopped : sys.scheduler.stateOf u ≠ .running)
    (ready : sys'.scheduler.stateOf u = .running) : Awaited (.op o) sys u := by
  obtain ⟨W, orderly⟩ := safe
  obtain ⟨ran, -, outcome⟩ := step_op done
  cases timed : o.timed with
  | false => exact Awaited.op orderly.named timed ran stopped ready
  | true =>
    cases o with
    | sleepUntil deadline expired =>
      rcases outcome with ⟨-, t, called, -⟩ | ⟨passes, -⟩
      · obtain ⟨own, running, -⟩ := caller_ok orderly called
        have other : u ≠ t := fun same => stopped (same ▸ running)
        obtain ⟨⟨s₁, inFuture⟩, set, rest⟩ := bind_ok_iff.mp ran
        have ready₁ : s₁.stateOf u = .running := by
          obtain ⟨own', -⟩ := setDeadline_current orderly own set
          cases inFuture with
          | false =>
            cases rest
            exact ready
          | true =>
            rcases park_ok rest with same | ⟨v, old, own'', parked⟩
            · rw [← same]
              exact ready
            · obtain rfl : t = v := Option.some.inj (own'.symm.trans own'')
              rwa [setState_stateOf parked, Function.update_of_ne other] at ready
        obtain ⟨due, expires⟩ := setDeadline_found own other timely set stopped ready₁
        exact Awaited.timer orderly stopped due expires
      · cases passes
    | wake v now =>
      rcases wake_effect (t := u) ran with same | ⟨-, rfl, due⟩
      · exact absurd (same.symm.trans ready) stopped
      · exact Awaited.timer orderly stopped (timely due stopped)
          ⟨now, by simp [ObjectEvent.wakers], due⟩
    | _ => cases timed

theorem Awaited.ofCall {c : ObjectCall} (safe : Safe sys) (timely : Timely (.call m c) sys)
    (done : step (.call m c) sys = .ok sys') (stopped : sys.scheduler.stateOf u ≠ .running)
    (ready : sys'.scheduler.stateOf u = .running) : Awaited (.call m c) sys u := by
  obtain ⟨W, orderly⟩ := safe
  obtain ⟨list, more, effect, -, outcome⟩ := step_call done
  refine Awaited.effect orderly timely (fun blocking => ?_) effect stopped ready
  rcases outcome with ⟨-, t, called, -⟩ | ⟨passes, -⟩
  · obtain ⟨own, running, -⟩ := caller_ok orderly called
    exact ⟨t, own, running⟩
  · simp [passes] at blocking

theorem Awaited.ofResume {expired : List (Nat × Nat)} (safe : Safe sys)
    (timely : Timely (.resume expired) sys) (done : step (.resume expired) sys = .ok sys')
    (stopped : sys.scheduler.stateOf u ≠ .running) (ready : sys'.scheduler.stateOf u = .running) :
    Awaited (.resume expired) sys u := by
  obtain ⟨W, orderly⟩ := safe
  obtain ⟨t, m, deadline, list, result, executes, paused, ran, -, -⟩ := step_resume done
  obtain ⟨own, running⟩ := SingleCore.executing_running orderly.invariant executes
  have other : u ≠ t := fun same => stopped (same ▸ running)
  obtain ⟨v, own', outcome⟩ := WaitQueue.waitUntilResume_ok ran
  obtain rfl : t = v := Option.some.inj (own.symm.trans own')
  rcases outcome with ⟨set, -, -, woken⟩ | ⟨-, removed, took, -⟩
  · have quiet := quiet_withoutDeadline sys.scheduler t
    have stopped₃ : (sys.scheduler.withoutDeadline t).stateOf u ≠ .running := by
      rwa [quiet.stateOf]
    have due := wakeAll_found (timely t own set) woken stopped₃ ready
    refine Awaited.timer orderly stopped due ?_
    rcases wakeAll_effect (t := u) woken with same | ⟨-, expires⟩
    · exact absurd (same.symm.trans ready) stopped₃
    · refine Expires.congr ?_ expires
      rw [withoutDeadline, setThread_deadlineOf, Function.update_of_ne other]
  · have same := ThreadList.removeCurrent_stateOf own other took
    exact absurd (same.symm.trans ready) stopped

theorem step_awaited (safe : Safe sys) (timely : Timely e sys) (done : step e sys = .ok sys')
    (stopped : sys.scheduler.stateOf u ≠ .running) (ready : sys'.scheduler.stateOf u = .running) :
    Awaited e sys u := by
  cases e with
  | op o => exact Awaited.ofOp safe timely done stopped ready
  | call m c => exact Awaited.ofCall safe timely done stopped ready
  | resume expired => exact Awaited.ofResume safe timely done stopped ready

instance (e : ObjectEvent) (sys : ObjectSystem V) : Decidable (Timely e sys) :=
  ObjectEvent.decidableTimersFind sys.scheduler e

/-- As long as no timer expires for a thread that neither sleeps nor waits with a deadline, a thread is
    made ready only by what it waits for. -/
theorem woken_by_awaited (isNew : ∀ m, (objects m).IsNew)
    (reached : Reaches step Timely (new objects memory) sys) (timely : Timely e sys)
    (done : step e sys = .ok sys') (stopped : sys.scheduler.stateOf u ≠ .running)
    (ready : sys'.scheduler.stateOf u = .running) : Awaited e sys u := by
  have spared : Reaches step SparesWaiters (new objects memory) sys :=
    reached.mono fun _ _ timely => timely.spares
  have safe := spared.invariant Safe (new_safe isNew)
    fun _ _ _ safe spares done => step_safe safe spares done
  exact step_awaited safe timely done stopped ready

section Samples

/-- What is checked of a thread that an event wakes. -/
def wakes (e : ObjectEvent) (t : Nat) (state : ThreadState) (pause : Pause)
    (sys : ObjectSystem Nat) : Bool :=
  sys.scheduler.stateOf t == state && sys.pause t == pause &&
    match step e sys with
    | .ok sys' => sys'.scheduler.stateOf t == .running
    | .error _ => false

theorem wakes_iff {state : ThreadState} {pause : Pause} {sys : ObjectSystem Nat} :
    wakes e t state pause sys = true ↔ sys.scheduler.stateOf t = state ∧ sys.pause t = pause ∧
      ∃ sys', step e sys = .ok sys' ∧ sys'.scheduler.stateOf t = .running := by
  unfold wakes
  cases step e sys <;> simp [and_assoc]

/-- Thread 1 waits on queue 1 until 100, and its timer goes off at 120. -/
theorem woken_by_awaited_sample : ∃ sys sys' : ObjectSystem Nat,
    step (.op (.wake 1 120)) sys = .ok sys' ∧ sys.scheduler.stateOf 1 = .waitQueueBlocked ∧
      sys'.scheduler.stateOf 1 = .running ∧ Awaited (.op (.wake 1 120)) sys 1 := by
  have run : ∃ sys, Reaches step Timely (new sampleObjects fun _ => 0) sys ∧
      (wakes (.op (.wake 1 120)) 1 .waitQueueBlocked (.timedWait 1 100) sys &&
        decide (Timely (.op (.wake 1 120)) sys)) = true :=
    reaches_of_check (startEvents ++ [.call 1 (.waitUntil 100 [])] ++ switch)
      (by decide +kernel)
  obtain ⟨sys, reached, checked⟩ := run
  simp only [Bool.and_eq_true, wakes_iff, decide_eq_true_eq] at checked
  obtain ⟨⟨state, -, sys', done, ready⟩, timely⟩ := checked
  refine ⟨sys, sys', done, state, ready, ?_⟩
  exact woken_by_awaited sampleObjects_isNew reached timely done (by simp [state]) ready

/-- Thread 1 is unparked early and waits for a flag when the timer of its sleep wakes it. -/
theorem woken_by_stale_deadline : ∃ sys sys' : ObjectSystem Nat,
    Reachable step (new sampleObjects fun _ => 0) sys ∧
      step (.op (.wake 1 100)) sys = .ok sys' ∧
      sys.scheduler.stateOf 1 = .flagBlocked (.all 1) ∧ sys'.scheduler.stateOf 1 = .running ∧
      ¬ Awaited (.op (.wake 1 100)) sys 1 := by
  have run : ∃ sys, Reachable step (new sampleObjects fun _ => 0) sys ∧
      wakes (.op (.wake 1 100)) 1 (.flagBlocked (.all 1)) .idle sys = true :=
    reaches_of_check (startEvents ++ [.op (.sleepUntil 100 [])] ++ switch ++ [.op (.unpark 1)] ++
      switch ++ [.op (.flagWaitAll 1)] ++ switch) (by decide +kernel)
  obtain ⟨sys, reached, checked⟩ := run
  obtain ⟨state, -, sys', done, ready⟩ := wakes_iff.mp checked
  refine ⟨sys, sys', reached, done, state, ready, ?_⟩
  unfold Awaited
  rw [state]
  intro ⟨mask, other, _⟩
  cases other

end Samples

end ObjectSystem

end ArielOS
