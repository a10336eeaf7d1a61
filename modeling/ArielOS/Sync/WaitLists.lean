import ArielOS.Sync.ObjectEffects
import ArielOS.Sync.PausedThreads

namespace ArielOS

open Machine Scheduler

variable {V : Type} {s s' : Scheduler} {t m : Nat} {Ready : Scheduler → Nat → Prop}

/-- The wakers that are called when a deadline is set find their threads `Ready` to be woken. -/
def TimerFinds (Ready : Scheduler → Nat → Prop) (s : Scheduler) :
    Option (Nat × List (Nat × Nat)) → Prop
  | some (deadline, expired) => ∀ s₁, s.armDeadline SingleCore.cpu deadline = .ok s₁ →
    WakesPermitted SingleCore.cpu Ready expired s₁
  | none => True

/-- Every timer that goes off in the critical section, and finds the deadline of its thread passed and
    the thread not ready, finds it `Ready` to be woken. -/
def ObjectEvent.TimersFind (Ready : Scheduler → Nat → Prop) (s : Scheduler) : ObjectEvent → Prop
  | .op (.wake t now) => s.timerDue t now = true → s.stateOf t ≠ .running → Ready s t
  | .op o => TimerFinds Ready s o.timer
  | .call _ c => TimerFinds Ready s c.timer
  | .resume expired => ∀ t, s.currentTid SingleCore.cpu = some t → s.deadlineOf t ≠ none →
    WakesPermitted SingleCore.cpu Ready expired (s.withoutDeadline t)

section Decide

variable [∀ s t, Decidable (Ready s t)]

instance decidableTimerFinds (s : Scheduler) :
    (timer : Option (Nat × List (Nat × Nat))) → Decidable (TimerFinds Ready s timer)
  | some (_, _) => decidableForallOk _
  | none => isTrue trivial

instance ObjectEvent.decidableTimersFind (s : Scheduler) :
    (e : ObjectEvent) → Decidable (e.TimersFind Ready s)
  | .op (.wake ..) => inferInstanceAs (Decidable (_ → _))
  | .op (.sleepUntil deadline expired) =>
    inferInstanceAs (Decidable (TimerFinds Ready s (some (deadline, expired))))
  | .op (.create ..) | .op .exit | .op .park | .op (.unpark _) | .op (.setPriority ..)
  | .op .yieldSame | .op (.flagSet ..) | .op (.flagWaitAll _) | .op (.flagWaitAny _)
  | .op (.flagWaitOne _) | .op (.flagClear _) | .op .startThreading | .op .fifoToken
  | .op .enterPendsv | .op .sched => isTrue trivial
  | .call _ c => decidableTimerFinds s c.timer
  | .resume _ => decidableForallSome _

end Decide

theorem WakesPermitted.mono {Ready' : Scheduler → Nat → Prop} {expired : List (Nat × Nat)}
    (weaker : ∀ s t, Ready s t → Ready' s t)
    (permitted : WakesPermitted SingleCore.cpu Ready expired s) :
    WakesPermitted SingleCore.cpu Ready' expired s := by
  induction expired generalizing s with
  | nil => trivial
  | cons first expired ih =>
    refine ⟨fun due stopped => weaker _ _ (permitted.1 due stopped), fun s' woken => ?_⟩
    exact ih (permitted.2 s' woken)

theorem TimerFinds.mono {Ready' : Scheduler → Nat → Prop} {timer : Option (Nat × List (Nat × Nat))}
    (weaker : ∀ s t, Ready s t → Ready' s t) (found : TimerFinds Ready s timer) :
    TimerFinds Ready' s timer := by
  cases timer with
  | none => trivial
  | some timer => exact fun s₁ armed => (found s₁ armed).mono weaker

theorem ObjectEvent.TimersFind.mono {Ready' : Scheduler → Nat → Prop} {e : ObjectEvent}
    (weaker : ∀ s t, Ready s t → Ready' s t) (found : e.TimersFind Ready s) :
    e.TimersFind Ready' s := by
  cases e with
  | op o =>
    cases o with
    | sleepUntil deadline expired =>
      have found : TimerFinds Ready s (some (deadline, expired)) := found
      exact found.mono weaker
    | wake t now => exact fun due stopped => weaker _ _ (found due stopped)
    | _ => trivial
  | call self c => exact TimerFinds.mono weaker found
  | resume expired => exact fun t own set => (found t own set).mono weaker

/-- While a deadline is set, only those threads are woken whose own timers go off. -/
theorem setDeadline_others {u deadline : Nat} {expired : List (Nat × Nat)} {inFuture : Bool}
    (own : s.currentTid SingleCore.cpu = some t) (other : u ≠ t)
    (done : s.setDeadline SingleCore.cpu deadline expired = .ok (s', inFuture)) :
    s'.stateOf u = s.stateOf u ∨ Expires s u expired := by
  obtain ⟨s₁, armed, woken⟩ := setDeadline_ok done
  obtain ⟨quiet, v, own', set⟩ := armDeadline_ok armed
  obtain rfl : t = v := Option.some.inj (own.symm.trans own')
  rcases wakeAll_effect (t := u) woken with same | ⟨-, expires⟩
  · exact Or.inl (same.trans (congrFun quiet.stateOf u))
  · refine Or.inr (Expires.congr ?_ expires)
    rw [set, Function.update_of_ne other]

/-- The second critical section wakes no other thread but those whose own timers go off meanwhile. -/
theorem WaitQueue.waitUntilResume_others {u : Nat} {list list' : ThreadList}
    {expired : List (Nat × Nat)} {result : Bool} (own : s.currentTid SingleCore.cpu = some t)
    (other : u ≠ t) (done : waitUntilResume SingleCore.cpu list s expired = .ok (list', s', result)) :
    s'.stateOf u = s.stateOf u ∨ Expires s u expired := by
  obtain ⟨v, own', outcome⟩ := waitUntilResume_ok done
  obtain rfl : t = v := Option.some.inj (own.symm.trans own')
  rcases outcome with ⟨-, -, -, woken⟩ | ⟨-, removed, took, -⟩
  · rcases wakeAll_effect (t := u) woken with same | ⟨-, expires⟩
    · exact Or.inl (same.trans (congrFun (quiet_withoutDeadline s t).stateOf u))
    · refine Or.inr (Expires.congr ?_ expires)
      rw [withoutDeadline, setThread_deadlineOf, Function.update_of_ne other]
  · exact Or.inl (ThreadList.removeCurrent_stateOf own other took)

theorem WaitQueue.waitUntilResume_deadline {list list' : ThreadList} {expired : List (Nat × Nat)}
    {result : Bool} (own : s.currentTid SingleCore.cpu = some t)
    (done : waitUntilResume SingleCore.cpu list s expired = .ok (list', s', result)) :
    s'.deadlineOf t = none := by
  obtain ⟨v, own', outcome⟩ := waitUntilResume_ok done
  obtain rfl : t = v := Option.some.inj (own.symm.trans own')
  rcases outcome with ⟨-, -, -, woken⟩ | ⟨unset, removed, took, -⟩
  · rcases wakeAll_deadlineOf (t := t) woken with same | cleared
    · rw [same, withoutDeadline, setThread_deadlineOf, Function.update_self]
    · exact cleared
  · rw [ThreadList.removeCurrent_deadlineOf took]
    exact unset

theorem Object.IsNew.waiters {object : Object} (isNew : object.IsNew) : object.waiters = .new := by
  cases isNew <;> rfl

namespace ObjectSystem

variable {sys sys' : ObjectSystem V} {objects : Nat → Object} {memory : Nat → V}
  {e : ObjectEvent} {W : Nat → List Nat}

def Safe (sys : ObjectSystem V) : Prop := ∃ W, Orderly sys.lists sys.pause W sys.scheduler

/-- The runs in which no timer expires for a thread that an object blocks, but for a timed wait. -/
def SparesWaiters (e : ObjectEvent) (sys : ObjectSystem V) : Prop :=
  e.TimersFind (Pause.Spares sys.pause) sys.scheduler

theorem new_safe (isNew : ∀ m, (objects m).IsNew) : Safe (new objects memory) := by
  refine ⟨fun _ => [], Named.new _, SingleCore.invariant_new, ⟨?_, ?_, ?_⟩, ?_, ?_⟩
  · intro m
    rw [lists, new, (isNew m).waiters]
    rfl
  · exact fun m => List.nodup_nil
  · intro m n t member
    cases member
  · intro t
    refine .stop (fun m member => by cases member) rfl rfl ?_
    intro d set
    cases set
  · intro m t member
    cases member

theorem caller_spec (called : sys.caller SingleCore.cpu = some t) :
    sys.scheduler.executing SingleCore.cpu = some t ∧ (sys.pause t).isTimedWait = false := by
  obtain ⟨executes, untimed⟩ := Option.filter_eq_some_iff.mp called
  exact ⟨executes, by simpa using untimed⟩

theorem caller_ok (orderly : Orderly sys.lists sys.pause W sys.scheduler)
    (called : sys.caller SingleCore.cpu = some t) :
    sys.scheduler.currentTid SingleCore.cpu = some t ∧ sys.scheduler.stateOf t = .running ∧
      ∀ n, t ∉ W n := by
  obtain ⟨executes, untimed⟩ := caller_spec called
  obtain ⟨own, running⟩ := SingleCore.executing_running orderly.invariant executes
  exact ⟨own, running, orderly.absent running (Or.inl untimed)⟩

theorem reprioritised {lists : Nat → ThreadList} {pauses : Nat → Pause}
    (orderly : Orderly lists pauses W s) (after : Reprioritised SingleCore.cpu s s') :
    Orderly lists pauses W s' := by
  rcases after with rfl | ⟨t, prio, set⟩
  · exact orderly
  · exact orderly.setPriority set

/-- What a call on object `m` does, if it does not set a deadline. -/
theorem effect_untimed {pauses : Nat → Pause} {c : ObjectCall} {list : ThreadList} {more : Bool}
    {lists : Nat → ThreadList} (orderly : Orderly lists pauses W s) (untimed : c.timer = none)
    (may : c.blocking = true → ∃ t, s.currentTid SingleCore.cpu = some t ∧ (∀ n, t ∉ W n) ∧
      (c.pause m = .waits m → pauses t = .waits m))
    (effect : c.Effect SingleCore.cpu s (lists m) list s' more) :
    ∃ W', Orderly (Function.update lists m list) pauses W' s' := by
  cases effect with
  | stays =>
    rw [Function.update_eq_self]
    exact ⟨W, orderly⟩
  | put blocking waits blocks done after =>
    obtain ⟨t, own, absent, paused⟩ := may blocking
    have same : Function.update pauses t (.waits m) = pauses := by
      rw [← paused (waits m), Function.update_eq_self]
    obtain ⟨W', -, -, next⟩ := orderly.put (p := .waits m) own absent rfl blocks blocks
      (fun d set => by cases set) done
    rw [same] at next
    exact ⟨W', reprioritised next after⟩
  | pop pops before done =>
    obtain ⟨W', -, -, next⟩ := (reprioritised orderly before).pop done
    exact ⟨W', next⟩
  | popAll pops done =>
    obtain ⟨W', -, next⟩ := orderly.popAll done
    exact ⟨W', next⟩
  | expired timer done => simp [untimed] at timer
  | timed timer armed done => simp [untimed] at timer

/-- What a call on object `m` does that sets a deadline: its thread enters the list, unless the deadline
    has passed. -/
theorem effect_timed {pauses : Nat → Pause} {c : ObjectCall} {list : ThreadList} {more : Bool}
    {lists : Nat → ThreadList} {deadline : Nat} {expired : List (Nat × Nat)}
    (orderly : Orderly lists pauses W s) (own : s.currentTid SingleCore.cpu = some t)
    (running : s.stateOf t = .running) (absent : ∀ n, t ∉ W n)
    (timer : c.timer = some (deadline, expired))
    (spares : ∀ s₁, s.armDeadline SingleCore.cpu deadline = .ok s₁ →
      WakesPermitted SingleCore.cpu (Pause.Spares pauses) expired s₁)
    (effect : c.Effect SingleCore.cpu s (lists m) list s' more) :
    ∃ W', (∀ n, (W' n).erase t = W n) ∧ (∀ n, t ∈ W' n ↔ more = true ∧ n = m) ∧
      (s'.deadlineOf t = if more then some deadline else none) ∧
      (∀ u, u ≠ t → s'.stateOf u = s.stateOf u ∨ Expires s u expired) ∧
      Orderly (Function.update lists m list)
        (Function.update pauses t (if more then .timedWait m deadline else .idle)) W' s' := by
  rcases effect.of_timer timer with ⟨rfl, rfl, armed⟩ | ⟨rfl, s₁, inherit, armed, put⟩
  · obtain ⟨next, -, running', -⟩ := orderly.setDeadline own running absent spares armed
    have unset : s'.deadlineOf t = none := by simpa using (setDeadline_future own armed).1
    rw [Function.update_eq_self]
    exact ⟨W, fun n => List.erase_of_not_mem (absent n), fun n => by simp [absent], unset,
      fun u other => setDeadline_others own other armed, next.setPause running' absent _⟩
  · obtain ⟨armedOrderly, own', running', future⟩ :=
      orderly.setDeadline own running absent spares armed
    have self := armedOrderly.named.current _ t own'
    obtain ⟨W', erased, entered, next⟩ := armedOrderly.put (p := .timedWait m deadline) own' absent
      rfl rfl rfl (fun d same => by cases same; exact future rfl) put
    have set : s'.deadlineOf t = some deadline := by
      rw [ThreadList.putCurrent_deadlineOf put]
      exact future rfl
    refine ⟨W', erased, fun n => by simp [entered], set, fun u other => ?_, next⟩
    rw [ThreadList.putCurrent_stateOf own' self other put]
    exact setDeadline_others own other armed

/-- An operation leaves the lists as they are. -/
theorem op_orderly {o : Op} (orderly : Orderly sys.lists sys.pause W sys.scheduler)
    (spares : SparesWaiters (.op o) sys) (done : step (.op o) sys = .ok sys') :
    Orderly sys'.lists sys'.pause W sys'.scheduler := by
  obtain ⟨ran, lists, outcome⟩ := step_op done
  rw [lists]
  rcases outcome with ⟨blocking, t, called, pause⟩ | ⟨passes, pause⟩
  · obtain ⟨own, running, absent⟩ := caller_ok orderly called
    rw [pause]
    cases timed : o.timed with
    | true =>
      cases o with
      | sleepUntil deadline expired => exact orderly.sleepUntil own running absent spares ran
      | wake u now => cases blocking
      | _ => cases timed
    | false =>
      have idle : o.pause = .idle := by
        cases o with
        | sleepUntil deadline expired => cases timed
        | _ => rfl
      rw [idle]
      refine (orderly.setPause running absent .idle).op timed ?_ ran
      intro _ u own'
      obtain rfl : t = u := Option.some.inj (own.symm.trans own')
      exact ⟨absent, Function.update_self ..⟩
  · rw [pause]
    cases timed : o.timed with
    | true =>
      cases o with
      | sleepUntil deadline expired => cases passes
      | wake u now => exact orderly.wake spares ran
      | _ => cases timed
    | false => exact orderly.op timed (fun blocking => by simp [passes] at blocking) ran

theorem call_safe {c : ObjectCall} (safe : Safe sys) (spares : SparesWaiters (.call m c) sys)
    (done : step (.call m c) sys = .ok sys') : Safe sys' := by
  obtain ⟨W, orderly⟩ := safe
  obtain ⟨list, more, effect, lists, outcome⟩ := step_call done
  unfold Safe
  rw [lists]
  rcases outcome with ⟨blocking, t, called, pause⟩ | ⟨passes, pause⟩
  · obtain ⟨own, running, absent⟩ := caller_ok orderly called
    rw [pause]
    cases timer : c.timer with
    | none =>
      obtain rfl := effect.more_eq_false timer
      refine effect_untimed (orderly.setPause running absent _) timer (fun _ => ?_) effect
      refine ⟨t, own, absent, fun waits => ?_⟩
      rw [Function.update_self, waits]
      rfl
    | some timer' =>
      obtain ⟨deadline, expired⟩ := timer'
      have spares : TimerFinds (Pause.Spares sys.pause) sys.scheduler c.timer := spares
      rw [timer] at spares
      rw [(ObjectCall.timer_blocking m timer).2]
      obtain ⟨W', -, -, -, -, next⟩ :=
        effect_timed orderly own running absent timer spares effect
      cases more with
      | false => exact ⟨W', next⟩
      | true => exact ⟨W', next⟩
  · have untimed : c.timer = none := by
      cases timer : c.timer with
      | none => rfl
      | some timer' => exact absurd (ObjectCall.timer_blocking m timer).1 (by simp [passes])
    rw [pause]
    exact effect_untimed orderly untimed (fun blocking => by simp [passes] at blocking) effect

theorem resume_safe {expired : List (Nat × Nat)} (safe : Safe sys)
    (spares : SparesWaiters (.resume expired) sys)
    (done : step (.resume expired) sys = .ok sys') : Safe sys' := by
  obtain ⟨W, orderly⟩ := safe
  obtain ⟨t, m, deadline, list, result, executes, paused, ran, lists, pause⟩ := step_resume done
  obtain ⟨own, running⟩ := SingleCore.executing_running orderly.invariant executes
  unfold Safe
  rw [lists, pause]
  exact ⟨_, (orderly.resume own running (by rw [paused]; rfl) (spares t own) ran).2⟩

/-- One critical section keeps the lists in order. -/
theorem step_safe (safe : Safe sys) (spares : SparesWaiters e sys)
    (done : step e sys = .ok sys') : Safe sys' := by
  cases e with
  | op o =>
    obtain ⟨W, orderly⟩ := safe
    exact ⟨W, op_orderly orderly spares done⟩
  | call m c => exact call_safe safe spares done
  | resume expired => exact resume_safe safe spares done

/-- The thread is blocked on the object. -/
def Blocked (sys : ObjectSystem V) (m t : Nat) : Prop :=
  (sys.scheduler.stateOf t).inList = true ∧ (sys.pause t).object = some m

/-- The timed wait of the thread on the object expired, and the thread has not run since. -/
def TimedOut (sys : ObjectSystem V) (m t : Nat) : Prop :=
  sys.scheduler.stateOf t = .running ∧ (sys.pause t).isTimedWait = true ∧
    (sys.pause t).object = some m ∧ sys.scheduler.deadlineOf t = none

instance (sys : ObjectSystem V) (m t : Nat) : Decidable (sys.Blocked m t) :=
  inferInstanceAs (Decidable (_ ∧ _))

instance (sys : ObjectSystem V) (m t : Nat) : Decidable (sys.TimedOut m t) :=
  inferInstanceAs (Decidable (_ ∧ _))

/-- Following the links from the head of each object's list gives the threads `W`. -/
structure WellFormed (sys : ObjectSystem V) (W : Nat → List Nat) : Prop where
  links : ∀ m, (sys.lists m).Links sys.scheduler (W m)
  nodup : ∀ m, (W m).Nodup
  disjoint : ∀ {m n t}, t ∈ W m → t ∈ W n → m = n
  member : ∀ {m t}, t ∈ W m → sys.Blocked m t ∨ sys.TimedOut m t
  complete : ∀ {m t}, sys.Blocked m t → t ∈ W m

theorem wellFormed (orderly : Orderly sys.lists sys.pause W sys.scheduler) : WellFormed sys W where
  links := orderly.chained.links
  nodup := orderly.chained.nodup
  disjoint := orderly.chained.apart
  member := fun here => by
    obtain ⟨object, blocked | ⟨running, timed, unset⟩⟩ := (orderly.fits _).member here
    · exact Or.inl ⟨blocked, object⟩
    · exact Or.inr ⟨running, timed, object, unset⟩
  complete := fun {m t} blocked => by
    obtain ⟨n, here⟩ := (orderly.fits t).listed blocked.1
    obtain ⟨object, -⟩ := (orderly.fits t).member here
    rwa [Option.some.inj (blocked.2.symm.trans object)]

theorem Safe.popsAll {c : ObjectCall} (safe : Safe sys) (pops : c.popsAll = true) :
    step (.call m c) sys ≠ .error .divergence ∧
      ∀ sys', step (.call m c) sys = .ok sys' → ∀ t,
        (sys.Blocked m t → sys'.scheduler.stateOf t = .running) ∧
        (¬ sys.Blocked m t → sys'.scheduler.stateOf t = sys.scheduler.stateOf t) := by
  obtain ⟨W, orderly⟩ := safe
  have wellFormed := wellFormed orderly
  have passes := (ObjectCall.timer_of_popsAll pops).2
  have outcome : c.run SingleCore.cpu sys.scheduler sys.memory m (sys.objects m) = .error .disabled ∨
      _ := ObjectCall.run_popsAll pops
  have unfolds : step (.call m c) sys = do
      return (← sys.call SingleCore.cpu m c).1 := by
    simp only [step, passes, Bool.false_eq_true, ↓reduceIte]
    rfl
  rw [unfolds]
  rcases outcome with other | ⟨result, ran⟩
  · simp [call, other]
  · rw [call, ran]
    refine ⟨fun failed => ?_, fun sys' done t => ?_⟩
    · rcases bind_error_iff.mp failed with failed | ⟨out, -, rest⟩
      · rcases bind_error_iff.mp failed with failed | ⟨out, -, rest⟩
        · rcases bind_error_iff.mp failed with failed | ⟨out, -, rest⟩
          · have enough : (W m).length < threadCount + 2 := by
              have few := orderly.length_le m
              omega
            cases orderly.popAll_error enough failed
          · cases rest
        · cases rest
      · cases rest
    · obtain ⟨⟨sys₁, more⟩, ran, rest⟩ := bind_ok_iff.mp done
      cases rest
      obtain ⟨⟨object, s₁, memory₁, more₁⟩, ran, rest⟩ := bind_ok_iff.mp ran
      cases rest
      obtain ⟨⟨list, s₂⟩, emptied, rest⟩ := bind_ok_iff.mp ran
      cases rest
      have woken := orderly.chained.popAll (t := t) emptied
      refine ⟨fun blocked => ?_, fun free => ?_⟩
      · rw [if_pos (wellFormed.complete blocked)] at woken
        exact woken
      · split at woken
        · rename_i here
          rcases wellFormed.member here with blocked | timedOut
          · exact absurd blocked free
          · exact woken.trans timedOut.1.symm
        · exact woken

instance (e : ObjectEvent) (sys : ObjectSystem V) : Decidable (SparesWaiters e sys) :=
  have : ∀ s t, Decidable (Pause.Spares sys.pause s t) :=
    fun _ _ => inferInstanceAs (Decidable (_ → _))
  ObjectEvent.decidableTimersFind sys.scheduler e

/-- As long as no timer expires for a thread that an object blocks without a deadline, the lists are
    well-formed, and emptying one wakes the threads that are blocked on its object. -/
theorem wait_lists_wellFormed (isNew : ∀ m, (objects m).IsNew)
    (reached : Reaches step SparesWaiters (new objects memory) sys) :
    (∃ W, WellFormed sys W) ∧ ∀ m c, c = .set ∨ c = .notifyAll →
      step (.call m c) sys ≠ .error .divergence ∧
        ∀ sys', step (.call m c) sys = .ok sys' → ∀ t,
          (sys.Blocked m t → sys'.scheduler.stateOf t = .running) ∧
          (¬ sys.Blocked m t → sys'.scheduler.stateOf t = sys.scheduler.stateOf t) := by
  have safe := reached.invariant Safe (new_safe isNew)
    fun _ _ _ safe spares done => step_safe safe spares done
  refine ⟨?_, fun m c empties => ?_⟩
  · obtain ⟨W, orderly⟩ := safe
    exact ⟨W, wellFormed orderly⟩
  · rcases empties with rfl | rfl
    · exact safe.popsAll rfl
    · exact safe.popsAll rfl

section Samples

/-- Object 0 is an event that is not set, the others are wait queues. -/
def sampleObjects (m : Nat) : Object :=
  if m = 0 then .event Sync.Event.new else .waitQueue .new

theorem sampleObjects_isNew (m : Nat) : (sampleObjects m).IsNew := by
  unfold sampleObjects
  split
  · exact .event
  · exact .waitQueue

def switch : List ObjectEvent := [.op .enterPendsv, .op .sched]

/-- Threads 0 and 1 of priorities 1 and 2, the latter of which runs first. -/
def startEvents : List ObjectEvent :=
  [.op (.create 0 512 1 none), .op (.create 512 512 2 none), .op .startThreading] ++ switch

/-- Thread 1 waits for the event, and thread 0 on queue 1 until 100, when its timer goes off. -/
theorem wait_lists_wellFormed_sample : ∃ sys sys' : ObjectSystem Nat,
    (∃ W, WellFormed sys W) ∧ sys.Blocked 0 1 ∧ sys.TimedOut 1 0 ∧
      step (.call 0 .set) sys = .ok sys' ∧ sys'.scheduler.stateOf 1 = .running := by
  have run : ∃ sys, Reaches step SparesWaiters (new sampleObjects fun _ => 0) sys ∧
      (decide (sys.Blocked 0 1) && decide (sys.TimedOut 1 0) &&
        (step (.call 0 .set) sys).isOk) = true :=
    reaches_of_check (startEvents ++ [.call 0 .wait] ++ switch ++ [.call 1 (.waitUntil 100 [])] ++
      [.op (.wake 0 100)]) (by decide +kernel)
  obtain ⟨sys, reached, checked⟩ := run
  simp only [Bool.and_eq_true, decide_eq_true_eq] at checked
  obtain ⟨⟨blocked, timedOut⟩, served⟩ := checked
  cases done : step (.call 0 .set) sys with
  | error e =>
    rw [done] at served
    cases served
  | ok sys' =>
    obtain ⟨formed, empties⟩ := wait_lists_wellFormed sampleObjects_isNew reached
    exact ⟨sys, sys', formed, blocked, timedOut, done,
      (((empties 0 .set (Or.inl rfl)).2 sys' done) 1).1 blocked⟩

/-- Thread 1 is unparked early and waits for the event when the timer of its sleep expires: it is
    ready and still in the list. -/
theorem ready_in_list : ∃ sys : ObjectSystem Nat,
    Reachable step (new sampleObjects fun _ => 0) sys ∧ ¬ ∃ W, WellFormed sys W := by
  have run : ∃ sys, Reachable step (new sampleObjects fun _ => 0) sys ∧
      ((sys.lists 0).head == some 1 && decide (¬ sys.Blocked 0 1) &&
        decide (¬ sys.TimedOut 0 1)) = true :=
    reaches_of_check (startEvents ++ [.op (.sleepUntil 100 [])] ++ switch ++ [.op (.unpark 1)] ++
      switch ++ [.call 0 .wait] ++ switch ++ [.op (.wake 1 100)]) (by decide +kernel)
  obtain ⟨sys, reached, checked⟩ := run
  simp only [Bool.and_eq_true, beq_iff_eq, decide_eq_true_eq] at checked
  obtain ⟨⟨first, unblocked⟩, unexpired⟩ := checked
  refine ⟨sys, reached, ?_⟩
  intro ⟨W, formed⟩
  have chained : Chained sys.lists W sys.scheduler := ⟨formed.links, formed.nodup, formed.disjoint⟩
  rcases formed.member (chained.head_mem first) with blocked | timedOut
  · exact unblocked blocked
  · exact unexpired timedOut

end Samples

end ObjectSystem

end ArielOS
