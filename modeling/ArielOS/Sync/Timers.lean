import ArielOS.Sync.WaitLists

namespace ArielOS

open Machine Scheduler

variable {V : Type} {s s' : Scheduler} {t m : Nat}

/-- The time driver's queue: when the waker of each thread is to be called. -/
abbrev TimerQueue := Nat → Option Nat

namespace TimerQueue

/-- `schedule_wake`, but for the wakers that are called at once. -/
def schedule (timers : TimerQueue) (t time : Nat) : TimerQueue :=
  Function.update timers t (some ((timers t).elim time (min time)))

/-- Takes the entries of the given wakers out, if the time of each has come when it is called. -/
def expire : List (Nat × Nat) → TimerQueue → Option TimerQueue
  | [], timers => some timers
  | (t, now) :: expired, timers =>
    if (timers t).any fun time => time ≤ now then
      expire expired (Function.update timers t none)
    else
      none

end TimerQueue

namespace ObjectEvent

/-- The arguments of the call of `schedule_thread_wakeup`, if there is one. -/
def schedules (s : Scheduler) : ObjectEvent → Option (Nat × Nat)
  | .op o => do return ((← s.current SingleCore.cpu).tid, (← o.timer).1)
  | .call _ c => do return ((← s.current SingleCore.cpu).tid, (← c.timer).1)
  | .resume _ => do
    let thread ← s.current SingleCore.cpu
    if thread.deadline.isSome then return (thread.tid, 0) else none

/-- The wakers that the time driver calls. -/
def called (s : Scheduler) (e : ObjectEvent) : List (Nat × Nat) :=
  match e with
  | .resume expired => if (e.schedules s).isSome then expired else []
  | _ => e.wakers

/-- The deadlines when they are called. -/
def deadlines (s : Scheduler) (e : ObjectEvent) : Nat → Option Nat :=
  match e, e.schedules s with
  | .resume _, some (t, _) => Function.update s.deadlineOf t none
  | _, some (t, deadline) => Function.update s.deadlineOf t (some deadline)
  | _, none => s.deadlineOf

end ObjectEvent

/-- The threads with the queue of the time driver. -/
structure TimedSystem (V : Type) where
  base : ObjectSystem V
  timers : TimerQueue

namespace TimedSystem

def new (objects : Nat → Object) (memory : Nat → V) : TimedSystem V where
  base := .new objects memory
  timers := fun _ => none

/-- The driver calls wakers only when it takes their entries out of the queue. -/
def step (e : ObjectEvent) (sys : TimedSystem V) : Except Fault (TimedSystem V) := do
  let base ← ObjectSystem.step e sys.base
  let timers :=
    match e.schedules sys.base.scheduler with
    | some (t, time) => sys.timers.schedule t time
    | none => sys.timers
  match timers.expire (e.called sys.base.scheduler) with
  | some timers => return { base, timers }
  | none => throw .disabled

/-- The runs in which no waker is called before the deadline of its thread. -/
def Punctual (e : ObjectEvent) (sys : TimedSystem V) : Prop :=
  ∀ waker ∈ e.called sys.base.scheduler,
    ∀ deadline, e.deadlines sys.base.scheduler waker.1 = some deadline → deadline ≤ waker.2

end TimedSystem

/-- What holds of the scheduler and the first threads of the lists in every run. -/
structure Tidy (lists : Nat → ThreadList) (s : Scheduler) : Prop where
  named : s.Named fun t => ∃ m, (lists m).head = some t
  invariant : SingleCore.Invariant s

namespace Tidy

variable {lists : Nat → ThreadList} {list' : ThreadList}

theorem known (tidy : Tidy lists s) (m : Nat) : ∀ h, (lists m).head = some h → s.tidOf h = h :=
  fun h first => tidy.named.referred h ⟨m, first⟩

theorem relist (named : s.Named fun t => ∃ m, (lists m).head = some t)
    (invariant : SingleCore.Invariant s) (known : ∀ h, list'.head = some h → s.tidOf h = h) :
    Tidy (Function.update lists m list') s := by
  refine ⟨⟨named.created, named.timed, named.current, named.linked, ?_⟩, invariant⟩
  intro t ⟨n, first⟩
  by_cases same : n = m
  · rw [same, Function.update_self] at first
    exact known t first
  · rw [Function.update_of_ne same] at first
    exact named.referred t ⟨n, first⟩

theorem op {o : Op} (tidy : Tidy lists s) (done : o.run SingleCore.cpu s = .ok s') :
    Tidy lists s' :=
  have ⟨named, invariant⟩ := (SingleCore.keeps _).run tidy.named tidy.invariant
    (o.permitted_true s) (fun _ _ _ => trivial) (fun _ => trivial) done
  ⟨named, invariant⟩

theorem put {state : ThreadState} {inherit : Option Nat} (tidy : Tidy lists s)
    (stops : state ≠ .running)
    (done : (lists m).putCurrent SingleCore.cpu s state = .ok (list', s', inherit)) :
    Tidy (Function.update lists m list') s' := by
  obtain ⟨named, invariant, known⟩ := (SingleCore.keeps _).putCurrent SingleCore.invariant_link
    tidy.named tidy.invariant (tidy.known m) (fun _ _ => trivial) stops done
  exact relist named invariant known

theorem pop {popped : Option (Nat × ThreadState)} (tidy : Tidy lists s)
    (done : (lists m).pop SingleCore.cpu s = .ok (list', s', popped)) :
    Tidy (Function.update lists m list') s' := by
  obtain ⟨named, invariant, known⟩ := (SingleCore.keeps _).pop SingleCore.invariant_link
    (fun _ => trivial) tidy.named tidy.invariant (tidy.known m) (fun _ _ => trivial) done
  exact relist named invariant known

theorem removeCurrent {removed : Bool} (tidy : Tidy lists s)
    (done : (lists m).removeCurrent SingleCore.cpu s = .ok (list', s', removed)) :
    Tidy (Function.update lists m list') s' := by
  obtain ⟨named, invariant, known⟩ := (SingleCore.keeps _).removeCurrent SingleCore.invariant_link
    (fun _ => trivial) tidy.named tidy.invariant (tidy.known m) (fun _ _ _ => trivial) done
  exact relist named invariant known

theorem reprioritised (tidy : Tidy lists s) (after : Reprioritised SingleCore.cpu s s') :
    Tidy lists s' := by
  rcases after with rfl | ⟨t, prio, set⟩
  · exact tidy
  · exact tidy.op (o := .setPriority t prio) set

theorem wakeAll {expired : List (Nat × Nat)} (tidy : Tidy lists s)
    (done : Scheduler.wakeAll SingleCore.cpu expired s = .ok s') : Tidy lists s' :=
  have ⟨named, invariant⟩ := (SingleCore.keeps _).wakeAll tidy.named tidy.invariant
    (wakesPermitted_true expired s) done
  ⟨named, invariant⟩

theorem setDeadline {deadline : Nat} {expired : List (Nat × Nat)} {inFuture : Bool}
    (tidy : Tidy lists s)
    (done : s.setDeadline SingleCore.cpu deadline expired = .ok (s', inFuture)) :
    Tidy lists s' := by
  obtain ⟨s₁, armed, woken⟩ := setDeadline_ok done
  obtain ⟨named, invariant⟩ := (SingleCore.keeps _).armDeadline tidy.named tidy.invariant armed
  exact wakeAll ⟨named, invariant⟩ woken

theorem effect {c : ObjectCall} {more : Bool} (tidy : Tidy lists s)
    (effect : c.Effect SingleCore.cpu s (lists m) list' s' more) :
    Tidy (Function.update lists m list') s' := by
  cases effect with
  | stays =>
    rw [Function.update_eq_self]
    exact tidy
  | put blocking waits blocks done after =>
    refine (tidy.put ?_ done).reprioritised after
    rintro rfl
    cases blocks
  | pop pops before done => exact (tidy.reprioritised before).pop done
  | popAll pops done =>
    refine (ThreadList.popAll_keeps (P := fun list s => Tidy (Function.update lists m list) s)
      ?_ ?_ done).1
    · intro list s list' s' popped before took
      have took : (Function.update lists m list m).pop SingleCore.cpu s =
          .ok (list', s', popped) := by
        rwa [Function.update_self]
      have next := before.pop took
      rwa [Function.update_idem] at next
    · rwa [Function.update_eq_self]
  | expired timer done =>
    rw [Function.update_eq_self]
    exact tidy.setDeadline done
  | timed timer armed done => exact (tidy.setDeadline armed).put (by simp) done

theorem resume {expired : List (Nat × Nat)} {result : Bool} (tidy : Tidy lists s)
    (done : WaitQueue.waitUntilResume SingleCore.cpu (lists m) s expired =
      .ok (list', s', result)) : Tidy (Function.update lists m list') s' := by
  obtain ⟨t, -, ⟨-, rfl, -, woken⟩ | ⟨-, removed, took, -⟩⟩ := WaitQueue.waitUntilResume_ok done
  · have quiet := quiet_withoutDeadline s t
    have tidy₁ : Tidy lists (s.withoutDeadline t) :=
      ⟨tidy.named.quiet quiet, (SingleCore.keeps fun _ => False).quiet quiet tidy.invariant⟩
    rw [Function.update_eq_self]
    exact tidy₁.wakeAll woken
  · exact tidy.removeCurrent took

end Tidy

namespace TimerQueue

variable {timers timers' : TimerQueue}

theorem schedule_ne_none {time : Nat} (entered : timers t ≠ none) (u : Nat) :
    timers.schedule u time t ≠ none := by
  unfold schedule
  by_cases same : t = u
  · rw [same, Function.update_self]
    simp
  · rwa [Function.update_of_ne same]

theorem schedule_self (timers : TimerQueue) (t time : Nat) : timers.schedule t time t ≠ none := by
  simp [schedule]

/-- Only the entries of the wakers that are called leave the queue. -/
theorem expire_of_not_called {expired : List (Nat × Nat)} (done : timers.expire expired = some timers')
    (spared : ∀ now, (t, now) ∉ expired) : timers' t = timers t := by
  induction expired generalizing timers with
  | nil =>
    cases done
    rfl
  | cons first expired ih =>
    unfold expire at done
    split at done
    · have other : t ≠ first.1 := fun same => spared first.2 (by simp [same])
      rw [ih done fun now member => spared now (List.mem_cons_of_mem _ member),
        Function.update_of_ne other]
    · cases done

end TimerQueue

namespace ObjectSystem

variable {sys sys' : ObjectSystem V} {e : ObjectEvent} {d : Nat}

theorem step_tidy (tidy : Tidy sys.lists sys.scheduler) (done : step e sys = .ok sys') :
    Tidy sys'.lists sys'.scheduler := by
  cases e with
  | op o =>
    obtain ⟨ran, lists, -⟩ := step_op done
    rw [lists]
    exact tidy.op ran
  | call m c =>
    obtain ⟨list, more, effect, lists, -⟩ := step_call done
    rw [lists]
    exact tidy.effect effect
  | resume expired =>
    obtain ⟨t, m, deadline, list, result, -, -, ran, lists, -⟩ := step_resume done
    rw [lists]
    exact tidy.resume ran

theorem current_eq {refs : Nat → Prop} (named : s.Named refs)
    (own : s.currentTid SingleCore.cpu = some t) :
    s.current SingleCore.cpu = some (s.threads t) ∧ (s.threads t).tid = t := by
  refine ⟨?_, named.current _ t own⟩
  rw [current, own]
  rfl

/-- A deadline that `set_deadline` leaves set is the one it was given, or was set before. -/
theorem setDeadline_remains {deadline : Nat} {expired : List (Nat × Nat)} {inFuture : Bool} {u : Nat}
    (own : s.currentTid SingleCore.cpu = some t)
    (done : s.setDeadline SingleCore.cpu deadline expired = .ok (s', inFuture))
    (remains : s'.deadlineOf u = some d) :
    Function.update s.deadlineOf t (some deadline) u = some d ∧
      ∀ now, (u, now) ∈ expired → now < d := by
  obtain ⟨s₁, armed, woken⟩ := setDeadline_ok done
  obtain ⟨-, v, own', set⟩ := armDeadline_ok armed
  obtain rfl : t = v := Option.some.inj (own.symm.trans own')
  rw [← set]
  exact wakeAll_remains woken remains

theorem deadlines_op {o : Op} {deadline : Nat} {expired : List (Nat × Nat)} {refs : Nat → Prop}
    (named : s.Named refs) (own : s.currentTid SingleCore.cpu = some t)
    (timer : o.timer = some (deadline, expired)) :
    (ObjectEvent.op o).deadlines s = Function.update s.deadlineOf t (some deadline) ∧
      (ObjectEvent.op o).called s = expired := by
  obtain ⟨current, self⟩ := current_eq named own
  cases o with
  | sleepUntil deadline' expired' =>
    cases timer
    refine ⟨?_, rfl⟩
    simp [ObjectEvent.deadlines, ObjectEvent.schedules, current, self, Op.timer]
  | _ => cases timer

theorem deadlines_call {c : ObjectCall} {deadline : Nat} {expired : List (Nat × Nat)}
    {refs : Nat → Prop} (named : s.Named refs) (own : s.currentTid SingleCore.cpu = some t)
    (timer : c.timer = some (deadline, expired)) :
    (ObjectEvent.call m c).deadlines s = Function.update s.deadlineOf t (some deadline) ∧
      (ObjectEvent.call m c).called s = expired := by
  obtain ⟨current, self⟩ := current_eq named own
  refine ⟨?_, ?_⟩
  · simp [ObjectEvent.deadlines, ObjectEvent.schedules, current, self, timer]
  · simp [ObjectEvent.called, ObjectEvent.wakers, timer]

theorem deadlines_call_untimed {c : ObjectCall} (untimed : c.timer = none) :
    (ObjectEvent.call m c).deadlines s = s.deadlineOf ∧ (ObjectEvent.call m c).called s = [] := by
  refine ⟨?_, ?_⟩
  · cases s.current SingleCore.cpu <;>
      simp [ObjectEvent.deadlines, ObjectEvent.schedules, untimed]
  · simp [ObjectEvent.called, ObjectEvent.wakers, untimed]

theorem op_remains {o : Op} (tidy : Tidy sys.lists sys.scheduler)
    (done : step (.op o) sys = .ok sys') (remains : sys'.scheduler.deadlineOf t = some d) :
    (ObjectEvent.op o).deadlines sys.scheduler t = some d ∧
      ∀ now, (t, now) ∈ (ObjectEvent.op o).called sys.scheduler → now < d := by
  obtain ⟨ran, -, outcome⟩ := step_op done
  cases timed : o.timed with
  | false =>
    rw [Op.run_deadlineOf timed ran] at remains
    have untimed : (ObjectEvent.op o).deadlines sys.scheduler = sys.scheduler.deadlineOf ∧
        (ObjectEvent.op o).called sys.scheduler = [] := by
      cases o with
      | sleepUntil deadline expired => cases timed
      | wake u now => cases timed
      | _ =>
        refine ⟨?_, rfl⟩
        cases sys.scheduler.current SingleCore.cpu <;>
          simp [ObjectEvent.deadlines, ObjectEvent.schedules, Op.timer]
    rw [untimed.1, untimed.2]
    exact ⟨remains, fun now member => by cases member⟩
  | true =>
    cases o with
    | sleepUntil deadline expired =>
      rcases outcome with ⟨-, u, called, -⟩ | ⟨passes, -⟩
      · obtain ⟨executes, -⟩ := caller_spec called
        obtain ⟨own, -⟩ := SingleCore.executing_running tidy.invariant executes
        obtain ⟨set, wakers⟩ := deadlines_op tidy.named own (o := .sleepUntil deadline expired) rfl
        rw [set, wakers]
        obtain ⟨⟨s₁, inFuture⟩, armed, rest⟩ := bind_ok_iff.mp ran
        refine setDeadline_remains own armed ?_
        cases inFuture with
        | false =>
          cases rest
          exact remains
        | true => rwa [park_deadlineOf rest] at remains
      · cases passes
    | wake u now =>
      have woken : wakeAll SingleCore.cpu [(u, now)] sys.scheduler = .ok sys'.scheduler := by
        have ran : sys.scheduler.wake SingleCore.cpu u now = .ok sys'.scheduler := ran
        simp [wakeAll, ran]
      have unset : (ObjectEvent.op (.wake u now)).deadlines sys.scheduler =
          sys.scheduler.deadlineOf := by
        cases sys.scheduler.current SingleCore.cpu <;>
          simp [ObjectEvent.deadlines, ObjectEvent.schedules, Op.timer]
      rw [unset]
      exact wakeAll_remains woken remains
    | _ => cases timed

theorem call_remains {c : ObjectCall} (tidy : Tidy sys.lists sys.scheduler)
    (done : step (.call m c) sys = .ok sys') (remains : sys'.scheduler.deadlineOf t = some d) :
    (ObjectEvent.call m c).deadlines sys.scheduler t = some d ∧
      ∀ now, (t, now) ∈ (ObjectEvent.call m c).called sys.scheduler → now < d := by
  obtain ⟨list, more, effect, -, outcome⟩ := step_call done
  cases timer : c.timer with
  | none =>
    obtain ⟨set, wakers⟩ := deadlines_call_untimed (s := sys.scheduler) (m := m) timer
    rw [set, wakers, ← effect.deadlineOf timer]
    exact ⟨remains, fun now member => by cases member⟩
  | some timer' =>
    obtain ⟨deadline, expired⟩ := timer'
    rcases outcome with ⟨-, u, called, -⟩ | ⟨passes, -⟩
    · obtain ⟨executes, -⟩ := caller_spec called
      obtain ⟨own, -⟩ := SingleCore.executing_running tidy.invariant executes
      obtain ⟨set, wakers⟩ := deadlines_call (m := m) tidy.named own timer
      rw [set, wakers]
      obtain ⟨s₁, inFuture, armed, same⟩ := effect.armed timer
      rw [same] at remains
      exact setDeadline_remains own armed remains
    · simp [(ObjectCall.timer_blocking m timer).1] at passes

theorem resume_remains {expired : List (Nat × Nat)} (tidy : Tidy sys.lists sys.scheduler)
    (done : step (.resume expired) sys = .ok sys')
    (remains : sys'.scheduler.deadlineOf t = some d) :
    (ObjectEvent.resume expired).deadlines sys.scheduler t = some d ∧
      ∀ now, (t, now) ∈ (ObjectEvent.resume expired).called sys.scheduler → now < d := by
  obtain ⟨u, m, deadline, list, result, -, -, ran, -, -⟩ := step_resume done
  obtain ⟨v, own, outcome⟩ := WaitQueue.waitUntilResume_ok ran
  obtain ⟨current, self⟩ := current_eq tidy.named own
  rcases outcome with ⟨timed, -, -, woken⟩ | ⟨untimed, removed, took, -⟩
  · have read : (sys.scheduler.threads v).deadline.isSome = true :=
      Option.isSome_iff_ne_none.mpr timed
    have set : (ObjectEvent.resume expired).schedules sys.scheduler = some (v, 0) := by
      simp [ObjectEvent.schedules, current, self, read]
    have unset : (sys.scheduler.withoutDeadline v).deadlineOf =
        Function.update sys.scheduler.deadlineOf v none := by
      rw [withoutDeadline, setThread_deadlineOf]
    simp only [ObjectEvent.deadlines, ObjectEvent.called, set, Option.isSome_some, ↓reduceIte]
    rw [← unset]
    exact wakeAll_remains woken remains
  · have read : (sys.scheduler.threads v).deadline = none := untimed
    have none : (ObjectEvent.resume expired).schedules sys.scheduler = none := by
      simp [ObjectEvent.schedules, current, read]
    simp only [ObjectEvent.deadlines, ObjectEvent.called, none, Option.isSome_none,
      Bool.false_eq_true, ↓reduceIte, List.not_mem_nil, false_implies, implies_true, and_true]
    rwa [ThreadList.removeCurrent_deadlineOf took] at remains

/-- The deadlines after a critical section are those when its wakers were called, but for the ones
    that had passed. -/
theorem step_remains (tidy : Tidy sys.lists sys.scheduler) (done : step e sys = .ok sys')
    (remains : sys'.scheduler.deadlineOf t = some d) :
    e.deadlines sys.scheduler t = some d ∧ ∀ now, (t, now) ∈ e.called sys.scheduler → now < d := by
  cases e with
  | op o => exact op_remains tidy done remains
  | call m c => exact call_remains tidy done remains
  | resume expired => exact resume_remains tidy done remains

end ObjectSystem

namespace TimedSystem

variable {sys sys' : TimedSystem V} {e : ObjectEvent} {objects : Nat → Object}
  {memory : Nat → V} {d : Nat}

theorem step_ok (done : step e sys = .ok sys') :
    ObjectSystem.step e sys.base = .ok sys'.base ∧
      ((e.schedules sys.base.scheduler).elim sys.timers fun wake =>
        sys.timers.schedule wake.1 wake.2).expire (e.called sys.base.scheduler) =
          some sys'.timers := by
  obtain ⟨base, ran, rest⟩ := bind_ok_iff.mp done
  dsimp only at rest
  split at rest
  · rename_i timers expired
    cases rest
    refine ⟨ran, ?_⟩
    cases scheduled : e.schedules sys.base.scheduler with
    | none =>
      rw [scheduled] at expired
      exact expired
    | some wake =>
      rw [scheduled] at expired
      exact expired
  · cases rest

/-- Every thread with a deadline has an entry in the queue. -/
structure Watched (sys : TimedSystem V) : Prop where
  tidy : Tidy sys.base.lists sys.base.scheduler
  entered : ∀ t d, sys.base.scheduler.deadlineOf t = some d → sys.timers t ≠ none

theorem new_watched (isNew : ∀ m, (objects m).IsNew) : Watched (new objects memory) := by
  have fresh := Named.new .singleCore
  refine ⟨⟨⟨fresh.created, fresh.timed, fresh.current, fresh.linked, ?_⟩,
    SingleCore.invariant_new⟩, ?_⟩
  · intro t ⟨m, first⟩
    have empty : ((new objects memory).base.lists m).head = none :=
      congrArg ThreadList.head (isNew m).waiters
    simp [empty] at first
  · intro t d set
    cases set

theorem step_watched (watched : Watched sys) (punctual : Punctual e sys)
    (done : step e sys = .ok sys') : Watched sys' := by
  obtain ⟨ran, expired⟩ := step_ok done
  refine ⟨ObjectSystem.step_tidy watched.tidy ran, fun t d set => ?_⟩
  obtain ⟨before, later⟩ := ObjectSystem.step_remains watched.tidy ran set
  have spared : ∀ now, (t, now) ∉ e.called sys.base.scheduler := by
    intro now member
    have passed := punctual (t, now) member d before
    have early := later now member
    omega
  rw [TimerQueue.expire_of_not_called expired spared]
  unfold ObjectEvent.deadlines at before
  cases scheduled : e.schedules sys.base.scheduler with
  | none =>
    rw [scheduled] at before
    refine watched.entered t d ?_
    cases e <;> exact before
  | some wake =>
    obtain ⟨u, time⟩ := wake
    rw [scheduled] at before
    by_cases same : t = u
    · rw [same]
      exact TimerQueue.schedule_self sys.timers u time
    · refine TimerQueue.schedule_ne_none (watched.entered t d ?_) u
      cases e <;> simpa [Function.update_of_ne same] using before

instance (e : ObjectEvent) (sys : TimedSystem V) : Decidable (Punctual e sys) :=
  inferInstanceAs (Decidable (∀ waker ∈ e.called sys.base.scheduler, _))

/-- As long as no waker is called before the deadline of its thread, no timeout is lost. -/
theorem no_lost_timeout (isNew : ∀ m, (objects m).IsNew)
    (reached : Reaches step Punctual (new objects memory) sys) (t : Nat)
    (set : sys.base.scheduler.deadlineOf t = some d) : ∃ time, sys.timers t = some time := by
  have watched := reached.invariant Watched (new_watched isNew)
    fun _ _ _ watched punctual done => step_watched watched punctual done
  exact Option.ne_none_iff_exists'.mp (watched.entered t d set)

section Samples

open ObjectSystem

/-- Thread 1 sleeps until 100, and later waits on queue 1 until 300. -/
theorem no_lost_timeout_sample : ∃ sys : TimedSystem Nat,
    sys.base.scheduler.stateOf 1 = .waitQueueBlocked ∧
      sys.base.scheduler.deadlineOf 1 = some 300 ∧ ∃ time, sys.timers 1 = some time := by
  have run : ∃ sys, Reaches step Punctual (new sampleObjects fun _ => 0) sys ∧
      (sys.base.scheduler.stateOf 1 == .waitQueueBlocked &&
        sys.base.scheduler.deadlineOf 1 == some 300) = true :=
    reaches_of_check (startEvents ++ [.op (.sleepUntil 100 [])] ++ switch ++ [.op (.wake 1 110)] ++
      switch ++ [.call 1 (.waitUntil 300 [])] ++ switch) (by decide +kernel)
  obtain ⟨sys, reached, checked⟩ := run
  simp only [Bool.and_eq_true, beq_iff_eq] at checked
  exact ⟨sys, checked.1, checked.2, no_lost_timeout sampleObjects_isNew reached 1 checked.2⟩

/-- Thread 1 is unparked early and sleeps again for longer: the entry of its first sleep expires, and
    nothing is left to end the second one. -/
theorem lost_timeout : ∃ sys : TimedSystem Nat,
    Reachable step (new sampleObjects fun _ => 0) sys ∧ sys.base.scheduler.stateOf 1 = .parked ∧
      sys.base.scheduler.deadlineOf 1 = some 200 ∧ sys.timers 1 = none := by
  have run : ∃ sys, Reachable step (new sampleObjects fun _ => 0) sys ∧
      (sys.base.scheduler.stateOf 1 == .parked && sys.base.scheduler.deadlineOf 1 == some 200 &&
        sys.timers 1 == none) = true :=
    reaches_of_check (startEvents ++ [.op (.sleepUntil 100 [])] ++ switch ++ [.op (.unpark 1)] ++
      switch ++ [.op (.sleepUntil 200 [])] ++ switch ++ [.op (.wake 1 100)]) (by decide +kernel)
  obtain ⟨sys, reached, checked⟩ := run
  simp only [Bool.and_eq_true, beq_iff_eq] at checked
  exact ⟨sys, reached, checked.1.1, checked.1.2, checked.2⟩

end Samples

end TimedSystem

end ArielOS
