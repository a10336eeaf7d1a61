import Mathlib.Algebra.Group.Nat.Defs
import Mathlib.Logic.Function.Basic
import ArielOS.Lib.Run
import ArielOS.Lib.TimeQueue

namespace ArielOS.Esp

open Machine

inductive TimerFault
  /-- The timer rejects the shortest timeout. -/
  | failedToSchedule
  /-- Not a fault of the code: the event cannot happen in this state. -/
  | disabled
  deriving DecidableEq

/-- When the timer fires, and whether its interrupt is pending. -/
structure OneShotTimer where
  alarm : Option Nat
  interrupt : Bool
  deriving DecidableEq

namespace OneShotTimer

variable (timer : OneShotTimer)

def advance (now : Nat) : OneShotTimer :=
  if timer.alarm.any (· ≤ now) then ⟨none, true⟩ else timer

/-- `schedule` at the given time, which stops the timer and clears its interrupt first. -/
def schedule (now timeout : Nat) : OneShotTimer := ⟨some (now + timeout), false⟩

def clearInterrupt : OneShotTimer := { timer with interrupt := false }

end OneShotTimer

/-- The loop of `arm_next_wakeup`, for a timer that accepts some timeouts. -/
def acceptedTimeout (accepts : Nat → Bool) (timeout : Nat) : Except TimerFault Nat :=
  if accepts timeout then
    .ok timeout
  else if timeout ≠ 0 then
    acceptedTimeout accepts (timeout / 2)
  else
    .error .failedToSchedule
termination_by timeout
decreasing_by omega

/-- `arm_next_wakeup`, which reads the clock at `now` and starts the timer at `started`. -/
def armNextWakeup (accepts : Nat → Bool) (nextWakeup now started : Nat) :
    Except TimerFault OneShotTimer := do
  let sleepDuration := nextWakeup - now
  let timeout ← acceptedTimeout accepts (sleepDuration % 2 ^ 52)
  return .schedule started timeout

structure TimerQueueInner (Q : Type) where
  queue : Q
  nextWakeup : Nat

namespace TimerQueueInner

variable {Q : Type} (api : TimeQueue Q) (inner : TimerQueueInner Q)

def new : TimerQueueInner Q := ⟨api.empty, 2 ^ 64 - 1⟩

/-- `handle_alarm`, with the wakers that it calls. -/
def handleAlarm (now : Nat) : TimerQueueInner Q × List Nat :=
  if inner.nextWakeup ≤ now then
    let (queue, nextWakeup, woken) := api.nextExpiration now inner.queue
    (⟨queue, nextWakeup⟩, woken)
  else
    (inner, [])

/-- `schedule_wake`, with the wakers that it calls. -/
def scheduleWake (time waker now : Nat) : TimerQueueInner Q × Bool × List Nat :=
  match api.scheduleWake time waker inner.queue with
  | (queue, true, woken) =>
    let (queue, nextWakeup, expired) := api.nextExpiration now queue
    (⟨queue, nextWakeup⟩, true, woken ++ expired)
  | (queue, false, woken) => ({ inner with queue }, false, woken)

end TimerQueueInner

/-- Where `timer_handler` is: it has read the clock, or has handled the alarm at the time read and has
    to program the timer. -/
inductive HandlerPhase
  | idle
  | entered (now : Nat)
  | handled (now nextWakeup : Nat)
  deriving DecidableEq

/-- The driver behind `init`. `due`, the earliest time for which each waker was scheduled since it was
    called last, is not part of the program's state. -/
structure TimeDriver (Q : Type) where
  inner : TimerQueueInner Q
  timer : OneShotTimer
  handler : HandlerPhase
  clock : Nat
  due : Nat → Option Nat

/-- `scheduleWake` is one critical section, which reads the clock at `now` and `read` and starts the
    timer at `started`. The handler enters, handles the alarm and programs the timer one after the
    other. -/
inductive TimeEvent
  | tick (now : Nat)
  | scheduleWake (time waker now read started : Nat)
  | enter
  | handleAlarm
  | program (read started : Nat)
  deriving DecidableEq

namespace TimeDriver

variable {Q : Type} (api : TimeQueue Q) (accepts : Nat → Bool)

def new : TimeDriver Q := ⟨.new api, ⟨none, false⟩, .idle, 0, fun _ => none⟩

/-- The wakers have been called. -/
def called (due : Nat → Option Nat) (woken : List Nat) (u : Nat) : Option Nat :=
  if u ∈ woken then none else due u

def requested (due : Nat → Option Nat) (time u : Nat) : Nat → Option Nat :=
  Function.update due u (some ((due u).elim time (min time)))

def step (e : TimeEvent) (sys : TimeDriver Q) : Except TimerFault (TimeDriver Q) :=
  match e with
  | .tick now =>
    if sys.clock ≤ now then
      .ok { sys with timer := sys.timer.advance now, clock := now }
    else
      .error .disabled
  | .scheduleWake time waker now read started =>
    if sys.clock ≤ now ∧ now ≤ read ∧ read ≤ started then
      match sys.inner.scheduleWake api time waker now with
      | (inner, true, woken) => do
        let timer ← armNextWakeup accepts inner.nextWakeup read started
        return { sys with
          inner, timer, clock := started, due := called (requested sys.due time waker) woken }
      | (inner, false, woken) =>
        .ok { sys with inner, due := called (requested sys.due time waker) woken }
    else
      .error .disabled
  | .enter =>
    if sys.handler = .idle ∧ sys.timer.interrupt then
      .ok { sys with handler := .entered sys.clock }
    else
      .error .disabled
  | .handleAlarm =>
    match sys.handler with
    | .entered now =>
      let (inner, woken) := sys.inner.handleAlarm api now
      .ok { sys with inner, handler := .handled now inner.nextWakeup, due := called sys.due woken }
    | _ => .error .disabled
  | .program read started =>
    match sys.handler with
    | .handled _ nextWakeup =>
      if sys.clock ≤ read ∧ read ≤ started then
        if nextWakeup < 2 ^ 64 - 1 then do
          let timer ← armNextWakeup accepts nextWakeup read started
          return { sys with timer, handler := .idle, clock := started }
        else
          .ok { sys with timer := sys.timer.clearInterrupt, handler := .idle }
      else
        .error .disabled
    | _ => .error .disabled

variable {api : TimeQueue Q} {accepts : Nat → Bool} {sys sys' : TimeDriver Q} {e : TimeEvent}
  {lag t u : Nat}

/-- The runs in which no timer is scheduled between the two parts of the handler, and in which at most
    `lag` passes between the last look at the clock and the start of the timer. -/
def Prompt (lag : Nat) (e : TimeEvent) (sys : TimeDriver Q) : Prop :=
  match e with
  | .scheduleWake _ _ _ read started =>
    (∀ now nextWakeup, sys.handler ≠ .handled now nextWakeup) ∧ started ≤ read + lag
  | .program read started => started ≤ read + lag
  | _ => True

/-- The alarm is set for the first entry of the queue, unless the handler is about to look for it. -/
structure Armed (api : TimeQueue Q) (lag : Nat) (sys : TimeDriver Q) : Prop where
  earliest : ∀ u t, (u, t) ∈ api.timers sys.inner.queue → sys.inner.nextWakeup ≤ t
  requested : ∀ u t, sys.due u = some t → ∃ t' ≤ t, (u, t') ∈ api.timers sys.inner.queue
  handled : ∀ now nextWakeup, sys.handler = .handled now nextWakeup →
    nextWakeup = sys.inner.nextWakeup ∧
      ∀ u t, (u, t) ∈ api.timers sys.inner.queue → now < t
  alarm : sys.handler = .idle → sys.timer.interrupt = false → sys.inner.nextWakeup < 2 ^ 64 - 1 →
    ∃ a, sys.timer.alarm = some a ∧ sys.clock ≤ a ∧ a ≤ max sys.inner.nextWakeup sys.clock + lag

theorem acceptedTimeout_le {timeout accepted : Nat}
    (done : acceptedTimeout accepts timeout = .ok accepted) : accepted ≤ timeout := by
  induction timeout using Nat.strongRecOn with
  | ind timeout ih =>
    unfold acceptedTimeout at done
    split at done
    · cases done
      exact Nat.le_refl _
    · split at done
      · have half := ih (timeout / 2) (by omega) done
        omega
      · cases done

theorem armNextWakeup_ok {nextWakeup read started : Nat} {timer : OneShotTimer}
    (done : armNextWakeup accepts nextWakeup read started = .ok timer)
    (prompt : started ≤ read + lag) : timer.interrupt = false ∧
      ∃ a, timer.alarm = some a ∧ started ≤ a ∧ a ≤ max nextWakeup started + lag := by
  obtain ⟨timeout, accepted, rest⟩ := bind_ok_iff.mp done
  cases rest
  have short : timeout ≤ nextWakeup - read :=
    Nat.le_trans (acceptedTimeout_le accepted) (Nat.mod_le _ _)
  refine ⟨rfl, started + timeout, rfl, Nat.le_add_right _ _, ?_⟩
  omega

theorem called_eq_some {due : Nat → Option Nat} {woken : List Nat}
    (here : called due woken u = some t) : u ∉ woken ∧ due u = some t := by
  unfold called at here
  split at here
  · cases here
  · rename_i quiet
    exact ⟨quiet, here⟩

/-- A request is in the queue, or its waker was called. -/
theorem requested_kept {due : Nat → Option Nat} {q : Q} {time w : Nat}
    (before : ∀ u t, due u = some t → ∃ t' ≤ t, (u, t') ∈ api.timers q)
    (quiet : u ∉ (api.scheduleWake time w q).2.2)
    (here : requested due time w u = some t) :
    ∃ t' ≤ t, (u, t') ∈ api.timers (api.scheduleWake time w q).1 := by
  have kept : ∀ old, due u = some old →
      ∃ t' ≤ old, (u, t') ∈ api.timers (api.scheduleWake time w q).1 := by
    intro old known
    obtain ⟨t₁, le, member⟩ := before u old known
    rcases api.schedule_kept time w q u t₁ member with ⟨t', le', member'⟩ | gone
    · exact ⟨t', Nat.le_trans le' le, member'⟩
    · exact absurd gone quiet
  unfold requested at here
  by_cases own : u = w
  · subst own
    rw [Function.update_self] at here
    cases known : due u with
    | none =>
      rw [known] at here
      cases here
      exact api.schedule_entry time u q
    | some old =>
      rw [known] at here
      obtain rfl : min time old = t := Option.some.inj here
      rcases Nat.le_total time old with first | first
      · rw [Nat.min_eq_left first]
        exact api.schedule_entry time u q
      · rw [Nat.min_eq_right first]
        exact kept old known
  · rw [Function.update_of_ne own] at here
    exact kept t here

theorem handleAlarm_ok {inner : TimerQueueInner Q} (now : Nat)
    (earliest : ∀ u t, (u, t) ∈ api.timers inner.queue → inner.nextWakeup ≤ t) :
    (∀ u t, (u, t) ∈ api.timers (inner.handleAlarm api now).1.queue →
        (inner.handleAlarm api now).1.nextWakeup ≤ t ∧ now < t) ∧
      ∀ u t, (u, t) ∈ api.timers inner.queue →
        (u, t) ∈ api.timers (inner.handleAlarm api now).1.queue ∨ u ∈ (inner.handleAlarm api now).2 := by
  unfold TimerQueueInner.handleAlarm
  split
  · exact ⟨fun u t member => ⟨api.next_first now _ u t member, api.next_later now _ u t member⟩,
      api.next_kept now _⟩
  · rename_i early
    refine ⟨fun u t member => ?_, fun u t member => Or.inl member⟩
    have first := earliest u t member
    exact ⟨first, by omega⟩

theorem scheduleWake_cases (api : TimeQueue Q) (inner : TimerQueueInner Q) (time w now : Nat) :
    (inner.scheduleWake api time w now = (⟨(api.nextExpiration now (api.scheduleWake time w
        inner.queue).1).1, (api.nextExpiration now (api.scheduleWake time w inner.queue).1).2.1⟩,
        true, (api.scheduleWake time w inner.queue).2.2 ++
          (api.nextExpiration now (api.scheduleWake time w inner.queue).1).2.2)) ∨
      (api.scheduleWake time w inner.queue).2.1 = false ∧ inner.scheduleWake api time w now =
        (⟨(api.scheduleWake time w inner.queue).1, inner.nextWakeup⟩, false,
          (api.scheduleWake time w inner.queue).2.2) := by
  unfold TimerQueueInner.scheduleWake
  rcases api.scheduleWake time w inner.queue with ⟨queue, changed, woken⟩
  cases changed with
  | true => exact Or.inl rfl
  | false => exact Or.inr ⟨rfl, rfl⟩

theorem step_armed (armed : Armed api lag sys) (prompt : Prompt lag e sys)
    (done : step api accepts e sys = .ok sys') : Armed api lag sys' := by
  cases e with
  | tick now =>
    simp only [step] at done
    split at done
    · rename_i forward
      cases done
      refine ⟨armed.earliest, armed.requested, armed.handled, fun idle quiet finite => ?_⟩
      change (sys.timer.advance now).interrupt = false at quiet
      change ∃ a, (sys.timer.advance now).alarm = some a ∧ now ≤ a ∧
        a ≤ max sys.inner.nextWakeup now + lag
      unfold OneShotTimer.advance at quiet ⊢
      split at quiet
      · cases quiet
      · rename_i waits
        rw [if_neg waits]
        obtain ⟨a, set, later, bound⟩ := armed.alarm idle quiet finite
        rw [set, Option.any_some, decide_eq_true_iff] at waits
        exact ⟨a, set, by omega, by omega⟩
    · cases done
  | scheduleWake time waker now read started =>
    obtain ⟨outside, prompt⟩ := prompt
    simp only [step] at done
    split at done
    · rename_i order
      rcases scheduleWake_cases api sys.inner time waker now with changed | ⟨same, unchanged⟩
      · simp only [changed] at done
        obtain ⟨timer, set, rest⟩ := bind_ok_iff.mp done
        cases rest
        obtain ⟨-, a, alarm, later, bound⟩ := armNextWakeup_ok set prompt
        refine ⟨api.next_first now _, fun u t here => ?_, fun n m handled => ?_,
          fun _ _ _ => ⟨a, alarm, later, bound⟩⟩
        · obtain ⟨quiet, here⟩ := called_eq_some here
          rw [List.mem_append, not_or] at quiet
          obtain ⟨t', le, member⟩ := requested_kept armed.requested quiet.1 here
          rcases api.next_kept now _ u t' member with kept | gone
          · exact ⟨t', le, kept⟩
          · exact absurd gone quiet.2
        · exact absurd handled (outside n m)
      · simp only [unchanged] at done
        cases done
        have timers := api.schedule_same time waker sys.inner.queue same
        refine ⟨?_, fun u t here => ?_, fun n m handled => absurd handled (outside n m), armed.alarm⟩
        · show ∀ u t, (u, t) ∈ api.timers (api.scheduleWake time waker sys.inner.queue).1 → _
          rw [timers]
          exact armed.earliest
        · obtain ⟨quiet, here⟩ := called_eq_some here
          exact requested_kept armed.requested quiet here
    · cases done
  | enter =>
    simp only [step] at done
    split at done
    · cases done
      exact ⟨armed.earliest, armed.requested, nofun, nofun⟩
    · cases done
  | handleAlarm =>
    simp only [step] at done
    split at done
    · rename_i now entered
      cases done
      obtain ⟨entries, kept⟩ := handleAlarm_ok now armed.earliest
      refine ⟨fun u t member => (entries u t member).1, fun u t here => ?_, fun n m handled => ?_, nofun⟩
      · obtain ⟨quiet, here⟩ := called_eq_some here
        obtain ⟨t', le, member⟩ := armed.requested u t here
        rcases kept u t' member with stays | gone
        · exact ⟨t', le, stays⟩
        · exact absurd gone quiet
      · cases handled
        exact ⟨rfl, fun u t member => (entries u t member).2⟩
    · cases done
  | program read started =>
    simp only [step] at done
    split at done
    · rename_i now nextWakeup handled
      obtain ⟨rfl, -⟩ := armed.handled _ _ handled
      split at done
      · rename_i forward
        split at done
        · obtain ⟨timer, set, rest⟩ := bind_ok_iff.mp done
          cases rest
          obtain ⟨-, a, alarm, later, bound⟩ := armNextWakeup_ok set prompt
          exact ⟨armed.earliest, armed.requested, nofun, fun _ _ _ => ⟨a, alarm, later, bound⟩⟩
        · rename_i last
          cases done
          exact ⟨armed.earliest, armed.requested, nofun, fun _ _ finite => absurd finite last⟩
      · cases done
    · cases done

theorem new_armed : Armed api lag (new api) where
  earliest u t member := by
    rw [show (new api).inner.queue = api.empty from rfl, api.timers_empty] at member
    cases member
  requested _ _ := nofun
  handled _ _ := nofun
  alarm _ _ finite := absurd finite (Nat.lt_irrefl _)

instance (lag : Nat) (e : TimeEvent) (sys : TimeDriver Q) : Decidable (Prompt lag e sys) :=
  match e with
  | .scheduleWake _ _ _ read started =>
    match same : sys.handler with
    | .handled now nextWakeup => isFalse fun prompt => prompt.1 now nextWakeup same
    | .idle | .entered _ =>
      decidable_of_iff (started ≤ read + lag)
        ⟨fun bound => ⟨fun _ _ other => (by rw [same] at other; cases other), bound⟩, And.right⟩
  | .program read started => inferInstanceAs (Decidable (started ≤ read + lag))
  | .tick _ | .enter | .handleAlarm => isTrue trivial

/-- Waker 3 is scheduled between the two parts of the handler, which then programs the timer for the
    later time that it found before. -/
example : ((runAll (step TimeQueue.list fun _ => true) (fun _ _ => True)
    [.scheduleWake 100 1 0 0 0, .scheduleWake 1000 2 0 0 0, .tick 100, .enter, .handleAlarm,
      .scheduleWake 200 3 100 100 100, .program 101 101] (new TimeQueue.list)).map fun sys =>
        (sys.due 3, sys.timer)) = some (some 200, ⟨some 1000, false⟩) := by
  decide +kernel

end TimeDriver

end ArielOS.Esp
