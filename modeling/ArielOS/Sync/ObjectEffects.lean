import ArielOS.Sync.ChannelSpec
import ArielOS.Sync.MutexSpec
import ArielOS.Sync.Objects

namespace ArielOS

open Machine Scheduler

variable {cpu : Cpu} {s s' : Scheduler} {V : Type} {memory memory' : Nat → V} {self : Nat}
  {object object' : Object} {list list' : ThreadList} {more : Bool}

/-- At most a priority is changed. -/
def Reprioritised (cpu : Cpu) (s s' : Scheduler) : Prop :=
  s' = s ∨ ∃ t prio, s.setPriority cpu t prio = .ok s'

theorem Reprioritised.stateOf (after : Reprioritised cpu s s') : s'.stateOf = s.stateOf := by
  rcases after with rfl | ⟨t, prio, set⟩
  · rfl
  · exact (setPriority_keeps set).1

theorem Reprioritised.deadlineOf (after : Reprioritised cpu s s') : s'.deadlineOf = s.deadlineOf := by
  rcases after with rfl | ⟨t, prio, set⟩
  · rfl
  · exact setPriority_deadlineOf set

namespace ObjectCall

/-- The calls that wake the first thread of the list, if they find one they can serve. -/
def popsOne : ObjectCall → Bool
  | .unlock | .release | .send _ | .trySend _ | .recv _ | .tryRecv _ | .notifyOne => true
  | _ => false

def popsAll : ObjectCall → Bool
  | .set | .notifyAll => true
  | _ => false

/-- What a call does to the list of its object and to the scheduler. -/
inductive Effect (cpu : Cpu) (s : Scheduler) (list : ThreadList) (c : ObjectCall) :
    ThreadList → Scheduler → Bool → Prop
  | stays (untimed : c.timer = none) : Effect cpu s list c list s false
  | put {state list' s₁ s' inherit} (blocking : c.blocking = true)
      (untimed : ∀ self, c.pause self = .waits self) (blocks : state.inList = true)
      (done : list.putCurrent cpu s state = .ok (list', s₁, inherit))
      (after : Reprioritised cpu s₁ s') : Effect cpu s list c list' s' false
  | pop {s₁ list' s' popped} (pops : c.popsOne = true) (before : Reprioritised cpu s s₁)
      (done : list.pop cpu s₁ = .ok (list', s', popped)) : Effect cpu s list c list' s' false
  | popAll {fuel list' s'} (pops : c.popsAll = true)
      (done : ThreadList.popAll cpu fuel list s = .ok (list', s')) :
      Effect cpu s list c list' s' false
  | expired {deadline expired s'} (timer : c.timer = some (deadline, expired))
      (done : s.setDeadline cpu deadline expired = .ok (s', false)) :
      Effect cpu s list c list s' false
  | timed {deadline expired s₁ list' s' inherit} (timer : c.timer = some (deadline, expired))
      (armed : s.setDeadline cpu deadline expired = .ok (s₁, true))
      (done : list.putCurrent cpu s₁ .waitQueueBlocked = .ok (list', s', inherit)) :
      Effect cpu s list c list' s' true

theorem timer_blocking {c : ObjectCall} {deadline : Nat} {expired : List (Nat × Nat)} (self : Nat)
    (timer : c.timer = some (deadline, expired)) :
    c.blocking = true ∧ c.pause self = .timedWait self deadline := by
  cases c with
  | waitUntil d e => cases timer; exact ⟨rfl, rfl⟩
  | waitUntilWithCheck check d e =>
    cases check with
    | true => cases timer
    | false => cases timer; exact ⟨rfl, rfl⟩
  | _ => cases timer

theorem Effect.more_eq_false {c : ObjectCall} (untimed : c.timer = none)
    (effect : Effect cpu s list c list' s' more) : more = false := by
  cases effect with
  | timed timer armed done => simp [untimed] at timer
  | _ => rfl

theorem timer_of_popsOne {c : ObjectCall} (pops : c.popsOne = true) : c.timer = none := by
  cases c with
  | waitUntil deadline expired | waitUntilWithCheck check deadline expired => cases pops
  | _ => rfl

theorem timer_of_popsAll {c : ObjectCall} (pops : c.popsAll = true) :
    c.timer = none ∧ c.blocking = false := by
  cases c with
  | set | notifyAll => exact ⟨rfl, rfl⟩
  | _ => cases pops

/-- A call without a timer leaves the deadlines as they are. -/
theorem Effect.deadlineOf {c : ObjectCall} (untimed : c.timer = none)
    (effect : Effect cpu s list c list' s' more) : s'.deadlineOf = s.deadlineOf := by
  cases effect with
  | stays => rfl
  | put blocking waits blocks done after =>
    rw [after.deadlineOf, ThreadList.putCurrent_deadlineOf done]
  | pop pops before done => rw [ThreadList.pop_deadlineOf done, before.deadlineOf]
  | popAll pops done =>
    refine (ThreadList.popAll_keeps (P := fun _ s' => s'.deadlineOf = s.deadlineOf) ?_ rfl done).1
    exact fun same took => (ThreadList.pop_deadlineOf took).trans same
  | expired timer => simp [untimed] at timer
  | timed timer => simp [untimed] at timer

/-- A call that sets a deadline waits in the list if the deadline is in the future. -/
theorem Effect.of_timer {c : ObjectCall} {deadline : Nat} {expired : List (Nat × Nat)}
    (timer : c.timer = some (deadline, expired)) (effect : Effect cpu s list c list' s' more) :
    (more = false ∧ list' = list ∧ s.setDeadline cpu deadline expired = .ok (s', false)) ∨
      (more = true ∧ ∃ s₁ inherit, s.setDeadline cpu deadline expired = .ok (s₁, true) ∧
        list.putCurrent cpu s₁ .waitQueueBlocked = .ok (list', s', inherit)) := by
  cases effect with
  | stays untimed => simp [untimed] at timer
  | put blocking waits blocks done after =>
    have paused := (timer_blocking 0 timer).2
    rw [waits 0] at paused
    cases paused
  | pop pops before done => simp [timer_of_popsOne pops] at timer
  | popAll pops done => simp [(timer_of_popsAll pops).1] at timer
  | expired timer' done =>
    obtain ⟨rfl, rfl⟩ := Prod.mk.inj (Option.some.inj (timer.symm.trans timer'))
    exact Or.inl ⟨rfl, rfl, done⟩
  | timed timer' armed done =>
    obtain ⟨rfl, rfl⟩ := Prod.mk.inj (Option.some.inj (timer.symm.trans timer'))
    exact Or.inr ⟨rfl, _, _, armed, done⟩

theorem Effect.armed {c : ObjectCall} {deadline : Nat} {expired : List (Nat × Nat)}
    (timer : c.timer = some (deadline, expired)) (effect : Effect cpu s list c list' s' more) :
    ∃ s₁ inFuture, s.setDeadline cpu deadline expired = .ok (s₁, inFuture) ∧
      s'.deadlineOf = s₁.deadlineOf := by
  rcases effect.of_timer timer with ⟨-, -, armed⟩ | ⟨-, s₁, inherit, armed, put⟩
  · exact ⟨s', false, armed, rfl⟩
  · exact ⟨s₁, true, armed, ThreadList.putCurrent_deadlineOf put⟩

theorem new_of_head (empty : list.head = none) : list = .new := by
  cases list
  exact congrArg ThreadList.mk empty

theorem lock_effect {state state' : LockState} (done : state.lock cpu s = .ok (state', s')) :
    Effect cpu s state.waiters .lock state'.waiters s' false := by
  rcases LockState.lock_ok done with ⟨rfl, rfl, t, -, rfl⟩ |
    ⟨owner, prio, list, list', s₁, inherit, rfl, put, rfl, raised⟩
  · exact .stays rfl
  · refine .put rfl (fun _ => rfl) rfl put ?_
    rcases raised with ⟨rfl, -⟩ | ⟨raised, -, -, set⟩
    · exact Or.inl rfl
    · exact Or.inr ⟨owner, raised, set⟩

theorem tryLock_effect {state state' : LockState} {acquired : Bool}
    (done : state.tryLock cpu s = .ok (state', acquired)) :
    Effect cpu s state.waiters .tryLock state'.waiters s false := by
  rcases LockState.tryLock_ok done with ⟨rfl, -, t, -, rfl⟩ | ⟨-, rfl⟩
  · exact .stays rfl
  · exact .stays rfl

theorem unlock_effect {state state' : LockState} (done : state.release cpu s = .ok (state', s')) :
    Effect cpu s state.waiters .unlock state'.waiters s' false := by
  cases state with
  | unlocked =>
    cases done
    exact .stays rfl
  | locked owner prio list =>
    obtain ⟨s₁, list', popped, reset, took, outcome⟩ := LockState.release_ok done
    have effect : Effect cpu s list .unlock list' s' false :=
      .pop rfl (Or.inr ⟨owner, prio, reset⟩) took
    rcases outcome with ⟨rfl, rfl⟩ | ⟨h, old, -, rfl⟩
    · rcases ThreadList.pop_ok took with ⟨empty, rfl, -, -⟩ | ⟨head, old, -, -, some, -⟩
      · rw [new_of_head empty] at effect ⊢
        exact effect
      · cases some
    · exact effect

theorem block_effect {c : ObjectCall} {state' : Sync.LockState} (blocking : c.blocking = true)
    (untimed : ∀ self, c.pause self = .waits self)
    (done : Sync.LockState.block cpu s list = .ok (state', s')) :
    Effect cpu s list c state'.waiters s' false := by
  obtain ⟨⟨list', s₁, inherit⟩, put, rest⟩ := bind_ok_iff.mp done
  cases rest
  exact .put blocking untimed rfl put (Or.inl rfl)

theorem release_effect {state state' : Sync.LockState}
    (done : Sync.Lock.release cpu s state = .ok (state', s')) :
    Effect cpu s state.waiters .release state'.waiters s' false := by
  cases state with
  | unlocked =>
    cases done
    exact .stays rfl
  | locked list =>
    obtain ⟨⟨list', s₁, popped⟩, took, rest⟩ := bind_ok_iff.mp done
    cases rest
    have effect : Effect cpu s list .release list' s' false := .pop rfl (Or.inl rfl) took
    cases popped with
    | none =>
      rcases ThreadList.pop_ok took with ⟨empty, rfl, -, -⟩ | ⟨head, old, -, -, some, -⟩
      · rw [new_of_head empty] at effect
        rw [new_of_head empty]
        exact effect
      · cases some
    | some head => exact effect

theorem set_effect {state state' : Sync.LockState}
    (done : Sync.Event.set cpu s state = .ok (state', s')) :
    Effect cpu s state.waiters .set state'.waiters s' false := by
  cases state with
  | unlocked =>
    cases done
    exact .stays rfl
  | locked list =>
    obtain ⟨⟨list', s₁⟩, took, rest⟩ := bind_ok_iff.mp done
    cases rest
    have empty := (ThreadList.popAll_keeps (P := fun _ _ => True) (fun _ _ => trivial) trivial took).2
    rw [new_of_head empty] at took
    exact .popAll rfl took

theorem waits_effect {c : ObjectCall} {receives : Bool} {ptr : Nat} {state state' : ChannelState}
    (blocking : c.blocking = true) (untimed : ∀ self, c.pause self = .waits self)
    (waits : ChannelState.Waits cpu receives ptr state state' s s') :
    Effect cpu s state.waiters c state'.waiters s' false := by
  obtain ⟨-, list, inherit, put, rfl⟩ := waits
  rw [ChannelState.waiting_waiters]
  refine .put blocking untimed ?_ put (Or.inl rfl)
  cases receives <;> rfl

theorem meets_effect {c : ObjectCall} {receives : Bool} {ptr : Nat} {state state' : ChannelState}
    (pops : c.popsOne = true)
    (meets : ChannelState.Meets cpu receives ptr state state' s s' memory memory') :
    Effect cpu s state.waiters c state'.waiters s' false := by
  obtain ⟨-, list, h, otherPtr, took, rfl, -⟩ := meets
  rw [ChannelState.afterPop_waiters]
  exact .pop pops (Or.inl rfl) took

theorem send_effect {something : Nat} {state state' : ChannelState}
    (done : state.send cpu s memory self something = .ok (state', s', memory')) :
    Effect cpu s state.waiters (.send something) state'.waiters s' false := by
  cases alone : state.hasSenders with
  | false =>
    rcases ChannelState.send_ok alone done with ⟨waits, -⟩ | meets
    · exact waits_effect rfl (fun _ => rfl) waits
    · exact meets_effect rfl meets
  | true =>
    cases state with
    | sendersWaiting list =>
      obtain ⟨⟨list', s₁, inherit⟩, put, rest⟩ := bind_ok_iff.mp done
      cases rest
      exact .put rfl (fun _ => rfl) rfl put (Or.inl rfl)
    | _ => cases alone

theorem waitUntil_effect {c : ObjectCall} {deadline : Nat} {expired : List (Nat × Nat)}
    (timer : c.timer = some (deadline, expired))
    (done : WaitQueue.waitUntil cpu list s deadline expired = .ok (list', s', more)) :
    Effect cpu s list c list' s' more := by
  obtain ⟨⟨s₁, inFuture⟩, armed, rest⟩ := bind_ok_iff.mp done
  cases inFuture with
  | true =>
    obtain ⟨⟨list₁, s₂, inherit⟩, put, rest⟩ := bind_ok_iff.mp rest
    cases rest
    exact .timed timer armed put
  | false =>
    cases rest
    exact .expired timer armed

theorem run_effect {c : ObjectCall}
    (done : c.run cpu s memory self object = .ok (object', s', memory', more)) :
    Effect cpu s object.waiters c object'.waiters s' more := by
  cases c with
  | lock =>
    cases object with
    | mutex state =>
      obtain ⟨⟨state', s₁⟩, ran, rest⟩ := bind_ok_iff.mp done
      cases rest
      exact lock_effect ran
    | _ => cases done
  | tryLock =>
    cases object with
    | mutex state =>
      obtain ⟨⟨state', acquired⟩, ran, rest⟩ := bind_ok_iff.mp done
      cases rest
      exact tryLock_effect ran
    | _ => cases done
  | unlock =>
    cases object with
    | mutex state =>
      obtain ⟨⟨state', s₁⟩, ran, rest⟩ := bind_ok_iff.mp done
      cases rest
      exact unlock_effect ran
    | _ => cases done
  | acquire =>
    cases object with
    | lock state =>
      obtain ⟨⟨state', s₁⟩, ran, rest⟩ := bind_ok_iff.mp done
      cases rest
      cases state with
      | unlocked => cases ran; exact .stays rfl
      | locked list => exact block_effect rfl (fun _ => rfl) ran
    | _ => cases done
  | tryAcquire =>
    cases object with
    | lock state =>
      cases done
      cases state <;> exact .stays rfl
    | _ => cases done
  | release =>
    cases object with
    | lock state =>
      obtain ⟨⟨state', s₁⟩, ran, rest⟩ := bind_ok_iff.mp done
      cases rest
      exact release_effect ran
    | _ => cases done
  | wait =>
    cases object with
    | event state =>
      obtain ⟨⟨state', s₁⟩, ran, rest⟩ := bind_ok_iff.mp done
      cases rest
      cases state with
      | unlocked => cases ran; exact .stays rfl
      | locked list => exact block_effect rfl (fun _ => rfl) ran
    | _ => cases done
  | clear =>
    cases object with
    | event state =>
      cases done
      cases state <;> exact .stays rfl
    | _ => cases done
  | set =>
    cases object with
    | event state =>
      obtain ⟨⟨state', s₁⟩, ran, rest⟩ := bind_ok_iff.mp done
      cases rest
      exact set_effect ran
    | _ => cases done
  | send something =>
    cases object with
    | channel state =>
      obtain ⟨⟨state', s₁, memory₁⟩, ran, rest⟩ := bind_ok_iff.mp done
      cases rest
      exact send_effect ran
    | _ => cases done
  | trySend something =>
    cases object with
    | channel state =>
      obtain ⟨⟨state', s₁, memory₁, sent⟩, ran, rest⟩ := bind_ok_iff.mp done
      cases rest
      rcases ChannelState.trySend_ok ran with ⟨-, rfl, rfl, -⟩ | ⟨-, meets⟩
      · exact .stays rfl
      · exact meets_effect rfl meets
    | _ => cases done
  | recv res =>
    cases object with
    | channel state =>
      obtain ⟨⟨state', s₁, memory₁⟩, ran, rest⟩ := bind_ok_iff.mp done
      cases rest
      rcases ChannelState.recv_ok ran with ⟨waits, -⟩ | meets
      · exact waits_effect rfl (fun _ => rfl) waits
      · exact meets_effect rfl meets
    | _ => cases done
  | tryRecv res =>
    cases object with
    | channel state =>
      obtain ⟨⟨state', s₁, memory₁, received⟩, ran, rest⟩ := bind_ok_iff.mp done
      cases rest
      rcases ChannelState.tryRecv_ok ran with ⟨-, rfl, rfl, -⟩ | ⟨-, meets⟩
      · exact .stays rfl
      · exact meets_effect rfl meets
    | _ => cases done
  | queueWait =>
    cases object with
    | waitQueue list =>
      obtain ⟨⟨list', s₁⟩, ran, rest⟩ := bind_ok_iff.mp done
      cases rest
      obtain ⟨⟨list₂, s₂, inherit⟩, put, rest⟩ := bind_ok_iff.mp ran
      cases rest
      exact .put rfl (fun _ => rfl) rfl put (Or.inl rfl)
    | _ => cases done
  | waitUntil deadline expired =>
    cases object with
    | waitQueue list =>
      obtain ⟨⟨list', s₁, waits⟩, ran, rest⟩ := bind_ok_iff.mp done
      cases rest
      exact waitUntil_effect rfl ran
    | _ => cases done
  | waitUntilWithCheck check deadline expired =>
    cases object with
    | waitQueue list =>
      obtain ⟨⟨list', s₁, waits⟩, ran, rest⟩ := bind_ok_iff.mp done
      cases rest
      cases check with
      | true => cases ran; exact .stays rfl
      | false => exact waitUntil_effect rfl ran
    | _ => cases done
  | notifyOne =>
    cases object with
    | waitQueue list =>
      obtain ⟨⟨list', s₁⟩, ran, rest⟩ := bind_ok_iff.mp done
      cases rest
      obtain ⟨⟨list₂, s₂, popped⟩, took, rest⟩ := bind_ok_iff.mp ran
      cases rest
      exact .pop rfl (Or.inl rfl) took
    | _ => cases done
  | notifyAll =>
    cases object with
    | waitQueue list =>
      obtain ⟨⟨list', s₁⟩, ran, rest⟩ := bind_ok_iff.mp done
      cases rest
      exact .popAll rfl ran
    | _ => cases done

/-- `Event::set` and `WaitQueue::notify_all` empty the list of their object. -/
theorem run_popsAll {c : ObjectCall} (pops : c.popsAll = true) :
    c.run cpu s memory self object = .error .disabled ∨ ∃ result : ThreadList → Object,
      c.run cpu s memory self object = do
        let (list, s) ← object.waiters.popAll cpu (threadCount + 2) s
        return (result list, s, memory, false) := by
  cases c with
  | set =>
    cases object with
    | event state =>
      refine Or.inr ⟨fun _ => .event .unlocked, ?_⟩
      cases state with
      | unlocked => rfl
      | locked list =>
        simp only [run, Sync.Event.set, Object.waiters, Sync.LockState.waiters]
        cases ThreadList.popAll cpu (threadCount + 2) list s <;> rfl
    | _ => exact Or.inl rfl
  | notifyAll =>
    cases object with
    | waitQueue list =>
      refine Or.inr ⟨.waitQueue, ?_⟩
      simp only [run, WaitQueue.notifyAll, Object.waiters]
    | _ => exact Or.inl rfl
  | _ => cases pops

end ObjectCall

namespace ObjectSystem

variable {sys sys' : ObjectSystem V} {m : Nat}

theorem lists_setObject (sys : ObjectSystem V) (m : Nat) (object : Object) (s : Scheduler) :
    (sys.setObject m object s).lists = Function.update sys.lists m object.waiters :=
  Function.comp_update Object.waiters sys.objects m object

theorem step_op {o : Op} (done : step (.op o) sys = .ok sys') :
    o.run SingleCore.cpu sys.scheduler = .ok sys'.scheduler ∧ sys'.lists = sys.lists ∧
      ((o.blocking = true ∧ ∃ t, sys.caller SingleCore.cpu = some t ∧
          sys'.pause = Function.update sys.pause t o.pause) ∨
        (o.blocking = false ∧ sys'.pause = sys.pause)) := by
  simp only [step] at done
  split at done
  · rename_i blocking
    split at done
    · cases done
    · rename_i t called
      obtain ⟨s₁, ran, rest⟩ := bind_ok_iff.mp done
      cases rest
      exact ⟨ran, rfl, Or.inl ⟨blocking, t, called, rfl⟩⟩
  · rename_i passes
    obtain ⟨s₁, ran, rest⟩ := bind_ok_iff.mp done
    cases rest
    exact ⟨ran, rfl, Or.inr ⟨by simpa using passes, rfl⟩⟩

theorem step_call {c : ObjectCall} (done : step (.call m c) sys = .ok sys') :
    ∃ list more, c.Effect SingleCore.cpu sys.scheduler (sys.lists m) list sys'.scheduler more ∧
      sys'.lists = Function.update sys.lists m list ∧
      ((c.blocking = true ∧ ∃ t, sys.caller SingleCore.cpu = some t ∧
          sys'.pause = Function.update sys.pause t
            (if more || !(c.pause m).isTimedWait then c.pause m else .idle)) ∨
        (c.blocking = false ∧ sys'.pause = sys.pause)) := by
  simp only [step] at done
  split at done
  · rename_i blocking
    split at done
    · cases done
    · rename_i t called
      obtain ⟨⟨sys₁, more⟩, ran, rest⟩ := bind_ok_iff.mp done
      cases rest
      obtain ⟨⟨object, s₁, memory₁, more₁⟩, ran, rest⟩ := bind_ok_iff.mp ran
      cases rest
      exact ⟨object.waiters, more, ObjectCall.run_effect ran, lists_setObject sys m object s₁,
        Or.inl ⟨blocking, t, called, rfl⟩⟩
  · rename_i passes
    obtain ⟨⟨sys₁, more⟩, ran, rest⟩ := bind_ok_iff.mp done
    cases rest
    obtain ⟨⟨object, s₁, memory₁, more₁⟩, ran, rest⟩ := bind_ok_iff.mp ran
    cases rest
    exact ⟨object.waiters, more, ObjectCall.run_effect ran, lists_setObject sys m object s₁,
      Or.inr ⟨by simpa using passes, rfl⟩⟩

theorem step_resume {expired : List (Nat × Nat)} (done : step (.resume expired) sys = .ok sys') :
    ∃ t m deadline list result, sys.scheduler.executing SingleCore.cpu = some t ∧
      sys.pause t = .timedWait m deadline ∧
      WaitQueue.waitUntilResume SingleCore.cpu (sys.lists m) sys.scheduler expired =
        .ok (list, sys'.scheduler, result) ∧
      sys'.lists = Function.update sys.lists m list ∧
      sys'.pause = Function.update sys.pause t .idle := by
  simp only [step] at done
  split at done
  · cases done
  · rename_i t executes
    split at done
    · rename_i m deadline paused
      split at done
      · rename_i list queue
        obtain ⟨⟨list', s₁, result⟩, ran, rest⟩ := bind_ok_iff.mp done
        cases rest
        have here : sys.lists m = list := by rw [lists, queue]; rfl
        rw [← here] at ran
        exact ⟨t, m, deadline, list', result, executes, paused, ran,
          lists_setObject sys m (.waitQueue list') s₁, rfl⟩
      · cases done
    · cases done

end ObjectSystem

end ArielOS
