import ArielOS.Sync.SemaphoreSpec
import ArielOS.Sync.TimedWaits
import ArielOS.Sync.Timers
import ArielOS.Threads.PriorityLists

namespace ArielOS

open Machine Scheduler

variable {s s' : Scheduler} {t u m : Nat} {W : Nat → List Nat} {expired : List (Nat × Nat)}

section Orderly

variable {lists : Nat → ThreadList} {pauses : Nat → Pause}

theorem Orderly.tidy (orderly : Orderly lists pauses W s) : Tidy lists s where
  named := by
    refine ⟨orderly.named.created, orderly.named.timed, orderly.named.current,
      orderly.named.linked, fun t listed => ?_⟩
    obtain ⟨m, first⟩ := listed
    exact orderly.known first
  invariant := orderly.invariant

theorem Orderly.contains (orderly : Orderly lists pauses W s) (m t : Nat) :
    (lists m).contains s t = decide (t ∈ W m) :=
  ThreadList.contains_links (orderly.chained.links m) (orderly.chained.nodup m)
    fun _ => orderly.bounded

end Orderly

namespace ObjectSystem

variable {V : Type} {sys sys' : ObjectSystem V} {e : ObjectEvent} {c : ObjectCall} {deadline : Nat}

/-- The thread whose deadline is set executes the critical section. -/
theorem schedules_executing {time : Nat} (orderly : Orderly sys.lists sys.pause W sys.scheduler)
    (done : step e sys = .ok sys') (scheduled : e.schedules sys.scheduler = some (t, time)) :
    (sys.caller SingleCore.cpu = some t) ∨
      ∃ expired, e = .resume expired ∧ sys.scheduler.executing SingleCore.cpu = some t := by
  have executes : ∀ {u thread}, sys.scheduler.executing SingleCore.cpu = some u →
      sys.scheduler.current SingleCore.cpu = some thread → thread.tid = t → u = t := by
    intro u thread executes current self
    obtain ⟨own, -⟩ := SingleCore.executing_running orderly.invariant executes
    obtain ⟨same, tid⟩ := current_eq orderly.named own
    rw [Option.some.inj (current.symm.trans same), tid] at self
    exact self
  cases e with
  | op o =>
    obtain ⟨thread, current, rest⟩ := Option.bind_eq_some_iff.mp scheduled
    obtain ⟨timer, timed, rest⟩ := Option.bind_eq_some_iff.mp rest
    cases rest
    obtain ⟨-, -, ⟨-, u, called, -⟩ | ⟨passes, -⟩⟩ := step_op done
    · rw [← executes (caller_spec called).1 current rfl] at *
      exact Or.inl called
    · cases o with
      | sleepUntil deadline expired => cases passes
      | _ => cases timed
  | call self c =>
    obtain ⟨thread, current, rest⟩ := Option.bind_eq_some_iff.mp scheduled
    obtain ⟨timer, timed, rest⟩ := Option.bind_eq_some_iff.mp rest
    cases rest
    obtain ⟨-, -, -, -, ⟨-, u, called, -⟩ | ⟨passes, -⟩⟩ := step_call done
    · rw [← executes (caller_spec called).1 current rfl] at *
      exact Or.inl called
    · rw [(ObjectCall.timer_blocking 0 timed).1] at passes
      cases passes
  | resume expired =>
    obtain ⟨thread, current, rest⟩ := Option.bind_eq_some_iff.mp scheduled
    obtain ⟨u, -, -, -, -, executes', -⟩ := step_resume done
    split at rest
    · cases rest
      rw [← executes executes' current rfl] at *
      exact Or.inr ⟨expired, rfl, executes'⟩
    · cases rest

/-- A thread that waits has no deadline that it had not before. -/
theorem deadline_kept {d : Nat} (orderly : Orderly sys.lists sys.pause W sys.scheduler)
    (waits : (sys.pause t).isTimedWait = true)
    (free : ∀ expired, e = .resume expired → sys.scheduler.executing SingleCore.cpu ≠ some t)
    (done : step e sys = .ok sys') (remains : sys'.scheduler.deadlineOf t = some d) :
    sys.scheduler.deadlineOf t = some d := by
  obtain ⟨before, -⟩ := step_remains orderly.tidy done remains
  unfold ObjectEvent.deadlines at before
  cases scheduled : e.schedules sys.scheduler with
  | none =>
    rw [scheduled] at before
    cases e <;> exact before
  | some wake =>
    obtain ⟨u, time⟩ := wake
    rw [scheduled] at before
    have other : t ≠ u := by
      rintro rfl
      rcases schedules_executing orderly done scheduled with called | ⟨expired, rfl, executes⟩
      · rw [(caller_spec called).2] at waits
        cases waits
      · exact free expired rfl executes
    cases e <;> simpa [Function.update_of_ne other] using before

/-- A call that does not block only takes threads out of the lists. -/
theorem passing_timed (orderly : Orderly sys.lists sys.pause W sys.scheduler) (timed : Timed sys)
    (passes : c.blocking = false) (done : step (.call m c) sys = .ok sys') :
    ∃ W', (∀ u n, u ∈ W' n → u ∈ W n) ∧ Orderly sys'.lists sys'.pause W' sys'.scheduler ∧
      Timed sys' ∧ sys'.pause = sys.pause := by
  obtain ⟨list, more, effect, lists, ⟨blocking, -⟩ | ⟨-, pause⟩⟩ := step_call done
  · rw [passes] at blocking
    cases blocking
  have timed' : Timed sys' := by
    rw [Timed, pause]
    exact timed
  rw [lists, pause]
  generalize sys'.scheduler = after at effect ⊢
  cases effect with
  | stays untimed =>
    rw [Function.update_eq_self]
    exact ⟨W, fun _ _ => id, orderly, timed', rfl⟩
  | put blocking => simp [passes] at blocking
  | pop pops before done =>
    obtain ⟨W', -, members, next⟩ := (reprioritised orderly before).pop done
    exact ⟨W', members, next, timed', rfl⟩
  | popAll pops done =>
    obtain ⟨W', members, next⟩ := orderly.popAll done
    exact ⟨W', members, next, timed', rfl⟩
  | expired timer => simp [(ObjectCall.timer_blocking 0 timer).1] at passes
  | timed timer => simp [(ObjectCall.timer_blocking 0 timer).1] at passes

theorem first_step {σ : Type} (call : TimedCall σ) (shared : σ) (sys : ObjectSystem V) :
    step (.call call.queue (call.first shared expired)) sys =
      step (.call call.queue (.waitUntilWithCheck (call.holds shared) call.deadline expired))
        sys := by
  unfold TimedCall.first TimedCall.holds
  cases call.check with
  | none =>
    have same : ∀ (cpu : Cpu) (object : Object),
        (ObjectCall.waitUntil call.deadline expired).run cpu sys.scheduler sys.memory call.queue
            object =
          (ObjectCall.waitUntilWithCheck false call.deadline expired).run cpu sys.scheduler
            sys.memory call.queue object := by
      intro cpu object
      cases object <;> rfl
    simp only [step, ObjectCall.blocking, ↓reduceIte, ObjectSystem.call, same, Option.any_none]
    rfl
  | some check => rfl

end ObjectSystem

/-- The thread whose call the critical section is one of, with the wakers that the time driver calls
    in it. -/
def TimedWaitsEvent.own {σ : Type} (sys : TimedWaits σ) :
    TimedWaitsEvent σ → Option (Nat × List (Nat × Nat))
  | .waitUntil _ _ expired | .waitUntilWithCheck _ _ _ expired | .resume expired =>
    sys.executing.map fun t => (t, expired)
  | _ => none

namespace TimedCall

variable {σ : Type} {call : TimedCall σ} {system system' : ObjectSystem Unit} {W' : Nat → List Nat}

/-- What the record of a thread that waits says. -/
structure Waiting (W : Nat → List Nat) (system : ObjectSystem Unit) (t : Nat)
    (call : TimedCall σ) : Prop where
  paused : system.pause t = .timedWait call.queue call.deadline
  notified : call.notified = true ↔ t ∉ W call.queue
  expired : call.expired = true ↔ system.scheduler.deadlineOf t = none

theorem Waiting.observe {notifies : Bool} (waiting : call.Waiting W system t)
    (orderly : Orderly system.lists system.pause W system.scheduler)
    (orderly' : Orderly system'.lists system'.pause W' system'.scheduler)
    (paused : system'.pause t = system.pause t) (fewer : ∀ n, t ∈ W' n → t ∈ W n)
    (kept : notifies = false → ∀ n, t ∈ W n → t ∈ W' n)
    (remains : ∀ d, system'.scheduler.deadlineOf t = some d → system.scheduler.deadlineOf t = some d) :
    (call.observe t notifies system system').Waiting W' system' t := by
  refine ⟨paused.trans waiting.paused, ?_, ?_⟩
  · have fewer := fewer call.queue
    have notified := waiting.notified
    simp only [TimedCall.observe, orderly.contains, orderly'.contains, Bool.or_eq_true,
      Bool.and_eq_true, Bool.not_eq_true', decide_eq_true_eq, decide_eq_false_iff_not]
    cases notifies with
    | true => tauto
    | false =>
      have kept := kept rfl call.queue
      simp only [Bool.false_eq_true, false_and, or_false]
      tauto
  · have expired := waiting.expired
    simp only [TimedCall.observe, Bool.or_eq_true, Bool.and_eq_true, Option.isSome_iff_ne_none,
      Option.isNone_iff_eq_none]
    cases after : system'.scheduler.deadlineOf t with
    | none => tauto
    | some d =>
      have before := remains d after
      simp [before] at expired ⊢
      exact expired

end TimedCall

namespace TimedWaits

variable {σ : Type} {sys sys' : TimedWaits σ} {call : TimedCall σ} {W' : Nat → List Nat}
  {system : ObjectSystem Unit} {e : TimedWaitsEvent σ} {shared : σ}

/-- The result of `wait_until`. -/
def Combines (r : TimedReturn σ) : Prop :=
  (r.result = true ↔ r.call.notified = true ∧ r.call.expired = true) ∧
    (r.call.notified = true ∨ r.call.expired = true)

structure Sound (W : Nat → List Nat) (sys : TimedWaits σ) : Prop where
  orderly : Orderly sys.system.lists sys.system.pause W sys.system.scheduler
  timed : sys.system.Timed
  calls : ∀ t call, sys.calls t = some call → call.Waiting W sys.system t
  returns : ∀ r ∈ sys.returns, r.call.check = none → Combines r

/-- What a critical section does to a thread that it leaves waiting. -/
theorem Sound.advance {notifies : Bool} (sound : Sound W sys)
    (orderly : Orderly system.lists system.pause W' system.scheduler)
    (untouched : sys.calls u ≠ none → system.pause u = sys.system.pause u ∧
      (∀ n, u ∈ W' n → u ∈ W n) ∧ (notifies = false → ∀ n, u ∈ W n → u ∈ W' n) ∧
      ∀ d, system.scheduler.deadlineOf u = some d → sys.system.scheduler.deadlineOf u = some d)
    (here : (sys.advance notifies system).calls u = some call) : call.Waiting W' system u := by
  obtain ⟨before, waits, rfl⟩ := Option.map_eq_some_iff.mp here
  obtain ⟨paused, fewer, kept, remains⟩ := untouched (by simp [waits])
  exact (sound.calls u before waits).observe sound.orderly orderly paused fewer kept remains

theorem Sound.isTimedWait (sound : Sound W sys) (waits : sys.calls t ≠ none) :
    (sys.system.pause t).isTimedWait = true := by
  obtain ⟨call, here⟩ := Option.ne_none_iff_exists'.mp waits
  rw [(sound.calls t call here).paused]
  rfl

theorem enter_ok {expired : List (Nat × Nat)} (done : sys.enter t call expired = .ok sys') :
    ∃ system, ObjectSystem.step (.call call.queue (call.first sys.shared expired)) sys.system =
        .ok system ∧
      sys' = if (system.pause t).isTimedWait then (sys.advance false system).setCall t (some call)
        else (sys.advance false system).finish t
          { call with expired := (system.scheduler.deadlineOf t).isNone } (call.holds sys.shared) := by
  obtain ⟨system, stepped, rest⟩ := bind_ok_iff.mp done
  refine ⟨system, stepped, ?_⟩
  dsimp only at rest
  split at rest
  · rename_i waits
    rw [if_pos waits]
    exact (Except.ok.inj rest).symm
  · rename_i returns
    rw [if_neg returns]
    exact (Except.ok.inj rest).symm

theorem resume_ok {expired : List (Nat × Nat)} (done : sys.resume t call expired = .ok sys') :
    ∃ list s reported system, WaitQueue.waitUntilResume SingleCore.cpu (sys.system.lists call.queue)
        sys.system.scheduler expired = .ok (list, s, reported) ∧
      ObjectSystem.step (.resume expired) sys.system = .ok system ∧
      sys' = (sys.advance false system).finish t call
        (call.check.elim reported fun check => check sys.shared) := by
  obtain ⟨⟨list, s, reported⟩, ran, rest⟩ := bind_ok_iff.mp done
  obtain ⟨system, stepped, rest⟩ := bind_ok_iff.mp rest
  cases rest
  refine ⟨list, s, reported, system, ran, stepped, ?_⟩
  cases call.check <;> rfl

theorem op_sound {o : Op} (sound : Sound W sys)
    (done : ObjectSystem.step (.op o) sys.system = .ok system) :
    Sound W (sys.advance false system) := by
  obtain ⟨orderly, timed, -, paused⟩ := ObjectSystem.op_timed sound.orderly sound.timed done
  refine ⟨orderly, timed, fun u call here => ?_, sound.returns⟩
  refine sound.advance orderly (fun waits => ⟨?_, fun _ => id, fun _ _ => id, fun d => ?_⟩) here
  · rcases paused with same | ⟨-, t, called, paused⟩
    · exact congrFun same u
    · have other : u ≠ t := by
        rintro rfl
        have timedWait := sound.isTimedWait waits
        rw [(ObjectSystem.caller_spec called).2] at timedWait
        cases timedWait
      exact (congrFun paused u).trans (Function.update_of_ne other _ _)
  · exact ObjectSystem.deadline_kept sound.orderly (sound.isTimedWait waits)
      (fun _ same => by cases same) done

theorem notify_sound {c : ObjectCall} (sound : Sound W sys) (passes : c.blocking = false)
    (done : ObjectSystem.step (.call m c) sys.system = .ok system) :
    ∃ W', Sound W' (sys.advance true system) := by
  obtain ⟨W', fewer, orderly, timed, paused⟩ :=
    ObjectSystem.passing_timed sound.orderly sound.timed passes done
  refine ⟨W', orderly, timed, fun u call here => ?_, sound.returns⟩
  refine sound.advance orderly (fun waits => ?_) here
  refine ⟨congrFun paused u, fun n => fewer u n, nofun, fun d => ?_⟩
  exact ObjectSystem.deadline_kept sound.orderly (sound.isTimedWait waits)
    (fun _ same => by cases same) done

/-- What a returning call of the thread `t` leaves behind. -/
structure Clean (W' : Nat → List Nat) (sys sys' : TimedWaits σ) (r : TimedReturn σ) : Prop where
  truth : ∀ check, r.call.check = some check → r.result = check sys'.shared
  unlinked : ∀ n, r.thread ∉ W' n
  /-- An early out has set no deadline. -/
  unset : sys'.system.scheduler.deadlineOf r.thread = none ∨
    sys'.system.scheduler = sys.system.scheduler

/-- A critical section of a call of the thread `t`. -/
structure OwnSection (t : Nat) (expired : List (Nat × Nat)) (W W' : Nat → List Nat)
    (sys sys' : TimedWaits σ) : Prop where
  sound : Sound W' sys'
  spares : ObjectSystem.SparesOthers t expired W W' sys.system sys'.system
  shared : sys'.shared = sys.shared
  returns : ∀ r, sys'.returns = r :: sys.returns → r.thread = t ∧ Clean W' sys sys' r

/-- The other threads that wait are not touched by a section of `t`. -/
theorem Sound.others (sound : Sound W sys) {e : ObjectEvent} (other : u ≠ t)
    (orderly : Orderly system.lists system.pause W' system.scheduler)
    (spares : ObjectSystem.SparesOthers t expired W W' sys.system system)
    (paused : ∃ pause, system.pause = Function.update sys.system.pause t pause)
    (executes : sys.executing = some t) (done : ObjectSystem.step e sys.system = .ok system)
    (here : (sys.advance false system).calls u = some call) : call.Waiting W' system u := by
  have members := spares.mem_iff other
  obtain ⟨pause, paused⟩ := paused
  refine sound.advance orderly (fun waits => ⟨?_, fun n => (members n).mp,
    fun _ n => (members n).mpr, fun d => ?_⟩) here
  · rw [paused, Function.update_of_ne other]
  · refine ObjectSystem.deadline_kept sound.orderly (sound.isTimedWait waits) ?_ done
    intro _ _ same
    exact other (Option.some.inj (same.symm.trans executes))

theorem enter_own (sound : Sound W sys) (executes : sys.executing = some t)
    (unnotified : call.notified = false) (unexpired : call.expired = false)
    (done : sys.enter t call expired = .ok sys') :
    ∃ W', OwnSection t expired W W' sys sys' := by
  obtain ⟨system, stepped, rfl⟩ := enter_ok done
  rw [ObjectSystem.first_step] at stepped
  obtain ⟨v, W', list, more, called, orderly, timed, -, paused, spares, entered, outcome⟩ :=
    ObjectSystem.check_timed sound.orderly sound.timed stepped
  obtain rfl : t = v := Option.some.inj (executes.symm.trans (ObjectSystem.caller_spec called).1)
  have others : ∀ u call, u ≠ t → (sys.advance false system).calls u = some call →
      call.Waiting W' system u := fun u call other here =>
    sound.others other orderly spares ⟨_, paused⟩ executes stepped here
  have own : (system.pause t).isTimedWait = more := by
    rw [paused, Function.update_self]
    cases more <;> rfl
  refine ⟨W', ?_⟩
  rw [own]
  cases more with
  | true =>
    rw [if_pos rfl]
    refine ⟨⟨orderly, timed, fun u other here => ?_, sound.returns⟩, spares, rfl, fun r same => ?_⟩
    · change Function.update (sys.advance false system).calls t (some call) u = some other at here
      by_cases same : u = t
      · subst same
        rw [Function.update_self] at here
        cases here
        refine ⟨(congrFun paused u).trans (Function.update_self ..), ?_, ?_⟩
        · simp [unnotified, entered]
        · rcases outcome with ⟨-, returns, -⟩ | ⟨-, set⟩
          · cases returns
          · refine iff_of_false (by simp [unexpired]) fun unset => ?_
            cases set.symm.trans unset
      · rw [Function.update_of_ne same] at here
        exact others u other same here
    · exact absurd same.symm (List.cons_ne_self r sys.returns)
  | false =>
    rw [if_neg Bool.false_ne_true]
    refine ⟨⟨orderly, timed, fun u other here => ?_, fun r member plain => ?_⟩, spares, rfl,
      fun r same => ?_⟩
    · change Function.update (sys.advance false system).calls t none u = some other at here
      by_cases same : u = t
      · rw [same, Function.update_self] at here
        cases here
      · rw [Function.update_of_ne same] at here
        exact others u other same here
    · rcases List.mem_cons.mp member with rfl | earlier
      · have plain : call.check = none := plain
        have fails : call.holds sys.shared = false := by
          unfold TimedCall.holds
          rw [plain]
          rfl
        rcases outcome with ⟨holds, -⟩ | ⟨-, unset⟩
        · rw [fails] at holds
          cases holds
        · exact ⟨by simp [fails, unnotified], Or.inr (by simpa using unset)⟩
      · exact sound.returns r earlier plain
    · obtain ⟨rfl, -⟩ := List.cons.inj same
      refine ⟨rfl, fun check checks => ?_, fun n listed => ?_, ?_⟩
      · have checks : call.check = some check := checks
        change call.check.any (· sys.shared) = check sys.shared
        rw [checks]
        rfl
      · cases ((entered n).mp listed).1
      · rcases outcome with ⟨-, -, -, same⟩ | ⟨-, unset⟩
        · exact Or.inr same
        · exact Or.inl unset

theorem resume_own (sound : Sound W sys) (executes : sys.executing = some t)
    (waits : sys.calls t = some call) (done : sys.resume t call expired = .ok sys') :
    ∃ W', OwnSection t expired W W' sys sys' := by
  obtain ⟨list, s, reported, system, ran, stepped, rfl⟩ := resume_ok done
  obtain ⟨v, m, deadline, executes', pausedAt, orderly, timed, paused, spares, unset, late, list',
    result, ran', reports⟩ := ObjectSystem.resume_timed sound.orderly sound.timed stepped
  obtain rfl : t = v := Option.some.inj (executes.symm.trans executes')
  have waiting := sound.calls t call waits
  obtain ⟨rfl, rfl⟩ : call.queue = m ∧ call.deadline = deadline := by
    have same := waiting.paused.symm.trans pausedAt
    cases same
    exact ⟨rfl, rfl⟩
  obtain ⟨rfl, rfl, rfl⟩ : list = list' ∧ s = system.scheduler ∧ reported = result := by
    have same := ran.symm.trans ran'
    cases same
    exact ⟨rfl, rfl, rfl⟩
  refine ⟨fun n => (W n).erase t, ⟨orderly, timed, fun u other here => ?_, fun r member plain => ?_⟩,
    spares, rfl, fun r same => ?_⟩
  · change Function.update (sys.advance false system).calls t none u = some other at here
    by_cases same : u = t
    · rw [same, Function.update_self] at here
      cases here
    · rw [Function.update_of_ne same] at here
      exact sound.others same orderly spares ⟨_, paused⟩ executes stepped here
  · rcases List.mem_cons.mp member with rfl | earlier
    · have plain : call.check = none := plain
      refine ⟨?_, ?_⟩
      · dsimp only
        rw [plain, waiting.notified, waiting.expired]
        exact reports
      · rw [waiting.notified, waiting.expired]
        by_cases listed : t ∈ W call.queue
        · exact Or.inr (late listed)
        · exact Or.inl listed
    · exact sound.returns r earlier plain
  · obtain ⟨rfl, -⟩ := List.cons.inj same
    refine ⟨rfl, fun check checks => ?_, fun n => ?_, Or.inl unset⟩
    · have checks : call.check = some check := checks
      dsimp only
      rw [checks]
      rfl
    · exact (sound.orderly.chained.nodup n).not_mem_erase

theorem step_cases (sound : Sound W sys) (done : step e sys = .ok sys') :
    (e.own sys = none ∧ sys'.returns = sys.returns ∧ ∃ W', Sound W' sys') ∨
      ∃ t expired W', e.own sys = some (t, expired) ∧ OwnSection t expired W W' sys sys' := by
  cases e with
  | op o =>
    obtain ⟨system, stepped, rest⟩ := bind_ok_iff.mp done
    cases rest
    exact Or.inl ⟨rfl, rfl, W, op_sound sound stepped⟩
  | change shared =>
    cases done
    exact Or.inl ⟨rfl, rfl, W, sound.orderly, sound.timed, sound.calls, sound.returns⟩
  | waitUntil self deadline expired =>
    simp only [step] at done
    split at done
    · rename_i t executes
      obtain ⟨W', own⟩ := enter_own sound executes rfl rfl done
      exact Or.inr ⟨t, expired, W', by simp [TimedWaitsEvent.own, executes], own⟩
    · cases done
  | waitUntilWithCheck self deadline check expired =>
    simp only [step] at done
    split at done
    · rename_i t executes
      obtain ⟨W', own⟩ := enter_own sound executes rfl rfl done
      exact Or.inr ⟨t, expired, W', by simp [TimedWaitsEvent.own, executes], own⟩
    · cases done
  | resume expired =>
    simp only [step] at done
    split at done
    · rename_i t executes
      split at done
      · rename_i call waits
        obtain ⟨W', own⟩ := resume_own sound executes waits done
        exact Or.inr ⟨t, expired, W', by simp [TimedWaitsEvent.own, executes], own⟩
      · cases done
    · cases done
  | notifyOne self =>
    obtain ⟨system, stepped, rest⟩ := bind_ok_iff.mp done
    cases rest
    exact Or.inl ⟨rfl, rfl, notify_sound sound rfl stepped⟩
  | notifyAll self =>
    obtain ⟨system, stepped, rest⟩ := bind_ok_iff.mp done
    cases rest
    exact Or.inl ⟨rfl, rfl, notify_sound sound rfl stepped⟩

theorem new_sound (shared : σ) : ∃ W, Sound W (new shared) := by
  obtain ⟨W, orderly⟩ : ObjectSystem.Safe (ObjectSystem.new (fun _ => .waitQueue .new) fun _ => ()) :=
    ObjectSystem.new_safe fun _ => .waitQueue
  exact ⟨W, orderly, fun _ _ => nofun, fun _ _ => nofun, nofun⟩

theorem sound_of_reachable (reached : Reachable step (new shared) sys) : ∃ W, Sound W sys := by
  refine reached.invariant (fun sys => ∃ W, Sound W sys) (new_sound shared) ?_
  intro sys e sys' before _ done
  obtain ⟨W, sound⟩ := before
  rcases step_cases sound done with ⟨-, -, kept⟩ | ⟨t, expired, W', -, own⟩
  · exact kept
  · exact ⟨W', own.sound⟩

/-- What the result of a wait is for. -/
def Reports (r : TimedReturn σ) : Prop :=
  (r.result = true ↔ r.call.notified = true) ∧
    (r.result = false ↔ r.call.expired = true ∧ r.call.notified = false)

/-- `wait_until` reports a notification if its timer had gone off when the thread ran again. Where the
    thread was notified in time, it reports a timeout. -/
theorem wait_until_reports_iff (reached : Reachable step (new shared) sys) (r : TimedReturn σ)
    (returned : r ∈ sys.returns) (plain : r.call.check = none) :
    Reports r ↔ r.call.expired = true := by
  obtain ⟨W, sound⟩ := sound_of_reachable reached
  obtain ⟨combines, either⟩ := sound.returns r returned plain
  unfold Reports
  cases expired : r.call.expired with
  | true =>
    rw [expired] at combines
    refine iff_of_true ⟨by simpa using combines, ?_⟩ rfl
    rw [← Bool.not_eq_true, combines]
    simp
  | false =>
    rw [expired] at combines either
    have notified : r.call.notified = true := by simpa using either
    have silent : ¬ r.result = true := by simp [combines]
    exact iff_of_false (fun reports => silent (reports.1.mpr notified)) Bool.false_ne_true

/-- The critical sections of a call keep the other waiters in their places and wake only those whose
    own timers are due. A call that returns tells what its check found and leaves nothing behind. -/
theorem timed_calls_clean (reached : Reachable step (new shared) sys)
    (done : step e sys = .ok sys') :
    ∃ W W', sys.system.WellFormed W ∧ sys'.system.WellFormed W' ∧
      (∀ t expired, e.own sys = some (t, expired) → sys'.shared = sys.shared ∧
        ObjectSystem.SparesOthers t expired W W' sys.system sys'.system) ∧
      ∀ r, sys'.returns = r :: sys.returns →
        (∃ expired, e.own sys = some (r.thread, expired)) ∧ Clean W' sys sys' r := by
  obtain ⟨W, sound⟩ := sound_of_reachable reached
  rcases step_cases sound done with ⟨notOwn, returns, W', sound'⟩ | ⟨t, expired, W', isOwn, own⟩
  · refine ⟨W, W', ObjectSystem.wellFormed sound.orderly, ObjectSystem.wellFormed sound'.orderly,
      fun t expired isOwn => ?_, fun r same => ?_⟩
    · rw [notOwn] at isOwn
      cases isOwn
    · rw [returns] at same
      exact absurd same.symm (List.cons_ne_self r sys.returns)
  · refine ⟨W, W', ObjectSystem.wellFormed sound.orderly, ObjectSystem.wellFormed own.sound.orderly,
      fun u wakers same => ?_, fun r same => ?_⟩
    · rw [isOwn] at same
      cases same
      exact ⟨own.shared, own.spares⟩
    · obtain ⟨rfl, clean⟩ := own.returns r same
      exact ⟨⟨expired, isOwn⟩, clean⟩

section Samples

/-- Threads 0 and 1 of priorities 1 and 2, the latter of which runs first. -/
def startEvents : List (TimedWaitsEvent σ) :=
  [.op (.create 0 512 1 none), .op (.create 512 512 2 none), .op .startThreading,
    .op .enterPendsv, .op .sched]

def switch : List (TimedWaitsEvent σ) := [.op .enterPendsv, .op .sched]

/-- Thread 1 waits on queue 0 until 100, and is notified after its timer has gone off. -/
theorem wait_until_reports_iff_sample : ∃ (sys : TimedWaits Unit) (r : TimedReturn Unit),
    Reachable step (new ()) sys ∧ r ∈ sys.returns ∧ r.result = true ∧ Reports r := by
  have run : ∃ sys, Reachable step (new ()) sys ∧
      (sys.returns.any fun r => r.call.check.isNone && (r.call.expired && r.result)) = true :=
    reaches_of_check (startEvents ++ [.waitUntil 0 100 []] ++ switch ++
      [.op (.wake 1 100), .notifyOne 0] ++ switch ++ [.resume []]) (by decide +kernel)
  obtain ⟨sys, reached, checked⟩ := run
  obtain ⟨r, returned, holds⟩ := List.any_eq_true.mp checked
  simp only [Bool.and_eq_true, Option.isNone_iff_eq_none] at holds
  obtain ⟨plain, expired, result⟩ := holds
  exact ⟨sys, r, reached, returned, result,
    (wait_until_reports_iff reached r returned plain).mpr expired⟩

/-- Thread 1 waits on queue 0 until 100, and is notified before: `clear_deadline` finds the deadline
    still set. -/
theorem notified_in_time : ∃ (sys : TimedWaits Unit) (r : TimedReturn Unit),
    Reachable step (new ()) sys ∧ r ∈ sys.returns ∧ r.call.check = none ∧
      r.call.notified = true ∧ r.call.expired = false ∧ r.result = false := by
  have run : ∃ sys, Reachable step (new ()) sys ∧ (sys.returns.any fun r => r.call.check.isNone &&
      (r.call.notified && (!r.call.expired && !r.result))) = true :=
    reaches_of_check (startEvents ++ [.waitUntil 0 100 []] ++ switch ++ [.notifyOne 0] ++ switch ++
      [.resume []]) (by decide +kernel)
  obtain ⟨sys, reached, checked⟩ := run
  obtain ⟨r, returned, holds⟩ := List.any_eq_true.mp checked
  simp only [Bool.and_eq_true, Option.isNone_iff_eq_none, Bool.not_eq_true'] at holds
  exact ⟨sys, r, reached, returned, holds⟩

/-- Thread 1 waits for what thread 0 changes and is notified. -/
theorem timed_calls_clean_sample : ∃ (sys : TimedWaits Bool) (W : Nat → List Nat)
    (r : TimedReturn Bool) (check : Bool → Bool), sys.system.WellFormed W ∧ r ∈ sys.returns ∧
      r.call.check = some check ∧ r.result = true ∧ r.result = check sys.shared ∧
      ∀ n, r.thread ∉ W n := by
  have run : ∃ sys, Reachable step (new false) sys ∧
      (sys.returns.isEmpty && (step (.resume []) sys).toOption.any fun sys =>
        sys.returns.length == 1 && sys.returns.all fun r => r.call.check.isSome && r.result) = true :=
    reaches_of_check (startEvents ++ [.waitUntilWithCheck 0 100 id []] ++ switch ++
      [.change true, .notifyOne 0] ++ switch) (by decide +kernel)
  obtain ⟨sys, reached, checked⟩ := run
  rw [Bool.and_eq_true, List.isEmpty_iff] at checked
  obtain ⟨before, after⟩ := checked
  cases done : step (.resume []) sys with
  | error e =>
    rw [done] at after
    cases after
  | ok sys' =>
    rw [done] at after
    have after : (sys'.returns.length == 1 &&
      sys'.returns.all fun r => r.call.check.isSome && r.result) = true := after
    rw [Bool.and_eq_true, beq_iff_eq, List.length_eq_one_iff] at after
    obtain ⟨⟨r, only⟩, told⟩ := after
    rw [only] at told
    simp only [List.all_cons, List.all_nil, Bool.and_true, Bool.and_eq_true] at told
    obtain ⟨check, checks⟩ := Option.isSome_iff_exists.mp told.1
    obtain ⟨W, W', -, formed, -, returns⟩ := timed_calls_clean reached done
    obtain ⟨-, clean⟩ := returns r (by rw [only, before])
    exact ⟨sys', W', r, check, formed, by simp [only], checks, told.2, clean.truth check checks,
      clean.unlinked⟩

/-- Thread 1 waits on queue 0 until 10. Its timer is due when thread 0 sets its own deadline, so that the
    time driver wakes it in the critical section of thread 0. -/
theorem due_waiter_woken : ∃ sys sys' : TimedWaits Bool, Reachable step (new false) sys ∧
    step (.waitUntilWithCheck 0 100 id [(1, 10)]) sys = .ok sys' ∧ sys.executing = some 0 ∧
    sys.system.Blocked 0 1 ∧ sys'.system.scheduler.stateOf 1 = .running := by
  have run : ∃ sys, Reachable step (new false) sys ∧
      (sys.executing == some 0 && (decide (sys.system.Blocked 0 1) &&
        (step (.waitUntilWithCheck 0 100 id [(1, 10)]) sys).toOption.any fun sys =>
          sys.system.scheduler.stateOf 1 == .running)) = true :=
    reaches_of_check (startEvents ++ [.waitUntil 0 10 []] ++ switch) (by decide +kernel)
  obtain ⟨sys, reached, checked⟩ := run
  simp only [Bool.and_eq_true, beq_iff_eq, decide_eq_true_eq] at checked
  obtain ⟨executes, blocked, woken⟩ := checked
  cases done : step (.waitUntilWithCheck 0 100 id [(1, 10)]) sys with
  | error e =>
    rw [done] at woken
    cases woken
  | ok sys' =>
    rw [done] at woken
    exact ⟨sys, sys', reached, done, executes, blocked, beq_iff_eq.mp woken⟩

end Samples

end TimedWaits

end ArielOS
