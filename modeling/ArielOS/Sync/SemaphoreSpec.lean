import ArielOS.Sync.Semaphore
import ArielOS.Sync.WaitLists

namespace ArielOS

open Machine Scheduler

section TimedWaits

variable {s s' : Scheduler} {pause : Nat → Pause} {t : Nat}

/-- Where every wait has a deadline, no timer wakes a thread for which none was set. -/
def AllSpared (pause : Nat → Pause) (s : Scheduler) : Prop := ∀ t, Pause.Spares pause s t

theorem AllSpared.mono (spared : AllSpared pause s)
    (states : ∀ t, s'.stateOf t = s.stateOf t ∨ s'.stateOf t = .running) : AllSpared pause s' := by
  intro t blocked
  rcases states t with same | running
  · rw [same] at blocked
    exact spared t blocked
  · simp [running, ThreadState.inList] at blocked

theorem AllSpared.wake {now : Nat} (spared : AllSpared pause s)
    (done : s.wake SingleCore.cpu t now = .ok s') : AllSpared pause s' := by
  refine spared.mono fun u => ?_
  rcases wake_ok done with ⟨-, rfl⟩ | ⟨-, s₁, quiet, -, ⟨-, rfl⟩ | ⟨-, old, set⟩⟩
  · exact Or.inl rfl
  · exact Or.inl (congrFun quiet.stateOf u)
  · rw [setState_stateOf set, quiet.stateOf]
    by_cases same : u = t
    · rw [same, Function.update_self]
      exact Or.inr rfl
    · rw [Function.update_of_ne same]
      exact Or.inl rfl

theorem AllSpared.wakes {expired : List (Nat × Nat)} (spared : AllSpared pause s) :
    WakesPermitted SingleCore.cpu (Pause.Spares pause) expired s := by
  induction expired generalizing s with
  | nil => trivial
  | cons first expired ih =>
    exact ⟨fun _ _ => spared first.1, fun s' woken => ih (spared.wake woken)⟩

theorem AllSpared.timer (timer : Option (Nat × List (Nat × Nat))) (spared : AllSpared pause s) :
    TimerFinds (Pause.Spares pause) s timer := by
  cases timer with
  | none => trivial
  | some timer =>
    intro s₁ armed
    have quiet := (armDeadline_ok armed).1
    exact (spared.mono fun t => Or.inl (congrFun quiet.stateOf t)).wakes

theorem AllSpared.timers (spared : AllSpared pause s) (e : ObjectEvent) :
    e.TimersFind (Pause.Spares pause) s := by
  cases e with
  | op o =>
    cases o with
    | sleepUntil deadline expired => exact spared.timer (some (deadline, expired))
    | wake t now => exact fun _ _ => spared t
    | _ => trivial
  | call self c => exact spared.timer c.timer
  | resume expired =>
    intro t _ _
    have quiet := quiet_withoutDeadline s t
    exact (spared.mono fun u => Or.inl (congrFun quiet.stateOf u)).wakes

theorem Orderly.allSpared {lists : Nat → ThreadList} {W : Nat → List Nat}
    (orderly : Orderly lists pause W s) (timed : ∀ t m, pause t ≠ .waits m) : AllSpared pause s := by
  intro t blocked
  have kind := (orderly.fits t).kind fun running => by simp [running, ThreadState.inList] at blocked
  cases here : pause t with
  | idle =>
    rw [here] at kind
    exact absurd blocked (by rw [show (s.stateOf t).inList = false from kind]; decide)
  | sleep deadline =>
    rw [here] at kind
    rw [show s.stateOf t = .parked from kind] at blocked
    cases blocked
  | waits m => exact absurd here (timed t m)
  | timedWait m deadline => exact Option.some_ne_none deadline

end TimedWaits

theorem ObjectCall.Effect.checked {cpu : Cpu} {s s' : Scheduler} {list list' : ThreadList} {more : Bool}
    {deadline : Nat} {expired : List (Nat × Nat)}
    (effect : Effect cpu s list (.waitUntilWithCheck true deadline expired) list' s' more) :
    list' = list ∧ s' = s ∧ more = false := by
  cases effect with
  | stays => exact ⟨rfl, rfl, rfl⟩
  | put blocking untimed => cases untimed 0
  | pop pops => cases pops
  | popAll pops => cases pops
  | expired timer => cases timer
  | timed timer => cases timer

namespace ObjectSystem

variable {V : Type} {sys sys' : ObjectSystem V} {W : Nat → List Nat} {m : Nat}
  {expired : List (Nat × Nat)}

/-- No thread waits without a deadline. -/
def Timed (sys : ObjectSystem V) : Prop := ∀ t m, sys.pause t ≠ .waits m

theorem spares (orderly : Orderly sys.lists sys.pause W sys.scheduler) (timed : Timed sys)
    (e : ObjectEvent) : SparesWaiters e sys :=
  (orderly.allSpared timed).timers e

theorem timed_update {t : Nat} {pause : Pause} (timed : Timed sys)
    (same : sys'.pause = Function.update sys.pause t pause) (other : ∀ m, pause ≠ .waits m) :
    Timed sys' := by
  intro u n waits
  rw [same] at waits
  by_cases own : u = t
  · rw [own, Function.update_self] at waits
    exact other n waits
  · rw [Function.update_of_ne own] at waits
    exact timed u n waits

/-- An operation keeps the lists, and what other threads than the one that blocks wait for. -/
theorem op_timed {o : Op} (orderly : Orderly sys.lists sys.pause W sys.scheduler) (timed : Timed sys)
    (done : step (.op o) sys = .ok sys') :
    Orderly sys'.lists sys'.pause W sys'.scheduler ∧ Timed sys' ∧ sys'.lists = sys.lists ∧
      (sys'.pause = sys.pause ∨ (o.blocking = true ∧ ∃ t, sys.caller SingleCore.cpu = some t ∧
        sys'.pause = Function.update sys.pause t o.pause)) := by
  have orderly' := op_orderly orderly (spares orderly timed _) done
  obtain ⟨-, lists, ⟨blocking, t, called, pause⟩ | ⟨-, pause⟩⟩ := step_op done
  · refine ⟨orderly', timed_update timed pause ?_, lists, Or.inr ⟨blocking, t, called, pause⟩⟩
    intro m waits
    cases o <;> cases waits
  · refine ⟨orderly', ?_, lists, Or.inl pause⟩
    intro u n waits
    rw [pause] at waits
    exact timed u n waits

/-- A critical section of thread `t` keeps the other threads of the lists in order, and wakes none of
    them but those whose own timers the time driver finds due. -/
structure SparesOthers (t : Nat) (expired : List (Nat × Nat)) (W W' : Nat → List Nat)
    (sys sys' : ObjectSystem V) : Prop where
  kept : ∀ n, (W' n).erase t = (W n).erase t
  woken : ∀ u, u ≠ t → sys'.scheduler.stateOf u = sys.scheduler.stateOf u ∨
    Expires sys.scheduler u expired

theorem SparesOthers.mem_iff {W' : Nat → List Nat} {t u : Nat}
    (spares : SparesOthers t expired W W' sys sys') (other : u ≠ t) (n : Nat) :
    u ∈ W' n ↔ u ∈ W n := by
  rw [← List.mem_erase_of_ne other, spares.kept n, List.mem_erase_of_ne other]

/-- The first critical section of `wait_until_with_check`, where the check returned `taken`. -/
theorem check_timed {taken : Bool} {deadline : Nat}
    (orderly : Orderly sys.lists sys.pause W sys.scheduler) (timed : Timed sys)
    (done : step (.call m (.waitUntilWithCheck taken deadline expired)) sys = .ok sys') :
    ∃ t W' list more, sys.caller SingleCore.cpu = some t ∧
      Orderly sys'.lists sys'.pause W' sys'.scheduler ∧ Timed sys' ∧
      sys'.lists = Function.update sys.lists m list ∧
      sys'.pause = Function.update sys.pause t (if more then .timedWait m deadline else .idle) ∧
      SparesOthers t expired W W' sys sys' ∧ (∀ n, t ∈ W' n ↔ more = true ∧ n = m) ∧
      ((taken = true ∧ more = false ∧ list = sys.lists m ∧ sys'.scheduler = sys.scheduler) ∨
        (taken = false ∧
          sys'.scheduler.deadlineOf t = if more then some deadline else none)) := by
  obtain ⟨list, more, effect, lists, ⟨-, t, called, pause⟩ | ⟨passes, -⟩⟩ := step_call done
  · obtain ⟨own, running, absent⟩ := caller_ok orderly called
    have either : (if more || !(Pause.timedWait m deadline).isTimedWait then
        Pause.timedWait m deadline else .idle) =
        if more then .timedWait m deadline else .idle := by
      cases more <;> rfl
    change sys'.pause = Function.update sys.pause t (if more ||
      !(Pause.timedWait m deadline).isTimedWait then Pause.timedWait m deadline else .idle) at pause
    rw [either] at pause
    have timed' : Timed sys' := by
      refine timed_update timed pause fun n waits => ?_
      cases more <;> cases waits
    refine ⟨t, ?_⟩
    rw [lists, pause]
    cases taken with
    | true =>
      obtain ⟨rfl, scheduler, rfl⟩ := effect.checked
      rw [scheduler, Function.update_eq_self]
      refine ⟨W, sys.lists m, false, called, orderly.setPause running absent _, timed',
        (Function.update_eq_self m sys.lists).symm, rfl, ⟨fun _ => rfl, fun u _ => Or.inl ?_⟩,
        fun n => by simp [absent], Or.inl ⟨rfl, rfl, rfl, rfl⟩⟩
      exact congrArg (stateOf · u) scheduler
    | false =>
      obtain ⟨W', erased, entered, deadline, others, next⟩ := effect_timed orderly own running
        absent rfl (spares orderly timed (.call m (.waitUntilWithCheck false deadline expired))) effect
      refine ⟨W', list, more, called, next, timed', rfl, rfl, ⟨fun n => ?_, others⟩, entered,
        Or.inr ⟨rfl, deadline⟩⟩
      rw [erased, List.erase_of_not_mem (absent n)]
  · cases passes

theorem resume_timed (orderly : Orderly sys.lists sys.pause W sys.scheduler) (timed : Timed sys)
    (done : step (.resume expired) sys = .ok sys') :
    ∃ t m deadline, sys.scheduler.executing SingleCore.cpu = some t ∧
      sys.pause t = .timedWait m deadline ∧
      Orderly sys'.lists sys'.pause (fun n => (W n).erase t) sys'.scheduler ∧ Timed sys' ∧
      sys'.pause = Function.update sys.pause t .idle ∧
      SparesOthers t expired W (fun n => (W n).erase t) sys sys' ∧
      sys'.scheduler.deadlineOf t = none ∧ (t ∈ W m → sys.scheduler.deadlineOf t = none) ∧
      ∃ list result, WaitQueue.waitUntilResume SingleCore.cpu (sys.lists m) sys.scheduler expired =
          .ok (list, sys'.scheduler, result) ∧
        (result = true ↔ t ∉ W m ∧ sys.scheduler.deadlineOf t = none) := by
  have spares := spares orderly timed (.resume expired)
  obtain ⟨t, m, deadline, list, result, executes, paused, ran, lists, pause⟩ := step_resume done
  obtain ⟨own, running⟩ := SingleCore.executing_running orderly.invariant executes
  obtain ⟨reports, next⟩ := orderly.resume own running (by rw [paused]; rfl) (spares t own) ran
  rw [← lists, ← pause] at next
  refine ⟨t, m, deadline, executes, paused, next, timed_update timed pause nofun, pause, ?_,
    WaitQueue.waitUntilResume_deadline own ran, fun here => ?_, list, result, ran, reports⟩
  · refine ⟨fun n => ?_, fun u other => WaitQueue.waitUntilResume_others own other ran⟩
    exact List.erase_of_not_mem (orderly.chained.nodup n).not_mem_erase
  · rcases ((orderly.fits t).member here).2 with blocked | ⟨-, -, unset⟩
    · rw [running] at blocked
      cases blocked
    · exact unset

theorem step_notifyOne (done : step (.call m .notifyOne) sys = .ok sys') :
    ∃ list popped, (sys.lists m).pop SingleCore.cpu sys.scheduler =
        .ok (list, sys'.scheduler, popped) ∧
      sys'.lists = Function.update sys.lists m list ∧ sys'.pause = sys.pause := by
  obtain ⟨⟨sys₁, more⟩, ran, rest⟩ := bind_ok_iff.mp done
  cases rest
  obtain ⟨⟨object, s₁, memory, more₁⟩, ran, rest⟩ := bind_ok_iff.mp ran
  cases rest
  cases here : sys.objects m with
  | waitQueue waiters =>
    rw [here] at ran
    obtain ⟨⟨list, s₂⟩, notified, rest⟩ := bind_ok_iff.mp ran
    cases rest
    obtain ⟨⟨list, s₂, popped⟩, popped', rest⟩ := bind_ok_iff.mp notified
    cases rest
    have same : sys.lists m = waiters := by rw [lists, here]; rfl
    rw [same]
    exact ⟨list, popped, popped', lists_setObject sys m (.waitQueue list) _, rfl⟩
  | _ => rw [here] at ran; cases ran

theorem notifyOne_timed (orderly : Orderly sys.lists sys.pause W sys.scheduler) (timed : Timed sys)
    (done : step (.call m .notifyOne) sys = .ok sys') :
    ∃ W', W' m = (W m).tail ∧ (∀ u n, u ∈ W' n → u ∈ W n) ∧
      Orderly sys'.lists sys'.pause W' sys'.scheduler ∧ Timed sys' ∧
      sys'.pause = sys.pause := by
  obtain ⟨list, popped, took, lists, pause⟩ := step_notifyOne done
  obtain ⟨W', shorter, members, next⟩ := orderly.pop took
  rw [lists, pause]
  refine ⟨W', shorter, members, next, fun u n waits => ?_, rfl⟩
  rw [pause] at waits
  exact timed u n waits

end ObjectSystem

namespace SemaphoreSystem

variable {sys sys' : SemaphoreSystem} {initial max : Nat → Nat} {fromMicros : Nat → Nat} {m t : Nat}
  {W : Nat → List Nat} {system system' : ObjectSystem Unit} {inner inner' : Nat → Counting}
  {notified : Nat → List Nat} {calls calls' : Nat → Option TakeCall} {expired : List (Nat × Nat)}

theorem take_cases (sys : SemaphoreSystem) (m : Nat) :
    ((sys.take m).2 = true ∧ 0 < (sys.inner m).current ∧ (sys.take m).1 = { sys with
        inner := Function.update sys.inner m
          { sys.inner m with current := (sys.inner m).current - 1 }
        takes := Function.update sys.takes m (sys.takes m + 1) }) ∨
      ((sys.take m).2 = false ∧ (sys.inner m).current = 0 ∧ (sys.take m).1 = sys) := by
  unfold take Counting.tryTake
  by_cases some_ : 0 < (sys.inner m).current
  · rw [if_pos some_]
    exact Or.inl ⟨rfl, some_, rfl⟩
  · rw [if_neg some_]
    exact Or.inr ⟨rfl, Nat.eq_zero_of_not_pos some_, rfl⟩

@[simp] theorem take_system (sys : SemaphoreSystem) (m : Nat) :
    (sys.take m).1.system = sys.system := by
  rcases take_cases sys m with ⟨-, -, same⟩ | ⟨-, -, same⟩ <;> rw [same]

@[simp] theorem take_notified (sys : SemaphoreSystem) (m : Nat) :
    (sys.take m).1.notified = sys.notified := by
  rcases take_cases sys m with ⟨-, -, same⟩ | ⟨-, -, same⟩ <;> rw [same]

@[simp] theorem take_calls (sys : SemaphoreSystem) (m : Nat) :
    (sys.take m).1.calls = sys.calls := by
  rcases take_cases sys m with ⟨-, -, same⟩ | ⟨-, -, same⟩ <;> rw [same]

theorem take_empty (failed : (sys.take m).2 = false) : ((sys.take m).1.inner m).current = 0 := by
  rcases take_cases sys m with ⟨took, -, -⟩ | ⟨-, empty, same⟩
  · rw [failed] at took
    cases took
  · rw [same]
    exact empty

theorem take_current (sys : SemaphoreSystem) (m : Nat) :
    ((sys.take m).1.inner m).current = (sys.inner m).current - 1 := by
  rcases take_cases sys m with ⟨-, -, same⟩ | ⟨-, empty, same⟩
  · rw [same]
    exact congrArg Counting.current (Function.update_self m _ sys.inner)
  · rw [same, empty]

theorem take_other {n : Nat} (sys : SemaphoreSystem) (other : n ≠ m) :
    (sys.take m).1.inner n = sys.inner n := by
  rcases take_cases sys m with ⟨-, -, same⟩ | ⟨-, -, same⟩
  · rw [same]
    exact Function.update_of_ne other _ sys.inner
  · rw [same]

theorem firstCheck_ok {call : TakeCall} (done : sys.firstCheck fromMicros expired t call = .ok sys') :
    ∃ system, ObjectSystem.step (.call call.semaphore (.waitUntilWithCheck
        (sys.take call.semaphore).2 (fromMicros call.deadline) expired)) sys.system = .ok system ∧
      sys' = { (sys.take call.semaphore).1 with system }.checked t call
        (if (system.pause t).isTimedWait then .waiting else .compare)
        (sys.take call.semaphore).2 := by
  obtain ⟨system, stepped, rest⟩ : ∃ system, ObjectSystem.step (.call call.semaphore
      (.waitUntilWithCheck (sys.take call.semaphore).2 (fromMicros call.deadline) expired))
        (sys.take call.semaphore).1.system = .ok system ∧ _ := bind_ok_iff.mp done
  rw [take_system] at stepped
  cases rest
  exact ⟨system, stepped, rfl⟩

theorem secondCheck_ok {call : TakeCall} (done : sys.secondCheck expired t call = .ok sys') :
    ∃ system next, ObjectSystem.step (.resume expired) sys.system = .ok system ∧
      next = { sys with
        system
        notified := Function.update sys.notified call.semaphore
          ((sys.notified call.semaphore).erase t) } ∧
      sys' = (next.take call.semaphore).1.checked t call .compare (next.take call.semaphore).2 := by
  obtain ⟨system, stepped, rest⟩ := bind_ok_iff.mp done
  cases rest
  exact ⟨system, _, stepped, rfl, rfl⟩

section Checked

variable {call : TakeCall} {next : TakePhase} {taken : Bool}

@[simp] theorem checked_system : (sys.checked t call next taken).system = sys.system := by
  cases taken <;> rfl

@[simp] theorem checked_inner : (sys.checked t call next taken).inner = sys.inner := by
  cases taken <;> rfl

@[simp] theorem checked_notified : (sys.checked t call next taken).notified = sys.notified := by
  cases taken <;> rfl

theorem checked_calls : (sys.checked t call next taken).calls =
    Function.update sys.calls t (if taken then none else some { call with phase := next }) := by
  cases taken <;> rfl

end Checked

section Accounts

/-- The units of each semaphore add up, and each call has taken what it returns. -/
structure Accounts (initial max : Nat → Nat) (sys : SemaphoreSystem) : Prop where
  count : ∀ m, (sys.inner m).current + sys.takes m = initial m + sys.gives m
  limit : ∀ m, (sys.inner m).max = max m
  bound : ∀ m, (sys.inner m).current ≤ max m
  calls : ∀ t call, sys.calls t = some call → call.taken = 0
  returns : ∀ r ∈ sys.returns, r.taken = if r.result then 1 else 0

theorem Accounts.change (m : Nat) (accounts : Accounts initial max sys)
    (others : ∀ n, n ≠ m → sys'.inner n = sys.inner n ∧ sys'.takes n = sys.takes n ∧
      sys'.gives n = sys.gives n)
    (count : (sys'.inner m).current + sys'.takes m = initial m + sys'.gives m)
    (limit : (sys'.inner m).max = max m) (bound : (sys'.inner m).current ≤ max m)
    (calls : sys'.calls = sys.calls) (returns : sys'.returns = sys.returns) :
    Accounts initial max sys' := by
  refine ⟨fun n => ?_, fun n => ?_, fun n => ?_, calls ▸ accounts.calls, returns ▸ accounts.returns⟩
  all_goals
    by_cases own : n = m
    · subst own
      assumption
    · obtain ⟨inner, takes, gives⟩ := others n own
      simp only [inner, takes, gives, accounts.count n, accounts.limit n, accounts.bound n]

theorem take_accounts (accounts : Accounts initial max sys) : Accounts initial max (sys.take m).1 := by
  have count := accounts.count m
  have limit := accounts.limit m
  have bound := accounts.bound m
  rcases take_cases sys m with ⟨-, some_, same⟩ | ⟨-, -, same⟩
  · rw [same]
    refine accounts.change m (fun n other => ?_) ?_ ?_ ?_ rfl rfl
    · exact ⟨Function.update_of_ne other .., Function.update_of_ne other .., rfl⟩
    all_goals
      simp only [Function.update_self]
      omega
  · rw [same]
    exact accounts

theorem setCall_accounts {call : TakeCall} (accounts : Accounts initial max sys)
    (fresh : call.taken = 0) : Accounts initial max (sys.setCall t (some call)) := by
  refine ⟨accounts.count, accounts.limit, accounts.bound, fun u other here => ?_, accounts.returns⟩
  change Function.update sys.calls t (some call) u = some other at here
  by_cases own : u = t
  · rw [own, Function.update_self] at here
    cases here
    exact fresh
  · rw [Function.update_of_ne own] at here
    exact accounts.calls u other here

theorem finish_accounts {call : TakeCall} {result : Bool} (accounts : Accounts initial max sys)
    (told : call.taken = if result then 1 else 0) :
    Accounts initial max (sys.finish t call result) := by
  refine ⟨accounts.count, accounts.limit, accounts.bound, fun u other here => ?_, fun r member => ?_⟩
  · change Function.update sys.calls t none u = some other at here
    by_cases own : u = t
    · rw [own, Function.update_self] at here
      cases here
    · rw [Function.update_of_ne own] at here
      exact accounts.calls u other here
  · rcases List.mem_cons.mp member with rfl | earlier
    · exact told
    · exact accounts.returns r earlier

theorem checked_accounts {call : TakeCall} {next : TakePhase} {taken : Bool}
    (accounts : Accounts initial max sys) (fresh : call.taken = 0) :
    Accounts initial max (sys.checked t call next taken) := by
  cases taken with
  | true => exact finish_accounts accounts (by simp [fresh])
  | false => exact setCall_accounts accounts fresh

theorem give_cases (done : sys.giveAndNotify m = .ok sys') :
    sys' = sys ∨ ((sys.inner m).current < (sys.inner m).max ∧ ∃ system,
      ObjectSystem.step (.call m .notifyOne) sys.system = .ok system ∧ sys' = { sys with
        system
        inner := Function.update sys.inner m
          { sys.inner m with current := (sys.inner m).current + 1 }
        gives := Function.update sys.gives m (sys.gives m + 1)
        notified := Function.update sys.notified m
          ((sys.system.lists m).head.toList ++ sys.notified m) }) := by
  unfold giveAndNotify Counting.tryGive at done
  by_cases room : (sys.inner m).current < (sys.inner m).max
  · rw [if_pos room] at done
    obtain ⟨system, stepped, rest⟩ := bind_ok_iff.mp done
    cases rest
    exact Or.inr ⟨room, system, stepped, rfl⟩
  · rw [if_neg room] at done
    cases done
    exact Or.inl rfl

theorem give_accounts (accounts : Accounts initial max sys)
    (done : sys.giveAndNotify m = .ok sys') : Accounts initial max sys' := by
  have count := accounts.count m
  have limit := accounts.limit m
  have bound := accounts.bound m
  rcases give_cases done with rfl | ⟨room, system, -, rfl⟩
  · exact accounts
  · refine accounts.change m (fun n other => ?_) ?_ ?_ ?_ rfl rfl
    · exact ⟨Function.update_of_ne other .., rfl, Function.update_of_ne other ..⟩
    all_goals
      simp only [Function.update_self]
      omega

theorem taker_ok {call : Option TakeCall} (here : sys.taker = some (t, call)) :
    sys.system.scheduler.executing SingleCore.cpu = some t ∧ sys.calls t = call := by
  obtain ⟨u, executes, same⟩ := Option.map_eq_some_iff.mp here
  cases same
  exact ⟨executes, rfl⟩

theorem step_accounts {e : SemaphoreEvent} (accounts : Accounts initial max sys)
    (done : step fromMicros e sys = .ok sys') : Accounts initial max sys' := by
  have fresh : ∀ {t call}, sys.taker = some (t, some call) → call.taken = 0 :=
    fun here => accounts.calls _ _ (taker_ok here).2
  cases e with
  | op o =>
    simp only [step] at done
    split at done
    · cases done
    · obtain ⟨system, -, rest⟩ := bind_ok_iff.mp done
      cases rest
      exact ⟨accounts.count, accounts.limit, accounts.bound, accounts.calls, accounts.returns⟩
  | takeWithDeadline self deadline =>
    simp only [step] at done
    split at done
    · cases done
      exact setCall_accounts accounts rfl
    · cases done
  | check expired =>
    simp only [step] at done
    split at done
    · rename_i t call here
      split at done
      · obtain ⟨system, -, rfl⟩ := firstCheck_ok done
        have took := take_accounts (m := call.semaphore) accounts
        exact checked_accounts ⟨took.count, took.limit, took.bound, took.calls, took.returns⟩
          (fresh here)
      · cases done
    · cases done
  | recheck expired =>
    simp only [step] at done
    split at done
    · rename_i t call here
      split at done
      · obtain ⟨system, next, -, rfl, rfl⟩ := secondCheck_ok done
        refine checked_accounts (take_accounts ?_) (fresh here)
        exact ⟨accounts.count, accounts.limit, accounts.bound, accounts.calls, accounts.returns⟩
      · cases done
    · cases done
  | compare now =>
    simp only [step] at done
    split at done
    · rename_i t call here
      split at done
      · cases done
      · split at done
        · cases done
          exact finish_accounts accounts (fresh here)
        · cases done
          have taken : call.taken = 0 := fresh here
          exact setCall_accounts accounts taken
    · cases done
  | tryTake self => cases done; exact take_accounts accounts
  | tryTakeFromIsr self => cases done; exact take_accounts accounts
  | give self => exact give_accounts accounts done
  | tryGiveFromIsr self => exact give_accounts accounts done

end Accounts

section Waits

/-- The threads of each wait queue are `W`, those that were popped wait on the same semaphore in no
    list, and as many as there are units if threads are left in the list. -/
structure Waits (W : Nat → List Nat) (system : ObjectSystem Unit) (inner : Nat → Counting)
    (notified : Nat → List Nat) (calls : Nat → Option TakeCall) : Prop where
  orderly : Orderly system.lists system.pause W system.scheduler
  timed : system.Timed
  popped : ∀ m t, t ∈ notified m → t ∉ W m ∧ ∃ deadline, system.pause t = .timedWait m deadline
  nodup : ∀ m, (notified m).Nodup
  calls : ∀ t call, calls t = some call → call.phase = .waiting →
    ∃ deadline, system.pause t = .timedWait call.semaphore deadline
  covered : ∀ m, (system.lists m).head ≠ none → (inner m).current ≤ (notified m).length

theorem untimed_of_caller {sys : ObjectSystem Unit} (called : sys.caller SingleCore.cpu = some t) :
    sys.scheduler.executing SingleCore.cpu = some t ∧ ∀ m deadline, sys.pause t ≠ .timedWait m deadline := by
  obtain ⟨executes, untimed⟩ := ObjectSystem.caller_spec called
  refine ⟨executes, fun m deadline same => ?_⟩
  rw [same] at untimed
  cases untimed

/-- The caller, which is not between the critical sections of a wait, pauses. -/
theorem Waits.pause {W' : Nat → List Nat} {pause : Pause} (waits : Waits W system inner notified calls)
    (called : system.caller SingleCore.cpu = some t)
    (members : ∀ u n, u ∈ W' n → u ∈ W n ∨ u = t)
    (orderly : Orderly system'.lists system'.pause W' system'.scheduler) (timed : system'.Timed)
    (paused : system'.pause = Function.update system.pause t pause)
    (kept : ∀ u call, calls' u = some call → call.phase = .waiting →
      (u ≠ t ∧ calls u = some call) ∨ ∃ deadline, system'.pause u = .timedWait call.semaphore deadline)
    (covered : ∀ m, (system'.lists m).head ≠ none → (inner' m).current ≤ (notified m).length) :
    Waits W' system' inner' notified calls' := by
  have untimed := (untimed_of_caller called).2
  refine ⟨orderly, timed, fun n u here => ?_, waits.nodup, fun u call here waiting => ?_, covered⟩
  · obtain ⟨absent, deadline, same⟩ := waits.popped n u here
    have other : u ≠ t := by
      rintro rfl
      exact untimed n deadline same
    refine ⟨fun listed => ?_, deadline, by rw [paused, Function.update_of_ne other]; exact same⟩
    rcases members u n listed with before | rfl
    · exact absent before
    · exact other rfl
  · rcases kept u call here waiting with ⟨other, before⟩ | now
    · rw [paused, Function.update_of_ne other]
      exact waits.calls u call before waiting
    · exact now

theorem Waits.fewer (waits : Waits W system inner notified calls)
    (fewer : ∀ m, (inner' m).current ≤ (inner m).current) : Waits W system inner' notified calls :=
  ⟨waits.orderly, waits.timed, waits.popped, waits.nodup, waits.calls,
    fun m listed => Nat.le_trans (fewer m) (waits.covered m listed)⟩

theorem Waits.setCall {call : Option TakeCall} (waits : Waits W system inner notified calls)
    (outside : ∀ c, call = some c → c.phase ≠ .waiting) :
    Waits W system inner notified (Function.update calls t call) := by
  refine ⟨waits.orderly, waits.timed, waits.popped, waits.nodup, fun u c here waiting => ?_,
    waits.covered⟩
  by_cases own : u = t
  · rw [own, Function.update_self] at here
    exact absurd waiting (outside c here)
  · rw [Function.update_of_ne own] at here
    exact waits.calls u c here waiting

theorem take_fewer (sys : SemaphoreSystem) (m n : Nat) :
    ((sys.take m).1.inner n).current ≤ (sys.inner n).current := by
  by_cases own : n = m
  · rw [own, take_current]
    exact Nat.sub_le _ _
  · rw [take_other sys own]

theorem op_waits {o : Op} (waits : Waits W system inner notified calls)
    (free : o.blocking = true → ∀ t, system.scheduler.executing SingleCore.cpu = some t →
      calls t = none)
    (done : ObjectSystem.step (.op o) system = .ok system') :
    Waits W system' inner notified calls := by
  obtain ⟨orderly, timed, lists, paused⟩ := ObjectSystem.op_timed waits.orderly waits.timed done
  have covered : ∀ m, (system'.lists m).head ≠ none → (inner m).current ≤ (notified m).length := by
    rw [lists]
    exact waits.covered
  rcases paused with paused | ⟨blocking, t, called, paused⟩
  · refine ⟨orderly, timed, ?_, waits.nodup, ?_, covered⟩
    · rw [paused]
      exact waits.popped
    · rw [paused]
      exact waits.calls
  · refine waits.pause called (fun _ _ => Or.inl) orderly timed paused (fun u call here _ => ?_) covered
    refine Or.inl ⟨?_, here⟩
    rintro rfl
    rw [free blocking u (untimed_of_caller called).1] at here
    cases here

/-- The first check of a call, with what the call becomes. -/
theorem check_waits {deadline : Nat} {taken : Bool}
    (waits : Waits W system inner notified calls)
    (executes : system.scheduler.executing SingleCore.cpu = some t)
    (fewer : ∀ n, (inner' n).current ≤ (inner n).current)
    (empty : taken = false → (inner' m).current = 0)
    (own : ∀ c, calls' t = some c → c.phase = .waiting → taken = false ∧
      c.semaphore = m ∧ (system'.pause t).isTimedWait = true)
    (others : ∀ u, u ≠ t → calls' u = calls u)
    (done : ObjectSystem.step (.call m (.waitUntilWithCheck taken deadline expired)) system =
      .ok system') :
    ∃ W', Waits W' system' inner' notified calls' := by
  obtain ⟨u, W', list, more, called, orderly, timed, lists, paused, spares, -, outcome⟩ :=
    ObjectSystem.check_timed waits.orderly waits.timed done
  obtain rfl : t = u := Option.some.inj (executes.symm.trans (untimed_of_caller called).1)
  have members : ∀ u n, u ∈ W' n → u ∈ W n ∨ u = t := by
    intro u n here
    by_cases own' : u = t
    · exact Or.inr own'
    · exact Or.inl ((spares.mem_iff own' n).mp here)
  refine ⟨W', waits.pause called members orderly timed paused (fun u c here waiting => ?_) ?_⟩
  · by_cases own' : u = t
    · subst own'
      obtain ⟨-, rfl, waits⟩ := own c here waiting
      rw [paused, Function.update_self] at waits ⊢
      cases more with
      | false => cases waits
      | true => exact Or.inr ⟨deadline, rfl⟩
    · rw [others u own'] at here
      exact Or.inl ⟨own', here⟩
  · intro n listed
    rw [lists] at listed
    by_cases here : n = m
    · subst here
      rw [Function.update_self] at listed
      rcases outcome with ⟨-, -, same, -⟩ | ⟨failed, -⟩
      · rw [same] at listed
        exact Nat.le_trans (fewer n) (waits.covered n listed)
      · rw [empty failed]
        exact Nat.zero_le _
    · rw [Function.update_of_ne here] at listed
      exact Nat.le_trans (fewer n) (waits.covered n listed)

/-- A list from which threads were only taken was not empty if it is not. -/
theorem listed_before {W' : Nat → List Nat} (orderly : Orderly system.lists system.pause W system.scheduler)
    (orderly' : Orderly system'.lists system'.pause W' system'.scheduler)
    (members : ∀ u n, u ∈ W' n → u ∈ W n) (listed : (system'.lists m).head ≠ none) :
    (system.lists m).head ≠ none := by
  intro empty
  obtain ⟨h, first⟩ := Option.ne_none_iff_exists'.mp listed
  have member := members h m (orderly'.chained.head_mem first)
  rw [(ThreadList.links_nil (orderly.chained.links m)).mp empty] at member
  cases member

/-- The second check takes a unit, or there is none: a thread less was popped, but a unit less is left
    or none. -/
theorem recheck_waits {call : TakeCall} (waits : Waits W system inner notified calls)
    (executes : system.scheduler.executing SingleCore.cpu = some t) (here : calls t = some call)
    (waiting : call.phase = .waiting)
    (others : ∀ n, n ≠ call.semaphore → inner' n = inner n)
    (used : (inner' call.semaphore).current = (inner call.semaphore).current - 1)
    (outside : ∀ c, calls' t = some c → c.phase ≠ .waiting)
    (others' : ∀ u, u ≠ t → calls' u = calls u)
    (done : ObjectSystem.step (.resume expired) system = .ok system') :
    ∃ W', Waits W' system' inner' (Function.update notified call.semaphore
      ((notified call.semaphore).erase t)) calls' := by
  obtain ⟨u, m, deadline, executes', pausedAt, orderly, timed, paused, -⟩ :=
    ObjectSystem.resume_timed waits.orderly waits.timed done
  have members : ∀ u n, u ∈ (W n).erase t → u ∈ W n := fun _ _ => List.mem_of_mem_erase
  obtain rfl : t = u := Option.some.inj (executes.symm.trans executes')
  obtain ⟨deadline', same⟩ := waits.calls t call here waiting
  have elsewhere : ∀ n, n ≠ call.semaphore → t ∉ notified n := by
    intro n other member
    obtain ⟨-, deadline, at_⟩ := waits.popped n t member
    rw [same] at at_
    cases at_
    exact other rfl
  have left : ∀ n u, u ∈ Function.update notified call.semaphore
      ((notified call.semaphore).erase t) n → u ∈ notified n ∧ u ≠ t := by
    intro n u member
    by_cases own : n = call.semaphore
    · subst own
      rw [Function.update_self, (waits.nodup _).mem_erase_iff] at member
      exact member.symm
    · rw [Function.update_of_ne own] at member
      refine ⟨member, ?_⟩
      rintro rfl
      exact elsewhere n own member
  refine ⟨fun n => (W n).erase t, orderly, timed, fun n u member => ?_, fun n => ?_,
    fun u c at_ again => ?_, fun n listed => ?_⟩
  · obtain ⟨before, other⟩ := left n u member
    obtain ⟨absent, waitsAt⟩ := waits.popped n u before
    refine ⟨fun listed => absent (members u n listed), ?_⟩
    rw [paused, Function.update_of_ne other]
    exact waitsAt
  · by_cases own : n = call.semaphore
    · rw [own, Function.update_self]
      exact (waits.nodup _).erase t
    · rw [Function.update_of_ne own]
      exact waits.nodup n
  · by_cases own : u = t
    · subst own
      exact absurd again (outside c at_)
    · rw [others' u own] at at_
      rw [paused, Function.update_of_ne own]
      exact waits.calls u c at_ again
  · have covered := waits.covered n (listed_before waits.orderly orderly members listed)
    by_cases own : n = call.semaphore
    · subst own
      rw [Function.update_self, used]
      have shorter : (notified call.semaphore).length - 1 ≤
          ((notified call.semaphore).erase t).length := List.le_length_erase
      omega
    · rw [Function.update_of_ne own, others n own]
      exact covered

theorem timedWait_of_object {sys : ObjectSystem Unit} (timed : sys.Timed)
    (object : (sys.pause t).object = some m) : ∃ deadline, sys.pause t = .timedWait m deadline := by
  cases here : sys.pause t with
  | waits n => exact absurd here (timed t n)
  | timedWait n deadline =>
    rw [here] at object
    cases object
    exact ⟨deadline, rfl⟩
  | _ => rw [here] at object; cases object

/-- A give makes a unit, and its notification pops a thread if there is one. -/
theorem give_waits (waits : Waits W system inner notified calls)
    (others : ∀ n, n ≠ m → inner' n = inner n)
    (made : (inner' m).current = (inner m).current + 1)
    (done : ObjectSystem.step (.call m .notifyOne) system = .ok system') :
    ∃ W', Waits W' system' inner' (Function.update notified m
      ((system.lists m).head.toList ++ notified m)) calls := by
  obtain ⟨W', shorter, members, orderly, timed, paused⟩ :=
    ObjectSystem.notifyOne_timed waits.orderly waits.timed done
  have before := fun n => listed_before (m := n) waits.orderly orderly members
  have calls : ∀ u c, calls u = some c → c.phase = .waiting →
      ∃ deadline, system'.pause u = .timedWait c.semaphore deadline := by
    rw [paused]
    exact waits.calls
  cases first : (system.lists m).head with
  | none =>
    have same : Function.update notified m (Option.none.toList ++ notified m) = notified :=
      Function.update_eq_self m notified
    rw [same]
    refine ⟨W', orderly, timed, fun n u member => ?_, waits.nodup, calls, fun n listed => ?_⟩
    · obtain ⟨absent, waitsAt⟩ := waits.popped n u member
      rw [paused]
      exact ⟨fun here => absent (members u n here), waitsAt⟩
    · have other : n ≠ m := by
        rintro rfl
        exact before n listed first
      rw [others n other]
      exact waits.covered n (before n listed)
  | some h =>
    have chained := waits.orderly.chained
    have member := chained.head_mem first
    have front : h ∉ (W m).tail := by
      have nodup := chained.nodup m
      have links := chained.links m
      cases list : W m with
      | nil => simp
      | cons a rest =>
        rw [list] at nodup links
        obtain rfl : a = h := Option.some.inj (links.1.symm.trans first)
        exact (List.nodup_cons.mp nodup).1
    have fresh : h ∉ notified m := fun popped => (waits.popped m h popped).1 member
    have object := ((waits.orderly.fits h).member member).1
    refine ⟨W', orderly, timed, fun n u popped => ?_, fun n => ?_, calls, fun n listed => ?_⟩
    · rw [paused]
      by_cases own : n = m
      · subst own
        rw [Function.update_self] at popped
        rcases List.mem_cons.mp popped with rfl | earlier
        · rw [shorter]
          exact ⟨front, timedWait_of_object waits.timed object⟩
        · obtain ⟨absent, waitsAt⟩ := waits.popped n u earlier
          exact ⟨fun here => absent (members u n here), waitsAt⟩
      · rw [Function.update_of_ne own] at popped
        obtain ⟨absent, waitsAt⟩ := waits.popped n u popped
        exact ⟨fun here => absent (members u n here), waitsAt⟩
    · by_cases own : n = m
      · subst own
        rw [Function.update_self]
        exact List.nodup_cons.mpr ⟨fresh, waits.nodup n⟩
      · rw [Function.update_of_ne own]
        exact waits.nodup n
    · have covered := waits.covered n (before n listed)
      by_cases own : n = m
      · subst own
        rw [Function.update_self, made]
        exact Nat.succ_le_succ covered
      · rw [Function.update_of_ne own, others n own]
        exact covered

theorem firstCheck_waits {call : TakeCall}
    (waits : Waits W sys.system sys.inner sys.notified sys.calls)
    (here : sys.taker = some (t, some call))
    (done : sys.firstCheck fromMicros expired t call = .ok sys') :
    ∃ W', Waits W' sys'.system sys'.inner sys'.notified sys'.calls := by
  obtain ⟨executes, -⟩ := taker_ok here
  obtain ⟨system, stepped, rfl⟩ := firstCheck_ok done
  rw [checked_system, checked_inner, checked_notified, checked_calls]
  dsimp only
  rw [take_notified, take_calls]
  refine check_waits waits executes (take_fewer sys call.semaphore) take_empty
    (fun c same waiting => ?_) (fun u other => Function.update_of_ne other _ _) stepped
  rw [Function.update_self] at same
  cases taken : (sys.take call.semaphore).2 with
  | true =>
    rw [taken] at same
    cases same
  | false =>
    rw [taken] at same
    cases same
    refine ⟨rfl, rfl, ?_⟩
    cases timedWait : (system.pause t).isTimedWait with
    | true => rfl
    | false =>
      rw [timedWait] at waiting
      cases waiting

theorem secondCheck_waits {call : TakeCall}
    (waits : Waits W sys.system sys.inner sys.notified sys.calls)
    (here : sys.taker = some (t, some call)) (waiting : call.phase = .waiting)
    (done : sys.secondCheck expired t call = .ok sys') :
    ∃ W', Waits W' sys'.system sys'.inner sys'.notified sys'.calls := by
  obtain ⟨executes, calls⟩ := taker_ok here
  obtain ⟨system, next, stepped, rfl, rfl⟩ := secondCheck_ok done
  rw [checked_system, checked_inner, checked_notified, checked_calls, take_system, take_notified,
    take_calls]
  refine recheck_waits waits executes calls waiting (fun n other => take_other _ other)
    (take_current _ _) (fun c same => ?_) (fun u other => Function.update_of_ne other _ _) stepped
  rw [Function.update_self] at same
  split at same
  · cases same
  · cases same
    exact nofun

theorem giveAndNotify_waits (waits : Waits W sys.system sys.inner sys.notified sys.calls)
    (done : sys.giveAndNotify m = .ok sys') :
    ∃ W', Waits W' sys'.system sys'.inner sys'.notified sys'.calls := by
  rcases give_cases done with rfl | ⟨-, system, stepped, rfl⟩
  · exact ⟨W, waits⟩
  · refine give_waits waits (fun n other => Function.update_of_ne other _ _) ?_ stepped
    exact congrArg Counting.current (Function.update_self m _ sys.inner)

theorem step_waits {e : SemaphoreEvent}
    (waits : Waits W sys.system sys.inner sys.notified sys.calls)
    (done : step fromMicros e sys = .ok sys') :
    ∃ W', Waits W' sys'.system sys'.inner sys'.notified sys'.calls := by
  have took : ∀ self, Waits W (sys.take self).1.system (sys.take self).1.inner
      (sys.take self).1.notified (sys.take self).1.calls := by
    intro self
    rw [take_system, take_notified, take_calls]
    exact waits.fewer (take_fewer sys self)
  cases e with
  | op o =>
    simp only [step] at done
    split at done
    · cases done
    · rename_i free
      obtain ⟨system, stepped, rest⟩ := bind_ok_iff.mp done
      cases rest
      refine ⟨W, op_waits waits (fun blocking t executes => ?_) stepped⟩
      cases call : sys.calls t with
      | none => rfl
      | some call' =>
        refine absurd ⟨blocking, ?_⟩ free
        have here : sys.taker = some (t, sys.calls t) := congrArg (Option.map _) executes
        rw [here, call]
        rfl
  | takeWithDeadline self deadline =>
    simp only [step] at done
    split at done
    · cases done
      exact ⟨W, waits.setCall fun c same => by cases same; exact nofun⟩
    · cases done
  | check expired =>
    simp only [step] at done
    split at done
    · rename_i t call here
      split at done
      · exact firstCheck_waits waits here done
      · cases done
    · cases done
  | recheck expired =>
    simp only [step] at done
    split at done
    · rename_i t call here
      split at done
      · rename_i waiting
        exact secondCheck_waits waits here waiting done
      · cases done
    · cases done
  | compare now =>
    simp only [step] at done
    split at done
    · split at done
      · cases done
      · split at done
        · cases done
          exact ⟨W, waits.setCall nofun⟩
        · cases done
          exact ⟨W, waits.setCall fun c same => by cases same; exact nofun⟩
    · cases done
  | tryTake self => cases done; exact ⟨W, took self⟩
  | tryTakeFromIsr self => cases done; exact ⟨W, took self⟩
  | give self => exact giveAndNotify_waits waits done
  | tryGiveFromIsr self => exact giveAndNotify_waits waits done

end Waits

/-- The units add up, and every unit that is left while threads wait is for a thread that was popped. -/
structure Sound (initial max : Nat → Nat) (sys : SemaphoreSystem) : Prop where
  accounts : Accounts initial max sys
  waits : ∃ W, Waits W sys.system sys.inner sys.notified sys.calls

theorem new_sound (bounded : ∀ m, initial m ≤ max m) : Sound initial max (new initial max) where
  accounts := ⟨fun _ => rfl, fun _ => rfl, bounded, nofun, nofun⟩
  waits := by
    have safe : ObjectSystem.Safe (ObjectSystem.new (fun _ => .waitQueue .new) fun _ => ()) :=
      ObjectSystem.new_safe fun _ => .waitQueue
    obtain ⟨W, orderly⟩ := safe
    exact ⟨W, orderly, fun _ _ => nofun, fun _ _ => nofun, fun _ => List.nodup_nil, fun _ _ => nofun,
      fun _ listed => absurd rfl listed⟩

theorem step_sound {e : SemaphoreEvent} (sound : Sound initial max sys)
    (done : step fromMicros e sys = .ok sys') : Sound initial max sys' where
  accounts := step_accounts sound.accounts done
  waits := by
    obtain ⟨W, waits⟩ := sound.waits
    exact step_waits waits done

/-- Units are neither made nor lost, a thread that took one is told so, and no thread waits for a unit
    that nobody was woken up for. -/
theorem units_conserved (bounded : ∀ m, initial m ≤ max m)
    (reached : Reachable (step fromMicros) (new initial max) sys) :
    (∀ m, (sys.inner m).current + sys.takes m = initial m + sys.gives m ∧
      (sys.inner m).current ≤ max m ∧ (sys.notified m).Nodup ∧
      (∀ t ∈ sys.notified m, ∃ deadline, sys.system.pause t = .timedWait m deadline) ∧
      ((sys.system.lists m).head ≠ none → (sys.inner m).current ≤ (sys.notified m).length)) ∧
      ∀ r ∈ sys.returns, r.taken = if r.result then 1 else 0 := by
  have sound := reached.invariant (Sound initial max) (new_sound bounded)
    fun _ _ _ sound _ done => step_sound sound done
  obtain ⟨accounts, W, waits⟩ := sound
  exact ⟨fun m => ⟨accounts.count m, accounts.bound m, waits.nodup m,
    fun t popped => (waits.popped m t popped).2, waits.covered m⟩, accounts.returns⟩

/-- Two threads wait on semaphore 0 when an interrupt gives a unit, which is for thread 1. -/
theorem units_conserved_sample : ∃ sys, Reachable (step id) (new (fun _ => 0) fun _ => 1) sys ∧
    (sys.system.lists 0).head = some 0 ∧ (sys.inner 0).current = 1 ∧ sys.notified 0 = [1] ∧
    (sys.inner 0).current + sys.takes 0 = 0 + sys.gives 0 ∧
    (sys.inner 0).current ≤ (sys.notified 0).length := by
  have run : ∃ sys, Reachable (step id) (new (fun _ => 0) fun _ => 1) sys ∧
      ((sys.system.lists 0).head == some 0 && (sys.inner 0).current == 1 &&
        sys.notified 0 == [1]) = true :=
    reaches_of_check ([.op (.create 0 512 1 none), .op (.create 512 512 2 none),
      .op .startThreading, .op .enterPendsv, .op .sched, .takeWithDeadline 0 none, .check [],
      .op .enterPendsv, .op .sched, .takeWithDeadline 0 (some 5), .check [],
      .tryGiveFromIsr 0]) (by decide +kernel)
  obtain ⟨sys, reached, checked⟩ := run
  simp only [Bool.and_eq_true, beq_iff_eq] at checked
  obtain ⟨⟨first, one⟩, popped⟩ := checked
  obtain ⟨units, -⟩ := units_conserved (fun _ => Nat.zero_le 1) reached
  obtain ⟨sum, -, -, -, covered⟩ := units 0
  exact ⟨sys, reached, first, one, popped, sum, covered (by rw [first]; nofun)⟩

end SemaphoreSystem

end ArielOS
