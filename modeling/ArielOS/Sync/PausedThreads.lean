import ArielOS.Sync.Objects
import ArielOS.Threads.OpEffects
import ArielOS.Threads.SingleCore

namespace ArielOS

open Machine Scheduler

variable {s s' : Scheduler} {t m : Nat} {state old : ThreadState} {deadline : Option Nat}
  {pause : Pause} {In : Nat → Prop}

/-- The states of a thread that has not been woken since it paused. -/
def Pause.Kind (state : ThreadState) : Pause → Prop
  | .idle => state.inList = false
  | .sleep _ => state = .parked
  | .waits _ => state.inList = true
  | .timedWait .. => state = .waitQueueBlocked

/-- What holds of one thread, where `In` are the objects in whose lists it is: only threads that an
    object blocks are in a list, and those whose timed wait expired and that did not run since. -/
structure Pause.Fits (pause : Pause) (state : ThreadState) (deadline : Option Nat)
    (In : Nat → Prop) : Prop where
  member : ∀ {m}, In m → pause.object = some m ∧
    (state.inList = true ∨ (state = .running ∧ pause.isTimedWait = true ∧ deadline = none))
  listed : state.inList = true → ∃ m, In m
  kind : state ≠ .running → pause.Kind state
  timed : state ≠ .running → ∀ d, pause.deadline = some d → deadline = some d

namespace Pause.Fits

theorem running_of_absent (absent : ∀ m, ¬ In m) : pause.Fits .running deadline In where
  member := fun here => absurd here (absent _)
  listed := fun blocked => by cases blocked
  kind := fun stopped => absurd rfl stopped
  timed := fun stopped => absurd rfl stopped

theorem absent (fits : pause.Fits state deadline In) (outside : state.inList = false)
    (untimed : state = .running → pause.isTimedWait = false) : ∀ m, ¬ In m := by
  intro m here
  rcases (fits.member here).2 with blocked | ⟨running, timed, -⟩
  · simp [outside] at blocked
  · simp [untimed running] at timed

/-- The deadline is still set, so the thread is in no list any more. -/
theorem absent_of_deadline (fits : pause.Fits .running deadline In) (set : deadline ≠ none) :
    ∀ m, ¬ In m := by
  intro m here
  rcases (fits.member here).2 with blocked | ⟨-, -, unset⟩
  · cases blocked
  · exact set unset

/-- A thread that no object blocks is woken. -/
theorem wake (fits : pause.Fits state deadline In) (outside : state.inList = false)
    (stopped : state ≠ .running) {deadline' : Option Nat} : pause.Fits .running deadline' In :=
  running_of_absent (fits.absent outside fun running => absurd running stopped)

/-- The deadline of a thread expires. It stays in the list of a timed wait. -/
theorem expire (fits : pause.Fits state deadline In)
    (spared : state.inList = true → pause.deadline ≠ none) : pause.Fits .running none In := by
  refine ⟨fun here => ⟨(fits.member here).1, Or.inr ⟨rfl, ?_, rfl⟩⟩, ?_, ?_, ?_⟩
  · rcases (fits.member here).2 with blocked | ⟨-, timed, -⟩
    · have kind := fits.kind (by rintro rfl; cases blocked)
      have set := spared blocked
      cases pause with
      | timedWait object deadline => rfl
      | sleep deadline => rw [show state = .parked from kind] at blocked; cases blocked
      | _ => exact absurd rfl set
    · exact timed
  · intro blocked
    cases blocked
  · exact fun stopped => absurd rfl stopped
  · exact fun stopped => absurd rfl stopped

/-- A thread stops, and no object blocks it. -/
theorem stop {pause' : Pause} (absent : ∀ m, ¬ In m) (outside : state.inList = false)
    (kind : pause'.Kind state) (timed : ∀ d, pause'.deadline = some d → deadline = some d) :
    pause'.Fits state deadline In where
  member := fun here => absurd here (absent _)
  listed := fun blocked => by simp [outside] at blocked
  kind := fun _ => kind
  timed := fun _ => timed

/-- A thread stops in the list of an object. -/
theorem block {pause' : Pause} (only : ∀ n, In n ↔ n = m) (object : pause'.object = some m)
    (blocked : state.inList = true) (kind : pause'.Kind state)
    (timed : ∀ d, pause'.deadline = some d → deadline = some d) :
    pause'.Fits state deadline In where
  member := fun here => ⟨(only _).mp here ▸ object, Or.inl blocked⟩
  listed := fun _ => ⟨m, (only m).mpr rfl⟩
  kind := fun _ => kind
  timed := fun _ => timed

end Pause.Fits

/-- A wake by a timer is spared an object's list, but for a thread in a timed wait. -/
def Pause.Spares (pause : Nat → Pause) (s : Scheduler) (t : Nat) : Prop :=
  (s.stateOf t).inList = true → (pause t).deadline ≠ none

/-- The threads `W` of all lists are linked, and every thread is where it should be. -/
structure Orderly (lists : Nat → ThreadList) (pause : Nat → Pause) (W : Nat → List Nat)
    (s : Scheduler) : Prop where
  named : s.Named fun _ => False
  invariant : SingleCore.Invariant s
  chained : Chained lists W s
  fits : ∀ t, (pause t).Fits (s.stateOf t) (s.deadlineOf t) fun m => t ∈ W m
  bounded : ∀ {m t}, t ∈ W m → t < threadCount

namespace Orderly

variable {lists lists' : Nat → ThreadList} {pauses pauses' : Nat → Pause} {W W' : Nat → List Nat}
  {list' : ThreadList}

/-- The keeping of what scheduling depends on, and of the links. -/
theorem keeps {b : Nat → Option Nat} : Keeps SingleCore.cpu (fun _ => False) (fun _ _ => True)
    (fun _ _ _ => True) (fun _ => True) True
    (fun s => SingleCore.Invariant s ∧ s.threadBlocklist = b) :=
  (SingleCore.keeps _).blocklist

theorem known (orderly : Orderly lists pauses W s) {h : Nat} (first : (lists m).head = some h) :
    s.tidOf h = h := by
  apply orderly.named.created
  intro unused
  rcases ((orderly.fits h).member (orderly.chained.head_mem first)).2 with blocked | ⟨running, -⟩
  · simp [unused, ThreadState.inList] at blocked
  · simp [unused] at running

/-- A ready thread is in no list, but for one whose timed wait expired. -/
theorem absent (orderly : Orderly lists pauses W s) (running : s.stateOf t = .running)
    (free : (pauses t).isTimedWait = false ∨ s.deadlineOf t ≠ none) : ∀ n, t ∉ W n := by
  have fits := orderly.fits t
  rcases free with untimed | set
  · exact fits.absent (by simp [running, ThreadState.inList]) fun _ => untimed
  · rw [running] at fits
    exact fits.absent_of_deadline set

/-- Only one thread is affected. -/
theorem change (orderly : Orderly lists pauses W s) (named : s'.Named fun _ => False)
    (invariant : SingleCore.Invariant s') (chained : Chained lists' W' s')
    (others : ∀ u, u ≠ t → pauses' u = pauses u ∧ s'.stateOf u = s.stateOf u ∧
      s'.deadlineOf u = s.deadlineOf u ∧ ∀ n, u ∈ W' n ↔ u ∈ W n)
    (own : (pauses' t).Fits (s'.stateOf t) (s'.deadlineOf t) fun n => t ∈ W' n)
    (bound : ∀ n, t ∈ W' n → t < threadCount) : Orderly lists' pauses' W' s' := by
  refine ⟨named, invariant, chained, ?_, ?_⟩
  · intro u
    by_cases same : u = t
    · exact same ▸ own
    · obtain ⟨pause, state, deadline, members⟩ := others u same
      rw [pause, state, deadline, funext fun n => propext (members n)]
      exact orderly.fits u
  · intro n u member
    by_cases same : u = t
    · subst same
      exact bound n member
    · exact orderly.bounded (((others u same).2.2.2 n).mp member)

/-- What a ready thread that is in no list waits for does not matter. -/
theorem setPause (orderly : Orderly lists pauses W s) (running : s.stateOf t = .running)
    (absent : ∀ n, t ∉ W n) (p : Pause) :
    Orderly lists (Function.update pauses t p) W s := by
  refine orderly.change orderly.named orderly.invariant orderly.chained (t := t) ?_ ?_ ?_
  · exact fun u other => ⟨Function.update_of_ne other _ _, rfl, rfl, fun _ => Iff.rfl⟩
  · rw [running]
    exact .running_of_absent absent
  · exact fun n here => absurd here (absent n)

/-- Nor does its deadline. -/
theorem quiet (orderly : Orderly lists pauses W s) (running : s.stateOf t = .running)
    (absent : ∀ n, t ∉ W n) (quiet : Quiet s s')
    (others : ∀ u, u ≠ t → s'.deadlineOf u = s.deadlineOf u) : Orderly lists pauses W s' := by
  have ⟨invariant, blocklist⟩ := keeps.quiet quiet ⟨orderly.invariant, rfl⟩
  refine orderly.change (orderly.named.quiet quiet) invariant (orderly.chained.congr blocklist)
    (t := t) ?_ ?_ ?_
  · exact fun u other => ⟨rfl, congrFun quiet.stateOf u, others u other, fun _ => Iff.rfl⟩
  · rw [quiet.stateOf, running]
    exact .running_of_absent absent
  · exact fun n here => absurd here (absent n)

theorem wake {now : Nat} (orderly : Orderly lists pauses W s)
    (spared : s.timerDue t now = true → s.stateOf t ≠ .running → Pause.Spares pauses s t)
    (done : s.wake SingleCore.cpu t now = .ok s') : Orderly lists pauses W s' := by
  obtain ⟨named, invariant, blocklist⟩ :=
    keeps.wake orderly.named ⟨orderly.invariant, rfl⟩ (fun _ _ => trivial) done
  rcases wake_ok done with ⟨-, rfl⟩ | ⟨due, s₁, quiet, cleared, outcome⟩
  · exact orderly
  have expired : s'.stateOf = Function.update s.stateOf t .running ∧
      s'.deadlineOf = Function.update s.deadlineOf t none ∧
      ((s.stateOf t).inList = true → (pauses t).deadline ≠ none) := by
    rcases outcome with ⟨running, rfl⟩ | ⟨stopped, old, set⟩
    · refine ⟨?_, cleared, fun blocked => ?_⟩
      · rw [quiet.stateOf, ← running, Function.update_eq_self]
      · simp [running, ThreadState.inList] at blocked
    · exact ⟨by rw [setState_stateOf set, quiet.stateOf],
        (setState_deadlineOf set).trans cleared, spared due stopped⟩
  obtain ⟨states, deadlines, spares⟩ := expired
  refine orderly.change named invariant (orderly.chained.congr blocklist) (t := t) ?_ ?_ ?_
  · intro u other
    rw [states, deadlines, Function.update_of_ne other, Function.update_of_ne other]
    exact ⟨rfl, rfl, rfl, fun _ => Iff.rfl⟩
  · rw [states, deadlines, Function.update_self, Function.update_self]
    exact (orderly.fits t).expire spares
  · exact fun n here => orderly.bounded here

theorem wakeAll {expired : List (Nat × Nat)} (orderly : Orderly lists pauses W s)
    (spared : WakesPermitted SingleCore.cpu (Pause.Spares pauses) expired s)
    (done : Scheduler.wakeAll SingleCore.cpu expired s = .ok s') : Orderly lists pauses W s' := by
  induction expired generalizing s with
  | nil =>
    cases done
    exact orderly
  | cons first expired ih =>
    obtain ⟨s₁, woken, rest⟩ := bind_ok_iff.mp done
    exact ih (orderly.wake spared.1 woken) (spared.2 s₁ woken) rest

/-- The current thread stops outside of the lists. -/
theorem stop {p : Pause} (orderly : Orderly lists pauses W s)
    (own : s.currentTid SingleCore.cpu = some t) (absent : ∀ n, t ∉ W n)
    (outside : state.inList = false) (stops : state ≠ .running) (kind : p.Kind state)
    (timed : ∀ d, p.deadline = some d → s.deadlineOf t = some d)
    (done : s.setState SingleCore.cpu t state = .ok (s', old)) :
    Orderly lists (Function.update pauses t p) W s' := by
  obtain ⟨named, invariant, blocklist⟩ :=
    keeps.stopped orderly.named own trivial stops ⟨orderly.invariant, rfl⟩ done
  refine orderly.change named invariant (orderly.chained.congr blocklist) (t := t) ?_ ?_ ?_
  · intro u other
    rw [setState_stateOf done, setState_deadlineOf done, Function.update_of_ne other,
      Function.update_of_ne other]
    exact ⟨rfl, rfl, rfl, fun _ => Iff.rfl⟩
  · rw [setState_stateOf done, setState_deadlineOf done, Function.update_self,
      Function.update_self]
    exact .stop absent outside kind timed
  · exact fun n here => absurd here (absent n)

/-- The current thread blocks in list `m`, where the others keep their order. -/
theorem put {p : Pause} {inherit : Option Nat} (orderly : Orderly lists pauses W s)
    (own : s.currentTid SingleCore.cpu = some t) (absent : ∀ n, t ∉ W n)
    (object : p.object = some m) (blocked : state.inList = true) (kind : p.Kind state)
    (timed : ∀ d, p.deadline = some d → s.deadlineOf t = some d)
    (done : (lists m).putCurrent SingleCore.cpu s state = .ok (list', s', inherit)) :
    ∃ W', (∀ n, (W' n).erase t = W n) ∧ (∀ n, t ∈ W' n ↔ n = m) ∧
      Orderly (Function.update lists m list') (Function.update pauses t p) W' s' := by
  have stops : state ≠ .running := by
    rintro rfl
    cases blocked
  obtain ⟨named, invariant, -⟩ := (SingleCore.keeps _).putCurrent SingleCore.invariant_link
    orderly.named orderly.invariant (fun h => orderly.known) (fun _ _ => trivial) stops done
  obtain ⟨A, B, split, states, chained⟩ := orderly.chained.put orderly.named own absent done
  have deadlines := ThreadList.putCurrent_deadlineOf done
  have bound := ThreadList.putCurrent_bound own (orderly.named.current _ t own) done
  have front : t ∉ A := fun here => absent m (by simp [split, here])
  have erased : ∀ n, (Function.update W m (A ++ t :: B) n).erase t = W n := by
    intro n
    by_cases same : n = m
    · subst same
      rw [Function.update_self, List.erase_append_right _ front, List.erase_cons_head, split]
    · rw [Function.update_of_ne same, List.erase_of_not_mem (absent n)]
  have entered : ∀ n, t ∈ Function.update W m (A ++ t :: B) n ↔ n = m := by
    intro n
    by_cases same : n = m
    · subst same
      simp
    · simp [same, absent n]
  have others : ∀ u n, u ≠ t → (u ∈ Function.update W m (A ++ t :: B) n ↔ u ∈ W n) := by
    intro u n other
    rw [← erased n, List.mem_erase_of_ne other]
  refine ⟨_, erased, entered, orderly.change named invariant chained (t := t) ?_ ?_ ?_⟩
  · intro u other
    rw [states, deadlines, Function.update_of_ne other, Function.update_of_ne other]
    exact ⟨rfl, rfl, rfl, fun n => others u n other⟩
  · rw [states, deadlines, Function.update_self, Function.update_self]
    exact .block entered object blocked kind timed
  · exact fun _ _ => bound

/-- The first thread of list `m` is woken. -/
theorem pop {popped : Option (Nat × ThreadState)} (orderly : Orderly lists pauses W s)
    (done : (lists m).pop SingleCore.cpu s = .ok (list', s', popped)) :
    ∃ W', W' m = (W m).tail ∧ (∀ u n, u ∈ W' n → u ∈ W n) ∧
      Orderly (Function.update lists m list') pauses W' s' := by
  obtain ⟨named, invariant, -⟩ := (SingleCore.keeps _).pop SingleCore.invariant_link
    (fun _ => trivial) orderly.named orderly.invariant (fun h => orderly.known)
    (fun _ _ => trivial) done
  have deadlines := ThreadList.pop_deadlineOf done
  rcases orderly.chained.pop done with ⟨empty, rfl, rfl, -⟩ | ⟨h, rest, front, -, states, chained⟩
  · rw [Function.update_eq_self]
    exact ⟨W, by rw [empty]; rfl, fun _ _ => id, orderly⟩
  have distinct := orderly.chained.nodup m
  rw [front] at distinct
  have members : ∀ u n, u ∈ Function.update W m rest n ↔ u ∈ W n ∧ u ≠ h := by
    intro u n
    by_cases same : n = m
    · subst same
      rw [Function.update_self, front, List.mem_cons]
      have once := (List.nodup_cons.mp distinct).1
      grind
    · rw [Function.update_of_ne same]
      refine ⟨fun here => ⟨here, fun isHead => ?_⟩, And.left⟩
      exact same (orderly.chained.apart here (by simp [front, isHead]))
  refine ⟨_, by rw [Function.update_self, front]; rfl, fun u n here => ((members u n).mp here).1,
    orderly.change named invariant chained (t := h) ?_ ?_ ?_⟩
  · intro u other
    rw [states, deadlines, Function.update_of_ne other]
    exact ⟨rfl, rfl, rfl, fun n => by simp [members, other]⟩
  · rw [states, Function.update_self]
    exact .running_of_absent fun n here => ((members h n).mp here).2 rfl
  · exact fun n here => absurd rfl ((members h n).mp here).2

/-- The current thread leaves the list of a timed wait that expired, if it is still there. -/
theorem removeCurrent {removed : Bool} (orderly : Orderly lists pauses W s)
    (own : s.currentTid SingleCore.cpu = some t) (running : s.stateOf t = .running)
    (object : (pauses t).object = some m) (p : Pause)
    (done : (lists m).removeCurrent SingleCore.cpu s = .ok (list', s', removed)) :
    removed = decide (t ∈ W m) ∧ s'.stateOf = s.stateOf ∧
      Orderly (Function.update lists m list') (Function.update pauses t p)
        (fun n => (W n).erase t) s' := by
  obtain ⟨named, invariant, -⟩ := (SingleCore.keeps _).removeCurrent SingleCore.invariant_link
    (fun _ => trivial) orderly.named orderly.invariant (fun h => orderly.known)
    (fun _ _ _ => trivial) done
  have deadlines := ThreadList.removeCurrent_deadlineOf done
  obtain ⟨-, found, -⟩ :=
    ThreadList.removeCurrent_links (orderly.chained.links m) (orderly.chained.nodup m) own done
  obtain ⟨chained, states⟩ := orderly.chained.removeCurrent own done
  have same : s'.stateOf = s.stateOf := by
    rw [states]
    split
    · rw [← running, Function.update_eq_self]
    · rfl
  have elsewhere : ∀ n, n ≠ m → t ∉ W n := by
    intro n other here
    exact other (Option.some.inj (((orderly.fits t).member here).1.symm.trans object))
  have erased : Function.update W m ((W m).erase t) = fun n => (W n).erase t := by
    funext n
    by_cases same : n = m
    · rw [same, Function.update_self]
    · rw [Function.update_of_ne same, List.erase_of_not_mem (elsewhere n same)]
  have gone : ∀ n, t ∉ (W n).erase t := fun n => (orderly.chained.nodup n).not_mem_erase
  rw [erased] at chained
  refine ⟨found, same, orderly.change named invariant chained (t := t) ?_ ?_ ?_⟩
  · intro u other
    rw [same, deadlines, Function.update_of_ne other]
    exact ⟨rfl, rfl, rfl, fun n => List.mem_erase_of_ne other⟩
  · rw [same, running]
    exact .running_of_absent gone
  · exact fun n here => absurd here (gone n)

theorem setPriority {prio : Nat} (orderly : Orderly lists pauses W s)
    (done : s.setPriority SingleCore.cpu t prio = .ok s') : Orderly lists pauses W s' := by
  obtain ⟨states, blocklist⟩ := setPriority_keeps done
  refine ⟨orderly.named.setPriority done, SingleCore.invariant_setPriority orderly.invariant done,
    orderly.chained.congr blocklist, fun u => ?_, orderly.bounded⟩
  rw [states, setPriority_deadlineOf done]
  exact orderly.fits u

/-- An operation without a timer, of a thread that waits for nothing if it can block. -/
theorem op {o : Op} (orderly : Orderly lists pauses W s) (untimed : o.timed = false)
    (may : o.blocking = true → ∀ t, s.currentTid SingleCore.cpu = some t →
      (∀ n, t ∉ W n) ∧ pauses t = .idle)
    (done : o.run SingleCore.cpu s = .ok s') : Orderly lists pauses W s' := by
  obtain ⟨named, invariant, blocklist⟩ := keeps.run orderly.named ⟨orderly.invariant, rfl⟩
    (o.permitted_true s) (fun _ _ _ => trivial) (fun _ => trivial) done
  refine ⟨named, invariant, orderly.chained.congr blocklist, fun t => ?_, orderly.bounded⟩
  rw [Op.run_deadlineOf untimed done]
  have fits := orderly.fits t
  rcases Op.run_stateOf (t := t) orderly.named done with same | ⟨ready, wakes⟩ | ⟨own, stops⟩
  · rwa [same]
  · obtain ⟨outside, stopped⟩ := Op.wakes_outside untimed wakes
    rw [ready]
    exact fits.wake outside stopped
  · obtain ⟨absent, idle⟩ := may (Op.stops_blocking stops) t own
    have outside := Op.stops_outside stops
    rw [idle]
    exact .stop absent outside outside fun d set => by cases set

theorem setDeadline {deadline : Nat} {expired : List (Nat × Nat)} {inFuture : Bool}
    (orderly : Orderly lists pauses W s) (own : s.currentTid SingleCore.cpu = some t)
    (running : s.stateOf t = .running) (absent : ∀ n, t ∉ W n)
    (spared : ∀ s₁, s.armDeadline SingleCore.cpu deadline = .ok s₁ →
      WakesPermitted SingleCore.cpu (Pause.Spares pauses) expired s₁)
    (done : s.setDeadline SingleCore.cpu deadline expired = .ok (s', inFuture)) :
    Orderly lists pauses W s' ∧ s'.currentTid SingleCore.cpu = some t ∧
      s'.stateOf t = .running ∧ (inFuture = true → s'.deadlineOf t = some deadline) := by
  obtain ⟨s₁, armed, woken⟩ := setDeadline_ok done
  obtain ⟨quiet, u, own', set⟩ := armDeadline_ok armed
  obtain rfl : t = u := Option.some.inj (own.symm.trans own')
  have orderly₁ := orderly.quiet running absent quiet fun u other => by
    rw [set, Function.update_of_ne other]
  have same : s'.currentThreads = s.currentThreads :=
    (Keeps.wakeAll_currentThreads woken).trans quiet.currentThreads
  refine ⟨orderly₁.wakeAll (spared s₁ armed) woken, ?_, ?_, (setDeadline_future own done).2⟩
  · rw [currentTid, same]
    exact own
  · exact wakeAll_running (by rw [quiet.stateOf, running]) woken

theorem sleepUntil {deadline : Nat} {expired : List (Nat × Nat)}
    (orderly : Orderly lists pauses W s) (own : s.currentTid SingleCore.cpu = some t)
    (running : s.stateOf t = .running) (absent : ∀ n, t ∉ W n)
    (spared : ∀ s₁, s.armDeadline SingleCore.cpu deadline = .ok s₁ →
      WakesPermitted SingleCore.cpu (Pause.Spares pauses) expired s₁)
    (done : s.sleepUntil SingleCore.cpu deadline expired = .ok s') :
    Orderly lists (Function.update pauses t (.sleep deadline)) W s' := by
  obtain ⟨⟨s₁, inFuture⟩, set, rest⟩ := bind_ok_iff.mp done
  obtain ⟨orderly₁, own₁, running₁, future⟩ := orderly.setDeadline own running absent spared set
  cases inFuture with
  | false =>
    cases rest
    exact orderly₁.setPause running₁ absent _
  | true =>
    rcases park_ok rest with rfl | ⟨u, old, own', parked⟩
    · exact orderly₁.setPause running₁ absent _
    · obtain rfl : t = u := Option.some.inj (own₁.symm.trans own')
      refine orderly₁.stop own₁ absent rfl (by simp) rfl ?_ parked
      intro d same
      cases same
      exact future rfl

/-- The second critical section of a timed wait. -/
theorem resume {expired : List (Nat × Nat)} {result : Bool} (orderly : Orderly lists pauses W s)
    (own : s.currentTid SingleCore.cpu = some t) (running : s.stateOf t = .running)
    (object : (pauses t).object = some m)
    (spared : s.deadlineOf t ≠ none →
      WakesPermitted SingleCore.cpu (Pause.Spares pauses) expired (s.withoutDeadline t))
    (done : WaitQueue.waitUntilResume SingleCore.cpu (lists m) s expired =
      .ok (list', s', result)) :
    (result = true ↔ t ∉ W m ∧ s.deadlineOf t = none) ∧
      Orderly (Function.update lists m list') (Function.update pauses t .idle)
        (fun n => (W n).erase t) s' := by
  obtain ⟨u, own', outcome⟩ := WaitQueue.waitUntilResume_ok done
  obtain rfl : t = u := Option.some.inj (own.symm.trans own')
  rcases outcome with ⟨set, rfl, rfl, woken⟩ | ⟨unset, removed, took, rfl⟩
  · have quiet := quiet_withoutDeadline s t
    have absent := orderly.absent running (Or.inr set)
    have orderly₁ := orderly.quiet running absent quiet fun u other => by
      rw [withoutDeadline, setThread_deadlineOf, Function.update_of_ne other]
    have orderly₂ := orderly₁.wakeAll (spared set) woken
    have kept : (fun n => (W n).erase t) = W :=
      funext fun n => List.erase_of_not_mem (absent n)
    rw [Function.update_eq_self, kept]
    refine ⟨iff_of_false nofun fun returns => set returns.2, ?_⟩
    exact orderly₂.setPause (wakeAll_running (by rw [quiet.stateOf, running]) woken) absent _
  · obtain ⟨rfl, -, next⟩ := orderly.removeCurrent own running object .idle took
    exact ⟨by simp [unset], next⟩

/-- All threads of list `m` are woken. -/
theorem popAll {fuel : Nat} (orderly : Orderly lists pauses W s)
    (done : ThreadList.popAll SingleCore.cpu fuel (lists m) s = .ok (list', s')) :
    ∃ W', (∀ u n, u ∈ W' n → u ∈ W n) ∧
      Orderly (Function.update lists m list') pauses W' s' := by
  refine (ThreadList.popAll_keeps (P := fun list s => ∃ W', (∀ u n, u ∈ W' n → u ∈ W n) ∧
    Orderly (Function.update lists m list) pauses W' s) ?_ ?_ done).1
  · intro list s list' s' popped before took
    obtain ⟨W₁, members, orderly⟩ := before
    have took : (Function.update lists m list m).pop SingleCore.cpu s = .ok (list', s', popped) := by
      rwa [Function.update_self]
    obtain ⟨W', -, fewer, next⟩ := orderly.pop took
    rw [Function.update_idem] at next
    exact ⟨W', fun u n here => members u n (fewer u n here), next⟩
  · rw [Function.update_eq_self]
    exact ⟨W, fun _ _ => id, orderly⟩

theorem length_le (orderly : Orderly lists pauses W s) (m : Nat) : (W m).length ≤ threadCount := by
  have within : W m ⊆ List.range threadCount :=
    fun t member => List.mem_range.mpr (orderly.bounded member)
  simpa using ((orderly.chained.nodup m).subperm within).length_le

/-- A list that is in order is emptied, unless a priority is out of range. -/
theorem popAll_error {fuel : Nat} {e : Fault} (orderly : Orderly lists pauses W s)
    (enough : (W m).length < fuel)
    (failed : ThreadList.popAll SingleCore.cpu fuel (lists m) s = .error e) :
    e = .indexOutOfBounds := by
  induction fuel generalizing lists W s with
  | zero => simp at enough
  | succ fuel ih =>
    rcases bind_error_iff.mp failed with stuck | ⟨⟨list₁, s₁, popped⟩, took, rest⟩
    · exact SingleCore.pop_error orderly.invariant stuck
    · rcases orderly.chained.pop took with ⟨-, rfl, rfl, rfl⟩ | ⟨h, members, front, rfl, -, -⟩
      · cases rest
      · obtain ⟨W₁, shorter, -, next⟩ := orderly.pop took
        refine ih next ?_ ?_
        · rw [shorter, front]
          simpa [front] using enough
        · rw [Function.update_self]
          exact rest

end Orderly

end ArielOS
