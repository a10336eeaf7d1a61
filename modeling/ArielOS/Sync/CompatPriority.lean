import ArielOS.Sync.CompatMutexSpec

namespace ArielOS

open Machine Scheduler

section Priorities

variable {cpu : Cpu} {s s' : Scheduler} {t : Nat} {expired : List (Nat × Nat)} {list list' : ThreadList}

theorem Scheduler.setDeadline_prioOf {deadline : Nat} {inFuture : Bool}
    (done : s.setDeadline cpu deadline expired = .ok (s', inFuture)) : s'.prioOf = s.prioOf := by
  obtain ⟨s₁, armed, woken⟩ := setDeadline_ok done
  exact (wakeAll_prioOf woken).trans (armDeadline_ok armed).1.prioOf

theorem WaitQueue.waitUntilResume_prioOf {result : Bool}
    (done : waitUntilResume cpu list s expired = .ok (list', s', result)) :
    s'.prioOf = s.prioOf := by
  obtain ⟨t, own, outcome⟩ := waitUntilResume_ok done
  rcases outcome with ⟨-, -, -, woken⟩ | ⟨-, removed, took, -⟩
  · exact (wakeAll_prioOf woken).trans (quiet_withoutDeadline s t).prioOf
  · exact ThreadList.removeCurrent_view (fun _ _ _ => rfl) setState_prioOf took

theorem ObjectCall.Effect.prioOf_check {taken : Bool} {deadline : Nat} {more : Bool}
    (effect : Effect cpu s list (.waitUntilWithCheck taken deadline expired) list' s' more) :
    s'.prioOf = s.prioOf := by
  cases taken with
  | true => rw [effect.checked.2.1]
  | false =>
    rcases effect.of_timer rfl with ⟨-, -, armed⟩ | ⟨-, s₁, inherit, armed, put⟩
    · exact setDeadline_prioOf armed
    · exact (ThreadList.putCurrent_prioOf put).trans (setDeadline_prioOf armed)

end Priorities

namespace CompatMutexes

variable {sys sys' : CompatMutexes} {recursive : Nat → Bool} {fromMicros : Nat → Nat} {m t base : Nat}
  {p : ThreadPtr} {taken : Bool} {inner : MutexInner} {expired : List (Nat × Nat)}
  {system system' : ObjectSystem Unit} {raised : Option (ThreadPtr × Nat)}

/-- The operation sets no priority of thread `t`. -/
def LeavesPrio (t : Nat) (s : Scheduler) : Op → Prop
  | .setPriority u _ => u ≠ t
  | .create .. => s.getUnused ≠ some t
  | _ => True

/-- The runs in which thread `t` gives the mutexes in the reverse order in which it took them, and
    nothing but these mutexes changes its priority. -/
def Nested (t : Nat) (e : SemaphoreEvent) (sys : CompatMutexes) : Prop :=
  Countable e sys ∧
  match e with
  | .op o => LeavesPrio t sys.system.scheduler o
  | .give self => sys.system.scheduler.executing SingleCore.cpu = some t →
    self ∈ sys.held (threadIdToPtr t) → (sys.held (threadIdToPtr t)).head? = some self
  | .tryTakeFromIsr _ | .tryGiveFromIsr _ => t ≠ 0
  | _ => True

/-- The owners are pointers that stand for one thread each. -/
def Tasks (sys : CompatMutexes) : Prop :=
  ∀ m p, (sys.inner m).owner = some p → ∃ u < 2 ^ 8, p = threadIdToPtr u

/-- The first one of the mutexes that the thread holds records its own priority. -/
structure Restores (t base : Nat) (sys : CompatMutexes) : Prop where
  free : sys.held (threadIdToPtr t) = [] → sys.system.scheduler.prioOf t = base
  first : ∀ m, (sys.held (threadIdToPtr t)).getLast? = some m →
    (sys.inner m).originalPriority = base

theorem ptr_id {u : Nat} (small : u < 2 ^ 8) : threadPtrToId (threadIdToPtr u) = u :=
  Nat.mod_eq_of_lt small

theorem setTaskPriority_other (done : setTaskPriority system raised = .ok system')
    (other : ∀ q prio, raised = some (q, prio) → threadPtrToId q ≠ t) :
    system'.scheduler.prioOf t = system.scheduler.prioOf t := by
  cases raised with
  | none =>
    cases done
    rfl
  | some target =>
    have ran : ObjectSystem.step (.op (.setPriority (threadPtrToId target.1) target.2)) system =
      .ok system' := done
    have set : system.scheduler.setPriority SingleCore.cpu (threadPtrToId target.1) target.2 =
      .ok system'.scheduler := (ObjectSystem.step_op ran).1
    rcases setPriority_eq set with ⟨same, -⟩ | ⟨r, q, changed⟩
    · rw [same]
    · rw [changed, withPrio_prioOf]
      exact Function.update_of_ne (other _ _ rfl).symm _ _

theorem taskPriority_ok {s : Scheduler} {prio : Nat} (done : MutexInner.taskPriority s p = .ok prio) :
    prio = s.prioOf (threadPtrToId p) := by
  unfold MutexInner.taskPriority getPriority at done
  split at done
  · rename_i found
    split at found
    · cases done
      cases found
      rfl
    · cases found
  · cases done

theorem Restores.congr (restores : Restores t base sys)
    (held : sys'.held (threadIdToPtr t) = sys.held (threadIdToPtr t))
    (original : ∀ n ∈ sys.held (threadIdToPtr t),
      (sys'.inner n).originalPriority = (sys.inner n).originalPriority)
    (prio : sys.held (threadIdToPtr t) = [] →
      sys'.system.scheduler.prioOf t = sys.system.scheduler.prioOf t) : Restores t base sys' where
  free := by
    rw [held]
    exact fun none => (prio none).trans (restores.free none)
  first := by
    rw [held]
    intro n last
    rw [original n (List.mem_of_getLast? last)]
    exact restores.first n last

theorem Tasks.took {u : Nat} (tasks : Tasks sys) (small : u < 2 ^ 8)
    (owner : inner.owner = some (threadIdToPtr u)) :
    Tasks (sys.took m (threadIdToPtr u) inner) := by
  intro n p owns
  change (Function.update sys.inner m inner n).owner = some p at owns
  by_cases own : n = m
  · rw [own, Function.update_self, owner] at owns
    cases owns
    exact ⟨u, small, rfl⟩
  · rw [Function.update_of_ne own] at owns
    exact tasks n p owns

theorem take_tasks {u : Nat} (done : sys.take u m = .ok (sys', taken)) (small : u < 2 ^ 8)
    (tasks : Tasks sys) : Tasks sys' := by
  obtain ⟨inner, raised, system, attempt, -, rfl⟩ := take_ok done
  cases attempt with
  | first prio free own => exact (show Tasks { sys with system } from tasks).took small rfl
  | again owns again => exact (show Tasks { sys with system } from tasks).took small owns
  | refused owner raised held target => exact tasks

theorem take_restores {u : Nat} (done : sys.take u m = .ok (sys', taken)) (small : u < 2 ^ 8)
    (owned : Owned recursive sys.inner sys.held) (tasks : Tasks sys)
    (restores : Restores t base sys) : Restores t base sys' := by
  obtain ⟨inner, raised, system, attempt, set, rfl⟩ := take_ok done
  cases attempt with
  | first prio free own =>
    cases set
    have absent : m ∉ sys.held (threadIdToPtr t) :=
      owned.apart m _ (by rw [free]; exact nofun)
    by_cases same : u = t
    · subst same
      have prio_eq : prio = sys.system.scheduler.prioOf u := by
        rw [taskPriority_ok own, ptr_id small]
      refine ⟨fun none => ?_, fun n last => ?_⟩
      · change Function.update sys.held _ (m :: _) _ = [] at none
        rw [Function.update_self] at none
        cases none
      · change (Function.update sys.held _ (m :: _) _).getLast? = some n at last
        change (Function.update sys.inner m _ n).originalPriority = base
        rw [Function.update_self] at last
        cases held : sys.held (threadIdToPtr u) with
        | nil =>
          rw [held] at last
          obtain rfl : m = n := by simpa using last
          rw [Function.update_self]
          exact prio_eq.trans (restores.free held)
        | cons h rest =>
          rw [held, List.getLast?_cons_cons, ← held] at last
          have other : n ≠ m := by
            rintro rfl
            exact absent (List.mem_of_getLast? last)
          rw [Function.update_of_ne other]
          exact restores.first n last
    · have apart : threadIdToPtr t ≠ threadIdToPtr u := fun equal => same (Nat.succ.inj equal).symm
      refine restores.congr (Function.update_of_ne apart ..) (fun n member => ?_) fun _ => rfl
      have other : n ≠ m := by
        rintro rfl
        exact absent member
      exact congrArg MutexInner.originalPriority (Function.update_of_ne other ..)
  | again owns again =>
    cases set
    have original : ∀ n, (Function.update sys.inner m (sys.inner m).lockAgain n).originalPriority =
        (sys.inner n).originalPriority := by
      intro n
      by_cases own : n = m
      · rw [own, Function.update_self]
        rfl
      · rw [Function.update_of_ne own]
    by_cases same : u = t
    · subst same
      have member : m ∈ sys.held (threadIdToPtr u) := by
        obtain ⟨counted, positive⟩ := owned.counted m _ owns
        rw [counted] at positive
        exact List.count_pos_iff.mp positive
      refine ⟨fun none => ?_, fun n last => ?_⟩
      · change Function.update sys.held _ (m :: _) _ = [] at none
        rw [Function.update_self] at none
        cases none
      · change (Function.update sys.held _ (m :: _) _).getLast? = some n at last
        rw [Function.update_self] at last
        cases held : sys.held (threadIdToPtr u) with
        | nil =>
          rw [held] at member
          cases member
        | cons h rest =>
          rw [held, List.getLast?_cons_cons, ← held] at last
          exact (original n).trans (restores.first n last)
    · have apart : threadIdToPtr t ≠ threadIdToPtr u := fun equal => same (Nat.succ.inj equal).symm
      exact restores.congr (Function.update_of_ne apart ..) (fun n _ => original n) fun _ => rfl
  | refused owner raised held target =>
    refine restores.congr rfl (fun _ _ => rfl) fun none => ?_
    refine setTaskPriority_other set fun q prio raised same => ?_
    obtain rfl := target q prio raised
    obtain ⟨v, small', rfl⟩ := tasks m q held
    rw [ptr_id small'] at same
    subst same
    obtain ⟨counted, positive⟩ := owned.counted m _ held
    rw [counted, none] at positive
    cases positive

theorem unlock_owner {sem : MutexInner} {q : ThreadPtr} (owns : (sem.unlock q).1.owner = some p) :
    sem.owner = some p := by
  unfold MutexInner.unlock at owns
  split at owns
  · dsimp only at owns
    split at owns
    · cases owns
    · exact owns
  · exact owns

theorem unlock_original (sem : MutexInner) (q : ThreadPtr) :
    (sem.unlock q).1.originalPriority = sem.originalPriority := by
  unfold MutexInner.unlock
  split <;> rfl

theorem update_original (inners : Nat → MutexInner) (same : inner.originalPriority =
    (inners m).originalPriority) (n : Nat) :
    (Function.update inners m inner n).originalPriority = (inners n).originalPriority := by
  by_cases own : n = m
  · rw [own, Function.update_self, same]
  · rw [Function.update_of_ne own]

theorem Tasks.gave {q : ThreadPtr} (tasks : Tasks sys)
    (done : sys.gave m p ((sys.inner m).unlock q).1 = .ok sys') : Tasks sys' := by
  obtain ⟨system, -, rfl⟩ := gave_ok done
  intro n r owns
  change (Function.update sys.inner m _ n).owner = some r at owns
  by_cases own : n = m
  · subst own
    rw [Function.update_self] at owns
    exact tasks n r (unlock_owner owns)
  · rw [Function.update_of_ne own] at owns
    exact tasks n r owns

theorem gave_prioOf (done : sys.gave m p inner = .ok sys') :
    sys'.system.scheduler.prioOf = sys.system.scheduler.prioOf := by
  obtain ⟨system, stepped, rfl⟩ := gave_ok done
  obtain ⟨list, popped, took, -, -⟩ := ObjectSystem.step_notifyOne stepped
  exact ThreadList.pop_prioOf took

theorem gave_held (done : sys.gave m p inner = .ok sys') :
    sys'.held = Function.update sys.held p ((sys.held p).erase m) := by
  obtain ⟨system, -, rfl⟩ := gave_ok done
  rfl

theorem gave_inner (done : sys.gave m p inner = .ok sys') :
    sys'.inner = Function.update sys.inner m inner := by
  obtain ⟨system, -, rfl⟩ := gave_ok done
  rfl

/-- The thread gives the mutex that it took last. -/
theorem give_own (done : sys.give t m = .ok sys') (small : t < 2 ^ 8)
    (valid : sys.system.scheduler.isValidTid t = true)
    (owned : Owned recursive sys.inner sys.held)
    (last : m ∈ sys.held (threadIdToPtr t) → (sys.held (threadIdToPtr t)).head? = some m)
    (restores : Restores t base sys) : Restores t base sys' := by
  rcases give_cases done with rfl | ⟨system, owner, positive, set, gave⟩
  · exact restores
  obtain ⟨counted, -⟩ := owned.counted m _ owner
  have member : m ∈ sys.held (threadIdToPtr t) := by
    rw [counted] at positive
    exact List.count_pos_iff.mp positive
  obtain ⟨rest, held⟩ := List.head?_eq_some_iff.mp (last member)
  have held' : sys'.held (threadIdToPtr t) = rest := by
    rw [gave_held gave, Function.update_self]
    show (sys.held (threadIdToPtr t)).erase m = rest
    rw [held, List.erase_cons_head]
  have original : ∀ n, (sys'.inner n).originalPriority = (sys.inner n).originalPriority := by
    intro n
    rw [gave_inner gave]
    exact update_original sys.inner (unlock_original ..) n
  refine ⟨fun none => ?_, fun n bottom => ?_⟩
  · rw [held'] at none
    subst none
    have single : (sys.inner m).lockCounter = 1 := by
      rw [counted, held, List.count_singleton_self]
    rw [single] at set
    have ran : ObjectSystem.step (.op (.setPriority (threadPtrToId (threadIdToPtr t))
      (sys.inner m).originalPriority)) sys.system = .ok system := set
    have changed : sys.system.scheduler.setPriority SingleCore.cpu (threadPtrToId (threadIdToPtr t))
      (sys.inner m).originalPriority = .ok system.scheduler := (ObjectSystem.step_op ran).1
    rw [ptr_id small] at changed
    have first : (sys.inner m).originalPriority = base := by
      apply restores.first
      rw [held]
      rfl
    rw [gave_prioOf gave]
    show system.scheduler.prioOf t = base
    rw [setPriority_prioOf valid changed, Function.update_self, first]
  · rw [held'] at bottom
    rw [original n]
    apply restores.first
    rw [held]
    cases rest with
    | nil => cases bottom
    | cons h rest => exact bottom

theorem give_other {u : Nat} (done : sys.give u m = .ok sys') (small : u < 2 ^ 8) (other : u ≠ t)
    (restores : Restores t base sys) : Restores t base sys' := by
  rcases give_cases done with rfl | ⟨system, -, -, set, gave⟩
  · exact restores
  have apart : threadIdToPtr t ≠ threadIdToPtr u := fun equal => other (Nat.succ.inj equal).symm
  refine restores.congr ?_ (fun n _ => ?_) fun _ => ?_
  · rw [gave_held gave]
    exact Function.update_of_ne apart ..
  · rw [gave_inner gave]
    exact update_original sys.inner (unlock_original ..) n
  · rw [gave_prioOf gave]
    refine setTaskPriority_other set fun q prio raised => ?_
    split at raised
    · cases raised
      rw [ptr_id small]
      exact other
    · cases raised

theorem ptr_apart {u : Nat} (other : u ≠ t) : threadIdToPtr t ≠ threadIdToPtr u :=
  fun equal => other (Nat.succ.inj equal).symm

/-- An interrupt takes or gives a mutex. -/
theorem Restores.isr (restores : Restores t base sys) (other : t ≠ 0)
    (held : ∀ q, q ≠ danglingPtr → sys'.held q = sys.held q)
    (original : ∀ n, (sys'.inner n).originalPriority = (sys.inner n).originalPriority)
    (prio : sys'.system.scheduler.prioOf = sys.system.scheduler.prioOf) : Restores t base sys' :=
  restores.congr (held _ (ptr_apart other.symm)) (fun n _ => original n) fun _ => congrFun prio t

theorem executing_small (orderly : ∃ W, SemaphoreSystem.Waits W sys.system (units sys.inner)
    sys.notified sys.calls) (executes : sys.system.scheduler.executing SingleCore.cpu = some t) :
    t < 2 ^ 8 ∧ sys.system.scheduler.isValidTid t = true := by
  obtain ⟨W, waits⟩ := orderly
  obtain ⟨-, ready⟩ := SingleCore.executing_running waits.orderly.invariant executes
  have bound := SingleCore.running_lt waits.orderly.invariant ready
  exact ⟨Nat.lt_trans bound (by decide), isValidTid_iff.mpr ⟨bound, by simp [ready]⟩⟩

theorem tryTakeFromIsr_tasks (tasks : Tasks sys) : Tasks (sys.takeFromIsr m) := by
  rcases takeFromIsr_cases sys m with same | ⟨-, same⟩ | ⟨owns, -, same⟩
  · rw [same]
    exact tasks
  · rw [same]
    exact tasks.took (u := 0) (by decide) rfl
  · rw [same]
    exact tasks.took (u := 0) (by decide) owns

theorem tryTakeFromIsr_restores (restores : Restores t base sys) (other : t ≠ 0) :
    Restores t base (sys.takeFromIsr m) := by
  have held : ∀ inner q, q ≠ danglingPtr → (sys.took m danglingPtr inner).held q = sys.held q :=
    fun inner q apart => Function.update_of_ne apart ..
  rcases takeFromIsr_cases sys m with same | ⟨-, same⟩ | ⟨owns, -, same⟩
  · rw [same]
    exact restores
  · rw [same]
    exact restores.isr other (held _) (update_original sys.inner rfl) rfl
  · rw [same]
    exact restores.isr other (held _) (update_original sys.inner rfl) rfl

theorem tryGiveFromIsr_restores (done : sys.giveFromIsr m = .ok sys')
    (restores : Restores t base sys) (other : t ≠ 0) : Restores t base sys' := by
  rcases giveFromIsr_cases done with rfl | ⟨-, -, gave⟩
  · exact restores
  · refine restores.isr other (fun q apart => ?_) ?_ (gave_prioOf gave)
    · rw [gave_held gave, Function.update_of_ne apart]
    · rw [gave_inner gave]
      exact update_original sys.inner (unlock_original ..)

theorem step_tasks {e : SemaphoreEvent} (effect : Effect fromMicros sys e sys')
    (orderly : ∃ W, SemaphoreSystem.Waits W sys.system (units sys.inner) sys.notified sys.calls)
    (tasks : Tasks sys) : Tasks sys' := by
  cases effect with
  | check executes here took stepped =>
    have next := take_tasks took (executing_small orderly executes).1 tasks
    unfold Tasks
    rw [checked_inner]
    exact next
  | recheck executes here waiting stepped took =>
    have next := take_tasks took (executing_small orderly executes).1 tasks
    unfold Tasks
    rw [checked_inner]
    exact next
  | tryTake executes took => exact take_tasks took (executing_small orderly executes).1 tasks
  | give executes gave =>
    rcases give_cases gave with rfl | ⟨system, -, -, -, gave⟩
    · exact tasks
    · exact (show Tasks { sys with system } from tasks).gave gave
  | tryTakeFromIsr self => exact tryTakeFromIsr_tasks tasks
  | tryGiveFromIsr gave =>
    rcases giveFromIsr_cases gave with rfl | ⟨-, -, gave⟩
    · exact tasks
    · exact tasks.gave gave
  | _ => exact tasks

/-- The thread's own priority stays what it was, or is what the first mutex that it holds records. -/
theorem step_restores {e : SemaphoreEvent} (effect : Effect fromMicros sys e sys')
    (nested : Nested t e sys)
    (orderly : ∃ W, SemaphoreSystem.Waits W sys.system (units sys.inner) sys.notified sys.calls)
    (owned : Owned recursive sys.inner sys.held) (tasks : Tasks sys)
    (restores : Restores t base sys) : Restores t base sys' := by
  cases effect with
  | @op o system free ran =>
    refine restores.congr rfl (fun _ _ => rfl) fun _ => ?_
    have run := (ObjectSystem.step_op ran).1
    have prios := Op.run_prioOf run
    show system.scheduler.prioOf t = sys.system.scheduler.prioOf t
    cases o with
    | create stackStart stackLen prio affinity =>
      obtain ⟨u, unused, -, prios⟩ := prios
      have other : t ≠ u := fun same => nested.2 (same ▸ unused)
      rw [prios, Function.update_of_ne other]
    | setPriority u prio =>
      have set : sys.system.scheduler.setPriority SingleCore.cpu u prio = .ok system.scheduler := run
      rcases setPriority_eq set with ⟨same, -⟩ | ⟨r, q, changed⟩
      · rw [same]
      · rw [changed, withPrio_prioOf]
        exact Function.update_of_ne (Ne.symm nested.2) _ _
    | _ => exact congrFun prios t
  | start executes => exact restores.congr rfl (fun _ _ => rfl) fun _ => rfl
  | @check expired u call sys₁ taken system executes here took stepped =>
    have next := take_restores took (executing_small orderly executes).1 owned tasks restores
    obtain ⟨list, more, effect, -⟩ := ObjectSystem.step_call stepped
    refine next.congr ?_ (fun n _ => ?_) fun _ => ?_
    · rw [checked_held]
    · rw [checked_inner]
    · rw [checked_system]
      exact congrFun effect.prioOf_check t
  | @recheck expired u call sys₁ taken system executes here waiting stepped took =>
    obtain ⟨v, n, deadline, list, result, -, -, waited, -⟩ := ObjectSystem.step_resume stepped
    have before : Restores t base { sys with
        system
        notified := Function.update sys.notified call.semaphore
          ((sys.notified call.semaphore).erase u) } :=
      restores.congr rfl (fun _ _ => rfl) fun _ =>
        congrFun (WaitQueue.waitUntilResume_prioOf waited) t
    have next := take_restores took (executing_small orderly executes).1 owned tasks before
    refine next.congr ?_ (fun n _ => ?_) fun _ => ?_
    · rw [checked_held]
    · rw [checked_inner]
    · rw [checked_system]
  | expires executes here => exact restores.congr rfl (fun _ _ => rfl) fun _ => rfl
  | again executes here => exact restores.congr rfl (fun _ _ => rfl) fun _ => rfl
  | tryTake executes took =>
    exact take_restores took (executing_small orderly executes).1 owned tasks restores
  | @give self u sys' executes gave =>
    obtain ⟨small, valid⟩ := executing_small orderly executes
    by_cases same : u = t
    · subst same
      exact give_own gave small valid owned (nested.2 executes) restores
    · exact give_other gave small same restores
  | tryTakeFromIsr self => exact tryTakeFromIsr_restores restores nested.2
  | tryGiveFromIsr gave => exact tryGiveFromIsr_restores gave restores nested.2

theorem new_tasks (recursive : Nat → Bool) : Tasks (new recursive) := by
  intro m p owns
  cases owns

instance (t : Nat) (s : Scheduler) (o : Op) : Decidable (LeavesPrio t s o) :=
  match o with
  | .setPriority .. => inferInstanceAs (Decidable (_ ≠ _))
  | .create .. => inferInstanceAs (Decidable (_ ≠ _))
  | .exit | .park | .unpark _ | .yieldSame | .flagSet .. | .flagWaitAll _ | .flagWaitAny _
  | .flagWaitOne _ | .flagClear _ | .sleepUntil .. | .wake .. | .startThreading | .fifoToken
  | .enterPendsv | .sched => isTrue trivial

instance (t : Nat) (e : SemaphoreEvent) (sys : CompatMutexes) : Decidable (Nested t e sys) :=
  match e with
  | .op _ => inferInstanceAs (Decidable (_ ∧ LeavesPrio ..))
  | .give _ => inferInstanceAs (Decidable (_ ∧ (_ → _ → _)))
  | .tryTakeFromIsr _ | .tryGiveFromIsr _ => inferInstanceAs (Decidable (_ ∧ _ ≠ _))
  | .takeWithDeadline .. | .check _ | .recheck _ | .compare _ | .tryTake _ =>
    inferInstanceAs (Decidable (_ ∧ True))

/-- Given in the order in which they were taken, the mutexes leave thread 0 with the priority of
    thread 1, which raised it before the second one was taken. -/
example : ((runAll (step id) Countable (startEvents ++ [.tryTake 0] ++ joins 1 ++ [.tryTake 1, .give 0,
    .op .enterPendsv, .op .sched, .recheck [], .op .park, .op .enterPendsv, .op .sched, .give 1])
    (new fun _ => false)).map fun sys => (sys.held 1, sys.system.scheduler.prioOf 0)) =
      some ([], 2) := by
  decide +kernel

end CompatMutexes

end ArielOS
