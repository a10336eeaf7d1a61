import ArielOS.Threads.Kernel
import ArielOS.Threads.ReadyQueue

namespace ArielOS.Scheduler

open Machine

variable {cpu : Cpu} {s s' : Scheduler} {t prio core : Nat} {state old : ThreadState}
  {thread : Thread}

section Fields

def stateOf (s : Scheduler) (t : Nat) : ThreadState := (s.threads t).state

def prioOf (s : Scheduler) (t : Nat) : Nat := (s.threads t).prio

def tidOf (s : Scheduler) (t : Nat) : Nat := (s.threads t).tid

def deadlineOf (s : Scheduler) (t : Nat) : Option Nat := (s.threads t).deadline

def affinityOf (s : Scheduler) (t : Nat) : CoreAffinity := (s.threads t).coreAffinity

variable (s t thread)

@[simp] theorem setThread_stateOf :
    (s.setThread t thread).stateOf = Function.update s.stateOf t thread.state :=
  Function.comp_update (fun x : Thread => x.state) s.threads t thread

@[simp] theorem setThread_prioOf :
    (s.setThread t thread).prioOf = Function.update s.prioOf t thread.prio :=
  Function.comp_update (fun x : Thread => x.prio) s.threads t thread

@[simp] theorem setThread_tidOf :
    (s.setThread t thread).tidOf = Function.update s.tidOf t thread.tid :=
  Function.comp_update (fun x : Thread => x.tid) s.threads t thread

@[simp] theorem setThread_deadlineOf :
    (s.setThread t thread).deadlineOf = Function.update s.deadlineOf t thread.deadline :=
  Function.comp_update (fun x : Thread => x.deadline) s.threads t thread

@[simp] theorem setThread_affinityOf :
    (s.setThread t thread).affinityOf = Function.update s.affinityOf t thread.coreAffinity :=
  Function.comp_update (fun x : Thread => x.coreAffinity) s.threads t thread

/-- The outcome of a state change: the thread's state, and the runqueue and requests as given. -/
def withState (state : ThreadState) (runqueue : RunQueue usizeBits schedPrioLevels threadCount)
    (requests : Requests) : Scheduler :=
  { s.setThread t { s.threads t with state } with runqueue, requests }

/-- The outcome of a priority change. -/
def withPrio (prio : Nat) (runqueue : RunQueue usizeBits schedPrioLevels threadCount)
    (requests : Requests) : Scheduler :=
  { s.setThread t { s.threads t with prio } with runqueue, requests }

variable (state prio) (r : RunQueue usizeBits schedPrioLevels threadCount) (q : Requests)

@[simp] theorem withState_runqueue : (s.withState t state r q).runqueue = r := rfl

@[simp] theorem withState_requests : (s.withState t state r q).requests = q := rfl

@[simp] theorem withState_currentThreads :
    (s.withState t state r q).currentThreads = s.currentThreads := rfl

@[simp] theorem withState_threadBlocklist :
    (s.withState t state r q).threadBlocklist = s.threadBlocklist := rfl

@[simp] theorem withState_stateOf :
    (s.withState t state r q).stateOf = Function.update s.stateOf t state :=
  setThread_stateOf s t { s.threads t with state }

@[simp] theorem withState_prioOf : (s.withState t state r q).prioOf = s.prioOf :=
  (setThread_prioOf s t { s.threads t with state }).trans (Function.update_eq_self t s.prioOf)

@[simp] theorem withState_tidOf : (s.withState t state r q).tidOf = s.tidOf :=
  (setThread_tidOf s t { s.threads t with state }).trans (Function.update_eq_self t s.tidOf)

@[simp] theorem withState_deadlineOf : (s.withState t state r q).deadlineOf = s.deadlineOf :=
  (setThread_deadlineOf s t { s.threads t with state }).trans
    (Function.update_eq_self t s.deadlineOf)

@[simp] theorem withState_affinityOf : (s.withState t state r q).affinityOf = s.affinityOf :=
  (setThread_affinityOf s t { s.threads t with state }).trans
    (Function.update_eq_self t s.affinityOf)

@[simp] theorem withPrio_runqueue : (s.withPrio t prio r q).runqueue = r := rfl

@[simp] theorem withPrio_requests : (s.withPrio t prio r q).requests = q := rfl

@[simp] theorem withPrio_currentThreads :
    (s.withPrio t prio r q).currentThreads = s.currentThreads := rfl

@[simp] theorem withPrio_threadBlocklist :
    (s.withPrio t prio r q).threadBlocklist = s.threadBlocklist := rfl

@[simp] theorem withPrio_prioOf :
    (s.withPrio t prio r q).prioOf = Function.update s.prioOf t prio :=
  setThread_prioOf s t { s.threads t with prio }

@[simp] theorem withPrio_stateOf : (s.withPrio t prio r q).stateOf = s.stateOf :=
  (setThread_stateOf s t { s.threads t with prio }).trans (Function.update_eq_self t s.stateOf)

@[simp] theorem withPrio_tidOf : (s.withPrio t prio r q).tidOf = s.tidOf :=
  (setThread_tidOf s t { s.threads t with prio }).trans (Function.update_eq_self t s.tidOf)

@[simp] theorem withPrio_deadlineOf : (s.withPrio t prio r q).deadlineOf = s.deadlineOf :=
  (setThread_deadlineOf s t { s.threads t with prio }).trans
    (Function.update_eq_self t s.deadlineOf)

@[simp] theorem withPrio_affinityOf : (s.withPrio t prio r q).affinityOf = s.affinityOf :=
  (setThread_affinityOf s t { s.threads t with prio }).trans
    (Function.update_eq_self t s.affinityOf)

end Fields

/-- The states agree on everything that scheduling depends on. Flags, stacks and deadlines may
    differ, but a deadline is only set for a current thread. -/
structure Quiet (s s' : Scheduler) : Prop where
  runqueue : s'.runqueue = s.runqueue
  threadBlocklist : s'.threadBlocklist = s.threadBlocklist
  currentThreads : s'.currentThreads = s.currentThreads
  requests : s'.requests = s.requests
  stateOf : s'.stateOf = s.stateOf
  prioOf : s'.prioOf = s.prioOf
  tidOf : s'.tidOf = s.tidOf
  affinityOf : s'.affinityOf = s.affinityOf
  deadlineOf : ∀ t, s'.deadlineOf t ≠ none →
    s.deadlineOf t ≠ none ∨ ∃ core, s.currentThreads core = some t

theorem Quiet.trans {s₁ s₂ s₃ : Scheduler} (first : Quiet s₁ s₂) (second : Quiet s₂ s₃) :
    Quiet s₁ s₃ where
  runqueue := second.runqueue.trans first.runqueue
  threadBlocklist := second.threadBlocklist.trans first.threadBlocklist
  currentThreads := second.currentThreads.trans first.currentThreads
  requests := second.requests.trans first.requests
  stateOf := second.stateOf.trans first.stateOf
  prioOf := second.prioOf.trans first.prioOf
  tidOf := second.tidOf.trans first.tidOf
  affinityOf := second.affinityOf.trans first.affinityOf
  deadlineOf := by
    intro t set
    rcases second.deadlineOf t set with earlier | current
    · exact first.deadlineOf t earlier
    · rw [first.currentThreads] at current
      exact Or.inr current

/-- Rewriting flags and deadline of one thread. -/
theorem Quiet.setThread (state : thread.state = s.stateOf t) (prio : thread.prio = s.prioOf t)
    (tid : thread.tid = s.tidOf t) (affinity : thread.coreAffinity = s.affinityOf t)
    (deadline : thread.deadline ≠ none →
      s.deadlineOf t ≠ none ∨ ∃ core, s.currentThreads core = some t) :
    Quiet s (s.setThread t thread) := by
  refine ⟨rfl, rfl, rfl, rfl, ?_, ?_, ?_, ?_, ?_⟩
  · rw [setThread_stateOf, state, Function.update_eq_self]
  · rw [setThread_prioOf, prio, Function.update_eq_self]
  · rw [setThread_tidOf, tid, Function.update_eq_self]
  · rw [setThread_affinityOf, affinity, Function.update_eq_self]
  · intro u
    rw [setThread_deadlineOf]
    by_cases same : u = t
    · subst same
      rw [Function.update_self]
      exact deadline
    · rw [Function.update_of_ne same]
      exact Or.inl

theorem expectCurrent_ok (done : s.expectCurrent cpu = .ok thread) :
    ∃ t, s.currentTid cpu = some t ∧ thread = s.threads t := by
  unfold expectCurrent current at done
  cases running : s.currentTid cpu with
  | none => simp [running] at done
  | some t =>
    simp only [running, Option.map_some, Except.ok.injEq] at done
    exact ⟨t, rfl, done.symm⟩

theorem setCurrent_eq (running : s.currentTid cpu = some t) :
    s.setCurrent cpu thread = s.setThread t thread := by
  simp [setCurrent, running]

theorem getUnchecked_ok : s.getUnchecked t = .ok thread ↔ t < threadCount ∧ thread = s.threads t := by
  unfold getUnchecked
  split
  · rename_i bound
    rw [Except.ok.injEq]
    exact ⟨fun same => ⟨bound, same.symm⟩, fun h => h.2.symm⟩
  · rename_i outside
    simp [outside]

theorem scheduleIfHigherPrio_ok (done : s.scheduleIfHigherPrio cpu t prio = .ok s') :
    ∃ q, s' = { s with requests := q } := by
  unfold scheduleIfHigherPrio at done
  split at done
  · split at done
    · cases done
      split
      · exact ⟨_, rfl⟩
      · exact ⟨_, rfl⟩
    · cases done
      exact ⟨_, rfl⟩
  · obtain ⟨⟨core, lowest⟩, -, rest⟩ := bind_ok_iff.mp done
    cases lowest with
    | none => cases rest; exact ⟨_, rfl⟩
    | some lowestPrio =>
      cases rest
      split
      · exact ⟨_, rfl⟩
      · exact ⟨_, rfl⟩

theorem setState_running_ok (done : s.setState cpu t .running = .ok (s', old)) :
    t < threadCount ∧ old = s.stateOf t ∧ ∃ r q,
      s.runqueue.add t (s.prioOf t) = .ok r ∧
      scheduleIfHigherPrio cpu (s.withState t .running r s.requests) t (s.prioOf t) =
        .ok (s.withState t .running r q) ∧
      s' = s.withState t .running r q := by
  unfold setState at done
  obtain ⟨thread, read, rest⟩ := bind_ok_iff.mp done
  obtain ⟨bound, rfl⟩ := getUnchecked_ok.mp read
  simp only [↓reduceIte] at rest
  obtain ⟨r, added, rest⟩ := bind_ok_iff.mp rest
  obtain ⟨s₁, raised, rest⟩ := bind_ok_iff.mp rest
  cases rest
  obtain ⟨q, rfl⟩ := scheduleIfHigherPrio_ok raised
  exact ⟨bound, rfl, r, q, added, raised, rfl⟩

/-- A thread that is not ready only changes its state. -/
theorem setState_idle_ok (stops : state ≠ .running) (idle : s.stateOf t ≠ .running)
    (done : s.setState cpu t state = .ok (s', old)) :
    t < threadCount ∧ s' = s.withState t state s.runqueue s.requests := by
  unfold setState at done
  obtain ⟨thread, read, rest⟩ := bind_ok_iff.mp done
  obtain ⟨bound, rfl⟩ := getUnchecked_ok.mp read
  have notReady : (s.threads t).state ≠ .running := idle
  simp only [stops, notReady, ↓reduceIte] at rest
  cases rest
  exact ⟨bound, rfl⟩

/-- A ready thread that blocks is the current one. On a single core it also leaves the runqueue. -/
theorem setState_block_ok (stops : state ≠ .running) (ready : s.stateOf t = .running)
    (done : s.setState cpu t state = .ok (s', old)) :
    t < threadCount ∧ s.currentTid cpu = some t ∧ ∃ r,
      (cpu.config = .singleCore → s.runqueue.popHead t (s.prioOf t) = .ok r) ∧
      (cpu.config ≠ .singleCore → r = s.runqueue) ∧
      s' = s.withState t state r (s.requests.pend cpu.coreId) := by
  unfold setState at done
  obtain ⟨thread, read, rest⟩ := bind_ok_iff.mp done
  obtain ⟨bound, rfl⟩ := getUnchecked_ok.mp read
  have isReady : (s.threads t).state = .running := ready
  simp only [stops, isReady, ↓reduceIte] at rest
  split at rest
  · cases rest
  · rename_i own
    have current : s.currentTid cpu = some t := (not_not.mp own).symm
    cases config : cpu.config with
    | singleCore =>
      simp only [config] at rest
      obtain ⟨r, popped, rest⟩ := bind_ok_iff.mp rest
      cases rest
      exact ⟨bound, current, r, fun _ => popped, fun other => absurd rfl other, rfl⟩
    | multiCore chip coreAffinity =>
      simp only [config] at rest
      cases rest
      exact ⟨bound, current, s.runqueue, fun other => Config.noConfusion other, fun _ => rfl, rfl⟩

/-- Any state change only touches the state, the runqueue and the requests. -/
theorem setState_eq (done : s.setState cpu t state = .ok (s', old)) :
    t < threadCount ∧ ∃ r q, s' = s.withState t state r q := by
  by_cases starts : state = .running
  · subst starts
    obtain ⟨bound, -, r, q, -, -, rfl⟩ := setState_running_ok done
    exact ⟨bound, r, q, rfl⟩
  · by_cases ready : s.stateOf t = .running
    · obtain ⟨bound, -, r, -, -, rfl⟩ := setState_block_ok starts ready done
      exact ⟨bound, r, _, rfl⟩
    · obtain ⟨bound, rfl⟩ := setState_idle_ok starts ready done
      exact ⟨bound, _, _, rfl⟩

theorem setState_stateOf (done : s.setState cpu t state = .ok (s', old)) :
    s'.stateOf = Function.update s.stateOf t state := by
  obtain ⟨-, r, q, rfl⟩ := setState_eq done
  exact withState_stateOf ..

theorem setState_prioOf (done : s.setState cpu t state = .ok (s', old)) : s'.prioOf = s.prioOf := by
  obtain ⟨-, r, q, rfl⟩ := setState_eq done
  exact withState_prioOf ..

theorem setState_tidOf (done : s.setState cpu t state = .ok (s', old)) : s'.tidOf = s.tidOf := by
  obtain ⟨-, r, q, rfl⟩ := setState_eq done
  exact withState_tidOf ..

theorem setState_deadlineOf (done : s.setState cpu t state = .ok (s', old)) :
    s'.deadlineOf = s.deadlineOf := by
  obtain ⟨-, r, q, rfl⟩ := setState_eq done
  exact withState_deadlineOf ..

theorem setState_threadBlocklist (done : s.setState cpu t state = .ok (s', old)) :
    s'.threadBlocklist = s.threadBlocklist := by
  obtain ⟨-, r, q, rfl⟩ := setState_eq done
  rfl

theorem isValidTid_iff : s.isValidTid t = true ↔ t < threadCount ∧ s.stateOf t ≠ .invalid := by
  simp [isValidTid, stateOf]

theorem getState_running (found : s.getState t = some state) :
    t < threadCount ∧ s.stateOf t = state ∧ state ≠ .invalid := by
  unfold getState at found
  split at found
  · rename_i valid
    obtain ⟨bound, known⟩ := isValidTid_iff.mp valid
    cases found
    exact ⟨bound, rfl, known⟩
  · cases found

/-- The ways in which `set_priority` ends: nothing to do, a thread that is not ready, a current
    thread on multi-core, or a thread that changes its queue. -/
theorem setPriority_ok (done : s.setPriority cpu t prio = .ok s') :
    (s' = s ∧ (s.isValidTid t = true → s.prioOf t = prio)) ∨
      (t < threadCount ∧ s.stateOf t ≠ .invalid ∧ s.prioOf t ≠ prio ∧
      ((s.stateOf t ≠ .running ∧ s' = s.withPrio t prio s.runqueue s.requests) ∨
       (s.stateOf t = .running ∧ ∃ chip affinity core, cpu.config = .multiCore chip affinity ∧
          s.isRunning cpu t = some core ∧
          s' = s.withPrio t prio s.runqueue (if prio < s.prioOf t then
            chip.scheduleOnCore cpu.coreId core s.requests else s.requests)) ∨
       (s.stateOf t = .running ∧ ∃ r, requeue s.runqueue t (s.prioOf t) prio = .ok r ∧
          ((cpu.config = .singleCore ∧ s.currentTid cpu = some t ∧
              s' = s.withPrio t prio r (if prio < s.prioOf t then
                s.requests.pend cpu.coreId else s.requests)) ∨
           (s.isRunning cpu t = none ∧ s.prioOf t < prio ∧
              scheduleIfHigherPrio cpu (s.withPrio t prio r s.requests) t prio = .ok s') ∨
           (s.isRunning cpu t = none ∧ prio < s.prioOf t ∧
              s' = s.withPrio t prio r s.requests))))) := by
  unfold setPriority at done
  cases valid : s.isValidTid t with
  | false =>
    simp only [valid, Bool.not_false, ↓reduceIte] at done
    cases done
    exact Or.inl ⟨rfl, fun is => by cases is⟩
  | true =>
    simp only [valid, Bool.not_true, Bool.false_eq_true, ↓reduceIte] at done
    obtain ⟨bound, known⟩ := isValidTid_iff.mp valid
    obtain ⟨thread, read, rest⟩ := bind_ok_iff.mp done
    obtain ⟨-, rfl⟩ := getUnchecked_ok.mp read
    split at rest
    · rename_i same
      cases rest
      exact Or.inl ⟨rfl, fun _ => same⟩
    rename_i changed
    refine Or.inr ⟨bound, known, changed, ?_⟩
    split at rest
    · rename_i blocked
      cases rest
      exact Or.inl ⟨blocked, rfl⟩
    rename_i ready
    have ready : s.stateOf t = .running := not_not.mp ready
    have old : (s.threads t).prio = s.prioOf t := rfl
    rw [old] at rest changed
    cases config : cpu.config with
    | singleCore =>
      simp only [config] at rest
      obtain ⟨r, moved, rest⟩ := bind_ok_iff.mp rest
      refine Or.inr (Or.inr ⟨ready, r, moved, ?_⟩)
      split at rest
      · rename_i core running
        have own : s.currentTid cpu = some t := by
          by_contra other
          have none : s.isRunning cpu t = none := by simp [isRunning, config, other]
          exact absurd (none.symm.trans running) (by simp)
        cases rest
        refine Or.inl ⟨rfl, own, ?_⟩
        by_cases lowered : prio < s.prioOf t
        · simp only [lowered, ↓reduceIte]
          rfl
        · simp only [lowered, ↓reduceIte]
          rfl
      · rename_i elsewhere
        split at rest
        · rename_i raised
          exact Or.inr (Or.inl ⟨elsewhere, raised, rest⟩)
        · rename_i lowered
          cases rest
          exact Or.inr (Or.inr ⟨elsewhere, by omega, rfl⟩)
    | multiCore chip affinity =>
      simp only [config] at rest
      split at rest
      · rename_i core running
        cases rest
        refine Or.inr (Or.inl ⟨ready, chip, affinity, core, rfl, running, ?_⟩)
        by_cases lowered : prio < s.prioOf t
        · simp only [lowered, ↓reduceIte]
          rfl
        · simp only [lowered, ↓reduceIte]
          rfl
      · rename_i elsewhere
        obtain ⟨r, moved, rest⟩ := bind_ok_iff.mp rest
        refine Or.inr (Or.inr ⟨ready, r, moved, Or.inr ?_⟩)
        split at rest
        · rename_i raised
          exact Or.inl ⟨elsewhere, raised, rest⟩
        · rename_i lowered
          cases rest
          exact Or.inr ⟨elsewhere, by omega, rfl⟩

/-- Any priority change only touches the priority, the runqueue and the requests. -/
theorem setPriority_eq (done : s.setPriority cpu t prio = .ok s') :
    (s' = s ∧ (s.isValidTid t = true → s.prioOf t = prio)) ∨ ∃ r q, s' = s.withPrio t prio r q := by
  rcases setPriority_ok done with same | ⟨-, -, -, ⟨-, rfl⟩ | ⟨-, _, _, _, -, -, rfl⟩ | ⟨-, r, -, moved⟩⟩
  · exact Or.inl same
  · exact Or.inr ⟨_, _, rfl⟩
  · exact Or.inr ⟨_, _, rfl⟩
  · rcases moved with ⟨-, -, rfl⟩ | ⟨-, -, raised⟩ | ⟨-, -, rfl⟩
    · exact Or.inr ⟨_, _, rfl⟩
    · obtain ⟨q, rfl⟩ := scheduleIfHigherPrio_ok raised
      exact Or.inr ⟨r, q, rfl⟩
    · exact Or.inr ⟨_, _, rfl⟩

theorem setPriority_prioOf (valid : s.isValidTid t = true) (done : s.setPriority cpu t prio = .ok s') :
    s'.prioOf = Function.update s.prioOf t prio := by
  rcases setPriority_eq done with ⟨rfl, same⟩ | ⟨r, q, rfl⟩
  · rw [← same valid, Function.update_eq_self]
  · exact withPrio_prioOf ..

theorem setPriority_keeps (done : s.setPriority cpu t prio = .ok s') :
    s'.stateOf = s.stateOf ∧ s'.threadBlocklist = s.threadBlocklist := by
  rcases setPriority_eq done with ⟨rfl, -⟩ | ⟨r, q, rfl⟩
  · exact ⟨rfl, rfl⟩
  · exact ⟨withPrio_stateOf .., rfl⟩

theorem setPriority_tidOf (done : s.setPriority cpu t prio = .ok s') : s'.tidOf = s.tidOf := by
  rcases setPriority_eq done with ⟨rfl, -⟩ | ⟨r, q, rfl⟩
  · rfl
  · exact withPrio_tidOf ..

theorem setPriority_deadlineOf (done : s.setPriority cpu t prio = .ok s') :
    s'.deadlineOf = s.deadlineOf := by
  rcases setPriority_eq done with ⟨rfl, -⟩ | ⟨r, q, rfl⟩
  · rfl
  · exact withPrio_deadlineOf ..

theorem create_ok {stackStart stackLen : Nat} {affinity : Option CoreAffinity}
    (made : s.create cpu stackStart stackLen prio affinity = some (s', t)) :
    t < threadCount ∧ s.stateOf t = .invalid ∧ ∃ thread, s' = s.setThread t thread ∧
      thread.state = .parked ∧ thread.prio = prio ∧ thread.tid = t ∧
      thread.deadline = s.deadlineOf t := by
  unfold create at made
  obtain ⟨tid, unused, rest⟩ := Option.bind_eq_some_iff.mp made
  have bound : tid < threadCount := List.mem_range.mp (List.mem_of_find?_eq_some unused)
  have free : s.stateOf tid = .invalid := by simpa [stateOf] using List.find?_some unused
  split at rest
  · cases rest
    exact ⟨bound, free, _, rfl, rfl, rfl, rfl, rfl⟩
  · cases rest
    exact ⟨bound, free, _, rfl, rfl, rfl, rfl, rfl⟩

theorem create_getUnused {stackStart stackLen : Nat} {affinity : Option CoreAffinity}
    (made : s.create cpu stackStart stackLen prio affinity = some (s', t)) :
    s.getUnused = some t := by
  unfold create at made
  obtain ⟨tid, unused, rest⟩ := Option.bind_eq_some_iff.mp made
  split at rest
  · cases rest
    exact unused
  · cases rest
    exact unused

theorem createRaw_ok {stackStart stackLen : Nat} {affinity : Option CoreAffinity}
    (done : s.createRaw cpu stackStart stackLen prio affinity = .ok (s', t)) :
    ∃ s₁ old, s.create cpu stackStart stackLen prio affinity = some (s₁, t) ∧
      s₁.setState cpu t .running = .ok (s', old) := by
  unfold createRaw at done
  split at done
  · cases done
  · rename_i s₁ tid made
    obtain ⟨⟨s₂, old⟩, woken, rest⟩ := bind_ok_iff.mp done
    cases rest
    exact ⟨s₁, old, made, woken⟩

theorem cleanup_ok (done : s.cleanup cpu = .ok s') :
    ∃ t old, s.currentTid cpu = some t ∧ s.setState cpu t .invalid = .ok (s', old) := by
  unfold cleanup at done
  split at done
  · cases done
  · rename_i t own
    obtain ⟨⟨s₁, old⟩, stopped, rest⟩ := bind_ok_iff.mp done
    cases rest
    exact ⟨t, old, own, stopped⟩

theorem park_ok (done : s.park cpu = .ok s') :
    s' = s ∨ ∃ t old, s.currentTid cpu = some t ∧ s.setState cpu t .parked = .ok (s', old) := by
  unfold park at done
  split at done
  · cases done
    exact Or.inl rfl
  · rename_i t own
    obtain ⟨⟨s₁, old⟩, stopped, rest⟩ := bind_ok_iff.mp done
    cases rest
    exact Or.inr ⟨t, old, own, stopped⟩

theorem unpark_ok {found : Bool} (done : s.unpark cpu t = .ok (s', found)) :
    s' = s ∨ (s.getState t = some .parked ∧ ∃ old, s.setState cpu t .running = .ok (s', old)) := by
  unfold unpark at done
  split at done
  · rename_i parked
    obtain ⟨⟨s₁, old⟩, woken, rest⟩ := bind_ok_iff.mp done
    cases rest
    exact Or.inr ⟨parked, old, woken⟩
  · cases done
    exact Or.inl rfl

theorem wokenBy_state {flags : ThreadFlags} (woken : wokenBy state flags = true) :
    ∃ mode, state = .flagBlocked mode := by
  cases state with
  | flagBlocked mode => exact ⟨mode, rfl⟩
  | _ => cases woken

theorem setThread_flags (flags : ThreadFlags) :
    Quiet s (s.setThread t { s.threads t with flags }) ∧
      (s.setThread t { s.threads t with flags }).deadlineOf = s.deadlineOf := by
  rw [setThread_deadlineOf]
  exact ⟨.setThread rfl rfl rfl rfl Or.inl, Function.update_eq_self t s.deadlineOf⟩

theorem flagSet_ok {mask : ThreadFlags} (done : s.flagSet cpu t mask = .ok s') :
    t < threadCount ∧ ∃ s₁, Quiet s s₁ ∧ s₁.deadlineOf = s.deadlineOf ∧ (s' = s₁ ∨
      (wokenBy (s.stateOf t) ((s.threads t).flags ||| mask) = true ∧
        ∃ old, s₁.setState cpu t .running = .ok (s', old))) := by
  unfold flagSet at done
  obtain ⟨thread, read, rest⟩ := bind_ok_iff.mp done
  obtain ⟨bound, rfl⟩ := getUnchecked_ok.mp read
  obtain ⟨quiet, deadline⟩ := setThread_flags (s := s) (t := t) ((s.threads t).flags ||| mask)
  refine ⟨bound, _, quiet, deadline, ?_⟩
  dsimp only at rest
  split at rest
  · rename_i woken
    obtain ⟨⟨s₁, old⟩, set, rest⟩ := bind_ok_iff.mp rest
    cases rest
    exact Or.inr ⟨woken, old, set⟩
  · cases rest
    exact Or.inl rfl

/-- A flag wait either consumes flags or blocks the current thread. -/
def FlagWaited (cpu : Cpu) (s s' : Scheduler) : Prop :=
  (Quiet s s' ∧ s'.deadlineOf = s.deadlineOf) ∨ ∃ t old mode, s.currentTid cpu = some t ∧
    s.setState cpu (s.tidOf t) (.flagBlocked mode) = .ok (s', old)

theorem flagWaitAll_ok {mask : ThreadFlags} {flags : Option ThreadFlags}
    (done : s.flagWaitAll cpu mask = .ok (s', flags)) : FlagWaited cpu s s' := by
  unfold flagWaitAll at done
  obtain ⟨thread, read, rest⟩ := bind_ok_iff.mp done
  obtain ⟨t, own, rfl⟩ := expectCurrent_ok read
  split at rest
  · cases rest
    rw [setCurrent_eq own]
    exact Or.inl (setThread_flags _)
  · obtain ⟨⟨s₁, old⟩, stopped, rest⟩ := bind_ok_iff.mp rest
    cases rest
    exact Or.inr ⟨t, old, _, own, stopped⟩

theorem flagWaitFor_ok {select : ThreadFlags → ThreadFlags} {mask : ThreadFlags}
    {flags : Option ThreadFlags} (done : s.flagWaitFor cpu select mask = .ok (s', flags)) :
    FlagWaited cpu s s' := by
  unfold flagWaitFor at done
  obtain ⟨thread, read, rest⟩ := bind_ok_iff.mp done
  obtain ⟨t, own, rfl⟩ := expectCurrent_ok read
  split at rest
  · cases rest
    rw [setCurrent_eq own]
    exact Or.inl (setThread_flags _)
  · obtain ⟨⟨s₁, old⟩, stopped, rest⟩ := bind_ok_iff.mp rest
    cases rest
    exact Or.inr ⟨t, old, _, own, stopped⟩

theorem op_flagWaited {o : Op} (done : o.run cpu s = .ok s') :
    match o with
    | .flagWaitAll _ | .flagWaitAny _ | .flagWaitOne _ => FlagWaited cpu s s'
    | _ => True := by
  cases o with
  | flagWaitAll mask =>
    obtain ⟨⟨s₁, flags⟩, waited, rest⟩ := bind_ok_iff.mp done
    cases rest
    exact flagWaitAll_ok waited
  | flagWaitAny mask | flagWaitOne mask =>
    obtain ⟨⟨s₁, flags⟩, waited, rest⟩ := bind_ok_iff.mp done
    cases rest
    exact flagWaitFor_ok waited
  | _ => trivial

theorem flagClear_ok {mask flags : ThreadFlags} (done : s.flagClear cpu mask = .ok (s', flags)) :
    Quiet s s' ∧ s'.deadlineOf = s.deadlineOf := by
  unfold flagClear at done
  obtain ⟨thread, read, rest⟩ := bind_ok_iff.mp done
  obtain ⟨t, own, rfl⟩ := expectCurrent_ok read
  cases rest
  rw [setCurrent_eq own]
  exact setThread_flags _

def withoutDeadline (s : Scheduler) (t : Nat) : Scheduler :=
  s.setThread t { s.threads t with deadline := none }

theorem quiet_withoutDeadline (s : Scheduler) (t : Nat) : Quiet s (s.withoutDeadline t) :=
  .setThread rfl rfl rfl rfl fun set => absurd rfl set

theorem withoutDeadline_of_none (unset : s.deadlineOf t = none) : s.withoutDeadline t = s := by
  unfold withoutDeadline setThread
  rw [← unset]
  exact congrArg (fun threads => { s with threads }) (Function.update_eq_self t s.threads)

/-- An expired timer makes its thread ready, whatever the thread waits for. -/
theorem wake_ok {now : Nat} (done : s.wake cpu t now = .ok s') :
    (s.timerDue t now = false ∧ s' = s) ∨
    (s.timerDue t now = true ∧ ∃ s₁, Quiet s s₁ ∧
      s₁.deadlineOf = Function.update s.deadlineOf t none ∧
      ((s.stateOf t = .running ∧ s' = s₁) ∨
        (s.stateOf t ≠ .running ∧ ∃ old, s₁.setState cpu t .running = .ok (s', old)))) := by
  unfold wake at done
  obtain ⟨thread, read, rest⟩ := bind_ok_iff.mp done
  obtain ⟨bound, rfl⟩ := getUnchecked_ok.mp read
  cases due : s.timerDue t now with
  | false =>
    simp only [due, Bool.false_eq_true, ↓reduceIte] at rest
    cases rest
    exact Or.inl ⟨rfl, rfl⟩
  | true =>
    simp only [due, ↓reduceIte] at rest
    obtain ⟨s₂, set, rest⟩ := bind_ok_iff.mp rest
    obtain ⟨-, s₁, quiet, deadline, outcome⟩ := flagSet_ok set
    have cleared := (quiet_withoutDeadline s t).trans quiet
    rw [setThread_deadlineOf] at deadline
    refine Or.inr ⟨rfl, s₁, cleared, deadline, ?_⟩
    rcases outcome with rfl | ⟨woken, old, awake⟩
    · have state : s₂.stateOf t = s.stateOf t := congrFun cleared.stateOf t
      split at rest
      · rename_i running
        cases rest
        exact Or.inl ⟨state ▸ (getState_running running).2.1, rfl⟩
      · rename_i stopped
        obtain ⟨⟨s₃, old⟩, awake, rest⟩ := bind_ok_iff.mp rest
        cases rest
        refine Or.inr ⟨?_, old, awake⟩
        intro running
        rw [← state] at running
        apply stopped
        have valid : s₂.isValidTid t = true := isValidTid_iff.mpr ⟨bound, by simp [running]⟩
        simp only [getState, valid, ↓reduceIte]
        exact congrArg some running
    · obtain ⟨mode, blocked⟩ := wokenBy_state woken
      have state : s.stateOf t = .flagBlocked mode := by
        rw [← blocked, setThread_stateOf, Function.update_self]
        rfl
      obtain ⟨-, -, r, q, -, -, rfl⟩ := setState_running_ok awake
      have running : (s₁.withState t .running r q).stateOf t = .running := by simp
      have valid : (s₁.withState t .running r q).isValidTid t = true :=
        isValidTid_iff.mpr ⟨bound, by simp [running]⟩
      have found : (s₁.withState t .running r q).getState t = some .running := by
        simp only [getState, valid, ↓reduceIte]
        exact congrArg some running
      simp only [found] at rest
      cases rest
      exact Or.inr ⟨by simp [state], old, awake⟩

theorem armDeadline_ok {deadline : Nat} (done : s.armDeadline cpu deadline = .ok s') :
    Quiet s s' ∧ ∃ t, s.currentTid cpu = some t ∧
      s'.deadlineOf = Function.update s.deadlineOf t (some deadline) := by
  unfold armDeadline at done
  obtain ⟨thread, read, rest⟩ := bind_ok_iff.mp done
  obtain ⟨t, own, rfl⟩ := expectCurrent_ok read
  cases rest
  rw [setCurrent_eq own, setThread_deadlineOf]
  exact ⟨.setThread rfl rfl rfl rfl fun _ => Or.inr ⟨cpu.coreId, own⟩, t, own, rfl⟩

theorem setDeadline_ok {deadline : Nat} {expired : List (Nat × Nat)} {inFuture : Bool}
    (done : s.setDeadline cpu deadline expired = .ok (s', inFuture)) :
    ∃ s₁, s.armDeadline cpu deadline = .ok s₁ ∧ wakeAll cpu expired s₁ = .ok s' := by
  unfold setDeadline at done
  obtain ⟨s₁, armed, rest⟩ := bind_ok_iff.mp done
  obtain ⟨s₂, woken, rest⟩ := bind_ok_iff.mp rest
  obtain ⟨thread, -, rest⟩ := bind_ok_iff.mp rest
  cases rest
  exact ⟨s₁, armed, woken⟩

theorem clearDeadline_ok {expired : List (Nat × Nat)} {cleared : Bool}
    (done : s.clearDeadline cpu expired = .ok (s', cleared)) :
    ∃ t s₁, s.currentTid cpu = some t ∧ cleared = (s.deadlineOf t).isSome ∧
      s₁ = s.withoutDeadline t ∧
      ((cleared = true ∧ wakeAll cpu expired s₁ = .ok s') ∨ (cleared = false ∧ s' = s₁)) := by
  unfold clearDeadline at done
  obtain ⟨thread, read, rest⟩ := bind_ok_iff.mp done
  obtain ⟨t, own, rfl⟩ := expectCurrent_ok read
  rw [setCurrent_eq own] at rest
  dsimp only at rest
  refine ⟨t, _, own, ?_, rfl, ?_⟩
  · split at rest
    · obtain ⟨s₁, -, rest⟩ := bind_ok_iff.mp rest
      cases rest
      rfl
    · cases rest
      rfl
  · split at rest
    · rename_i set
      obtain ⟨s₁, woken, rest⟩ := bind_ok_iff.mp rest
      cases rest
      exact Or.inl ⟨set, woken⟩
    · rename_i unset
      cases rest
      exact Or.inr ⟨by simpa using unset, rfl⟩

theorem sleepUntil_ok {deadline : Nat} {expired : List (Nat × Nat)}
    (done : s.sleepUntil cpu deadline expired = .ok s') :
    ∃ s₁ s₂, s.armDeadline cpu deadline = .ok s₁ ∧ wakeAll cpu expired s₁ = .ok s₂ ∧
      (s' = s₂ ∨ s₂.park cpu = .ok s') := by
  unfold sleepUntil at done
  obtain ⟨⟨s₂, inFuture⟩, armed, rest⟩ := bind_ok_iff.mp done
  obtain ⟨s₁, arm, woken⟩ := setDeadline_ok armed
  refine ⟨s₁, s₂, arm, woken, ?_⟩
  dsimp only at rest
  split at rest
  · exact Or.inr rest
  · cases rest
    exact Or.inl rfl

theorem schedOnce_single {passed : Bool} (config : cpu.config = .singleCore)
    (done : s.schedOnce cpu = .ok (s', passed)) :
    (s.runqueue.getNext = .ok none ∧ s' = s ∧ passed = false) ∨
      ∃ n, s.runqueue.getNext = .ok (some n) ∧ passed = true ∧ s' = { s with
        currentThreads := Function.update s.currentThreads cpu.coreId (some n) } := by
  unfold schedOnce getNextTid at done
  simp only [config, pure_eq_ok, ok_bind] at done
  obtain ⟨⟨s₁, next⟩, read, rest⟩ := bind_ok_iff.mp done
  obtain ⟨next, top, read⟩ := bind_ok_iff.mp read
  cases read
  cases next with
  | none =>
    cases rest
    exact Or.inl ⟨top, rfl, rfl⟩
  | some n =>
    refine Or.inr ⟨n, top, ?_⟩
    dsimp only at rest
    split at rest
    · rename_i same
      cases rest
      have unchanged : Function.update s.currentThreads cpu.coreId (some n) = s.currentThreads := by
        rw [← same]
        exact Function.update_eq_self cpu.coreId s.currentThreads
      exact ⟨rfl, by rw [unchanged]⟩
    · cases rest
      exact ⟨rfl, rfl⟩

theorem addCurrentThreadToRq_ok (done : s.addCurrentThreadToRq cpu = .ok s') :
    (s' = s ∧ ∀ t, s.currentTid cpu = some t → s.stateOf t ≠ .running) ∨
      ∃ t r, s.currentTid cpu = some t ∧ s.stateOf t = .running ∧
        s.runqueue.add (s.tidOf t) (s.prioOf t) = .ok r ∧ s' = { s with runqueue := r } := by
  unfold addCurrentThreadToRq current at done
  cases own : s.currentTid cpu with
  | none =>
    simp only [own, Option.map_none] at done
    cases done
    exact Or.inl ⟨rfl, fun _ other => by cases other⟩
  | some t =>
    simp only [own, Option.map_some] at done
    split at done
    · rename_i ready
      obtain ⟨r, added, rest⟩ := bind_ok_iff.mp done
      cases rest
      exact Or.inr ⟨t, r, rfl, ready, added, rfl⟩
    · rename_i stopped
      cases done
      refine Or.inl ⟨rfl, ?_⟩
      intro u same
      cases same
      exact stopped

/-- A core finds no thread only if all queued ones exclude it by their affinity. -/
theorem getNextTid_none {chip : Chip} {affinity : Bool} {L : Queues Nat}
    (config : cpu.config = .multiCore chip affinity) (h : s.runqueue.Represents L)
    (done : s.getNextTid cpu = .ok (s', none)) :
    ∀ q n, n ∈ L q → affinity = true ∧ (s.affinityOf n).contains cpu.coreId = false := by
  unfold getNextTid at done
  intro q n member
  cases affinity with
  | false =>
    simp only [config] at done
    obtain ⟨⟨r, head⟩, popped, rest⟩ := bind_ok_iff.mp done
    cases rest
    rw [ReadyQueue.popNext_none h popped q] at member
    cases member
  | true =>
    simp only [config] at done
    obtain ⟨found, filtered, rest⟩ := bind_ok_iff.mp done
    cases found with
    | none => exact ⟨rfl, ReadyQueue.getNextFilter_none h filtered q n member⟩
    | some m =>
      obtain ⟨r, -, rest⟩ := bind_ok_iff.mp rest
      cases rest

/-- On multi-core, choosing the next thread does not fail. -/
theorem getNextTid_total {chip : Chip} {affinity : Bool} {L : Queues Nat}
    (config : cpu.config = .multiCore chip affinity) (h : s.runqueue.Represents L) :
    ∃ out, s.getNextTid cpu = .ok out := by
  unfold getNextTid
  cases affinity with
  | false =>
    obtain ⟨r, popped, -⟩ := RunQueue.popNext_spec h ReadyQueue.small
    simp only [config, popped]
    exact ⟨_, rfl⟩
  | true =>
    have found := RunQueue.getNextFilter_spec h ReadyQueue.small (by decide)
      (s.isAffineToCurrCore cpu)
    simp only [config, found, ok_bind]
    split
    · exact ⟨_, rfl⟩
    · rename_i n chosen
      obtain ⟨q, -, member⟩ := Queues.mem_order.mp (List.mem_of_find?_eq_some chosen)
      obtain ⟨r, deleted, -⟩ := RunQueue.del_spec h ReadyQueue.small (h.queues.thread_lt member)
      simp only [deleted]
      exact ⟨_, rfl⟩

/-- The thread that a core takes out of the runqueue. -/
theorem getNextTid_some {chip : Chip} {affinity : Bool} {n : Nat} {L : Queues Nat}
    (config : cpu.config = .multiCore chip affinity) (h : s.runqueue.Represents L)
    (done : s.getNextTid cpu = .ok (s', some n)) :
    ∃ r, s' = { s with runqueue := r } ∧ r.Represents (Queues.remove L n) ∧
      (∃ q, n ∈ L q) ∧ (affinity = false → Queues.IsTop L n) := by
  unfold getNextTid at done
  cases affinity with
  | false =>
    simp only [config] at done
    obtain ⟨⟨r, head⟩, popped, rest⟩ := bind_ok_iff.mp done
    cases rest
    obtain ⟨top, holds⟩ := ReadyQueue.popNext_some h popped
    have ⟨q, first, _⟩ := top
    exact ⟨r, rfl, holds, ⟨q, List.mem_of_head? first⟩, fun _ => top⟩
  | true =>
    simp only [config] at done
    obtain ⟨found, filtered, rest⟩ := bind_ok_iff.mp done
    cases found with
    | none => cases rest
    | some m =>
      obtain ⟨r, deleted, rest⟩ := bind_ok_iff.mp rest
      cases rest
      exact ⟨r, rfl, ReadyQueue.del_ok h deleted, (ReadyQueue.getNextFilter_some h filtered).1,
        fun other => Bool.noConfusion other⟩

/-- A multi-core `sched` puts the current thread back and takes the next one. -/
theorem schedOnce_multi {chip : Chip} {affinity passed : Bool}
    (config : cpu.config = .multiCore chip affinity) (done : s.schedOnce cpu = .ok (s', passed)) :
    passed = true ∧ ∃ s₁ s₂ n, s.addCurrentThreadToRq cpu = .ok s₁ ∧
      s₁.getNextTid cpu = .ok (s₂, some n) ∧ s' = { s₂ with
        currentThreads := Function.update s₂.currentThreads cpu.coreId (some n) } := by
  unfold schedOnce at done
  simp only [config] at done
  obtain ⟨s₁, added, rest⟩ := bind_ok_iff.mp done
  obtain ⟨⟨s₂, next⟩, read, rest⟩ := bind_ok_iff.mp rest
  cases next with
  | none => cases rest
  | some n =>
    dsimp only at rest
    split at rest
    · rename_i same
      have unchanged : Function.update s₂.currentThreads cpu.coreId (some n) = s₂.currentThreads := by
        rw [← same]
        exact Function.update_eq_self cpu.coreId s₂.currentThreads
      cases rest
      exact ⟨rfl, s₁, _, n, added, read, by rw [unchanged]⟩
    · cases rest
      exact ⟨rfl, s₁, s₂, n, added, read, rfl⟩

theorem yieldSame_ok (done : s.yieldSame cpu = .ok s') :
    ∃ r q, s' = { s with runqueue := r, requests := q } := by
  unfold yieldSame at done
  cases own : s.current cpu with
  | none =>
    simp only [own] at done
    cases done
    exact ⟨_, _, rfl⟩
  | some thread =>
    simp only [own] at done
    cases config : cpu.config with
    | singleCore =>
      simp only [config] at done
      obtain ⟨⟨r, advanced⟩, -, rest⟩ := bind_ok_iff.mp done
      cases rest
      cases advanced with
      | true => exact ⟨r, _, rfl⟩
      | false => exact ⟨r, _, rfl⟩
    | multiCore chip affinity =>
      simp only [config] at done
      obtain ⟨empty, -, rest⟩ := bind_ok_iff.mp done
      split at rest
      · cases rest
        exact ⟨_, _, rfl⟩
      · split at rest
        · obtain ⟨q, rfl⟩ := scheduleIfHigherPrio_ok rest
          exact ⟨_, q, rfl⟩
        · cases rest
          exact ⟨_, _, rfl⟩

theorem startThreading_ok (done : s.startThreading cpu = .ok s') :
    s.currentTid cpu = none ∧ s' = s.schedule cpu := by
  unfold startThreading at done
  split at done
  · rename_i idle
    cases done
    exact ⟨idle, rfl⟩
  · cases done

theorem handleFifoToken_ok (done : s.handleFifoToken cpu = .ok s') :
    s.requests.tokens cpu.coreId ≠ 0 ∧
      s' = { s with requests := (s.requests.takeToken cpu.coreId).pend cpu.coreId } := by
  unfold handleFifoToken at done
  split at done
  · cases done
  · rename_i sent
    cases done
    exact ⟨sent, rfl⟩

theorem enterPendsv_ok (done : s.enterPendsv cpu = .ok s') :
    s.requests.pendsv cpu.coreId = true ∧ s.requests.active cpu.coreId = false ∧
      s' = { s with requests := s.requests.enter cpu.coreId } := by
  unfold enterPendsv at done
  split at done
  · rename_i pending
    cases done
    exact ⟨pending.1, by simpa using pending.2, rfl⟩
  · cases done

theorem sched_ok (done : s.sched cpu = .ok s') :
    s.requests.active cpu.coreId = true ∧ ∃ s₁ passed, s.schedOnce cpu = .ok (s₁, passed) ∧
      s' = if passed then { s₁ with requests := s₁.requests.leave cpu.coreId } else s₁ := by
  unfold sched at done
  split at done
  · cases done
  · rename_i active
    obtain ⟨⟨s₁, passed⟩, once, rest⟩ := bind_ok_iff.mp done
    cases rest
    exact ⟨by simpa using active, s₁, passed, once, rfl⟩

end ArielOS.Scheduler
