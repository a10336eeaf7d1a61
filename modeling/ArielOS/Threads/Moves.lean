import ArielOS.Threads.Waiters

namespace ArielOS

open Machine Scheduler Relation

variable {cpu : Cpu} {s s' : Scheduler} {t : Nat}

theorem Scheduler.setState_currentThreads {state old : ThreadState}
    (done : s.setState cpu t state = .ok (s', old)) : s'.currentThreads = s.currentThreads := by
  obtain ⟨-, r, q, rfl⟩ := setState_eq done
  rfl

section Steps

variable {Ready : Scheduler → Nat → Prop}

/-- The single changes that operations consist of, except for `set_priority`, `yield_same` and
    `sched`. Some of them name the current thread by its slot, some by the id that the slot holds.
    `Ready` permits to make a thread ready. -/
inductive Move (cpu : Cpu) (Ready : Scheduler → Nat → Prop) (s : Scheduler) : Scheduler → Prop
  | quiet {s' : Scheduler} (h : Quiet s s') : Move cpu Ready s s'
  | link (i : Nat) (next : Option Nat) : Move cpu Ready s (ThreadList.link s i next)
  | request (q : Requests) : Move cpu Ready s { s with requests := q }
  | ready {s' : Scheduler} {t : Nat} {old : ThreadState} (permitted : Ready s t)
      (set : s.setState cpu t .running = .ok (s', old)) : Move cpu Ready s s'
  | stop {s' : Scheduler} {t u : Nat} {state old : ThreadState} (own : s.currentTid cpu = some t)
      (which : u = t ∨ u = s.tidOf t) (stops : state ≠ .running)
      (set : s.setState cpu u state = .ok (s', old)) : Move cpu Ready s s'
  | create {s' : Scheduler} {stackStart stackLen prio t : Nat} {affinity : Option CoreAffinity}
      (made : s.create cpu stackStart stackLen prio affinity = some (s', t)) : Move cpu Ready s s'

abbrev Moves (cpu : Cpu) (Ready : Scheduler → Nat → Prop) : Scheduler → Scheduler → Prop :=
  ReflTransGen (Move cpu Ready)

/-- The permission does not depend on what other changes leave alone. -/
structure Steady (Ready : Scheduler → Nat → Prop) : Prop where
  quiet : ∀ {s s' t}, Quiet s s' → Ready s t → Ready s' t
  link : ∀ {s i next t}, Ready s t → Ready (ThreadList.link s i next) t

theorem steady_true : Steady fun _ _ => True := ⟨fun _ _ => trivial, fun _ => trivial⟩

def Op.plain : Op → Bool
  | .setPriority .. | .yieldSame | .sched => false
  | _ => true

def Event.plain : Event → Bool
  | .op o => o.plain
  | _ => true

/-- The slot of the current thread holds its id. -/
def Scheduler.SelfNamed (cpu : Cpu) (s : Scheduler) : Prop :=
  ∀ t, s.currentTid cpu = some t → s.tidOf t = t

theorem Scheduler.Named.self {refs : Nat → Prop} (named : s.Named refs) : s.SelfNamed cpu :=
  fun t own => named.current _ t own

theorem Move.currentThreads (move : Move cpu Ready s s') : s'.currentThreads = s.currentThreads := by
  cases move with
  | quiet h => exact h.currentThreads
  | link | request => rfl
  | ready _ set | stop _ _ _ set => exact setState_currentThreads set
  | create made =>
    obtain ⟨-, -, thread, rfl, -⟩ := create_ok made
    rfl

theorem Move.self (move : Move cpu Ready s s') (self : s.SelfNamed cpu) : s'.SelfNamed cpu := by
  intro t own
  have own : s.currentTid cpu = some t := (congrFun move.currentThreads _).symm.trans own
  cases move with
  | quiet h => rw [h.tidOf, self t own]
  | link | request => exact self t own
  | ready _ set | stop _ _ _ set => rw [setState_tidOf set, self t own]
  | @create _ _ _ _ u _ made =>
    obtain ⟨-, -, thread, rfl, -, -, tid, -⟩ := create_ok made
    rw [setThread_tidOf]
    by_cases same : t = u
    · rw [same, Function.update_self, tid]
    · rw [Function.update_of_ne same, self t own]

theorem Moves.self (moves : Moves cpu Ready s s') (self : s.SelfNamed cpu) : s'.SelfNamed cpu := by
  induction moves with
  | refl => exact self
  | tail _ move ih => exact move.self ih

section Operations

variable (steady : Steady Ready)

include steady in
theorem wake_moves {now : Nat} (done : s.wake cpu t now = .ok s')
    (permitted : s.timerDue t now = true → s.stateOf t ≠ .running → Ready s t) :
    Moves cpu Ready s s' := by
  rcases wake_ok done with ⟨-, rfl⟩ | ⟨due, s₁, quiet, -, ⟨-, rfl⟩ | ⟨stopped, old, set⟩⟩
  · exact .refl
  · exact .single (.quiet quiet)
  · exact (ReflTransGen.single (.quiet quiet)).tail
      (.ready (steady.quiet quiet (permitted due stopped)) set)

include steady in
theorem wakeAll_moves {expired : List (Nat × Nat)}
    (done : Scheduler.wakeAll cpu expired s = .ok s')
    (permitted : WakesPermitted cpu Ready expired s) : Moves cpu Ready s s' := by
  induction expired generalizing s with
  | nil =>
    cases done
    exact .refl
  | cons first expired ih =>
    obtain ⟨s₁, woken, rest⟩ := bind_ok_iff.mp done
    exact (wake_moves steady woken permitted.1).trans (ih rest (permitted.2 s₁ woken))

theorem park_moves (done : s.park cpu = .ok s') : Moves cpu Ready s s' := by
  rcases park_ok done with rfl | ⟨t, old, own, set⟩
  · exact .refl
  · exact .single (.stop own (Or.inl rfl) (by simp) set)

include steady in
theorem setDeadline_moves {deadline : Nat} {expired : List (Nat × Nat)} {inFuture : Bool}
    (done : s.setDeadline cpu deadline expired = .ok (s', inFuture))
    (permitted : ∀ s₁, s.armDeadline cpu deadline = .ok s₁ → WakesPermitted cpu Ready expired s₁) :
    Moves cpu Ready s s' := by
  obtain ⟨s₁, armed, woken⟩ := setDeadline_ok done
  exact (wakeAll_moves steady woken (permitted s₁ armed)).head (.quiet (armDeadline_ok armed).1)

theorem createRaw_moves {stackStart stackLen prio : Nat} {affinity : Option CoreAffinity}
    (done : s.createRaw cpu stackStart stackLen prio affinity = .ok (s', t))
    (permitted : ∀ made, s.create cpu stackStart stackLen prio affinity = some made →
      Ready made.1 made.2) : Moves cpu Ready s s' := by
  obtain ⟨s₁, old, slot, set⟩ := createRaw_ok done
  exact (ReflTransGen.single (.create slot)).tail (.ready (permitted _ slot) set)

theorem flagWaited_moves (waited : FlagWaited cpu s s') : Moves cpu Ready s s' := by
  rcases waited with ⟨quiet, -⟩ | ⟨u, old, mode, own, set⟩
  · exact .single (.quiet quiet)
  · exact .single (.stop own (Or.inr rfl) (by simp) set)

include steady in
theorem Op.run_moves {o : Op} (plain : o.plain = true) (done : o.run cpu s = .ok s')
    (permitted : o.Permitted cpu Ready (fun _ _ _ => True) s) : Moves cpu Ready s s' := by
  cases o with
  | create stackStart stackLen prio affinity =>
    obtain ⟨⟨s₁, u⟩, made, rest⟩ := bind_ok_iff.mp done
    cases rest
    exact createRaw_moves made fun made slot => (permitted made slot).2
  | exit =>
    obtain ⟨u, old, own, set⟩ := cleanup_ok done
    exact .single (.stop own (Or.inl rfl) (by simp) set)
  | park => exact park_moves done
  | unpark u =>
    obtain ⟨⟨s₁, found⟩, unparked, rest⟩ := bind_ok_iff.mp done
    cases rest
    rcases unpark_ok unparked with rfl | ⟨parked, old, set⟩
    · exact .refl
    · exact .single (.ready (permitted parked) set)
  | setPriority | yieldSame | sched => cases plain
  | flagSet u mask =>
    obtain ⟨-, s₁, quiet, -, rfl | ⟨woken, old, set⟩⟩ := flagSet_ok done
    · exact .single (.quiet quiet)
    · exact (ReflTransGen.single (.quiet quiet)).tail
        (.ready (steady.quiet quiet (permitted woken)) set)
  | flagWaitAll mask | flagWaitAny mask | flagWaitOne mask =>
    exact flagWaited_moves (op_flagWaited done)
  | flagClear mask =>
    obtain ⟨⟨s₁, flags⟩, cleared, rest⟩ := bind_ok_iff.mp done
    cases rest
    exact .single (.quiet (flagClear_ok cleared).1)
  | sleepUntil deadline expired =>
    obtain ⟨s₁, s₂, armed, woken, ending⟩ := sleepUntil_ok done
    have before : Moves cpu Ready s s₂ :=
      (wakeAll_moves steady woken (permitted s₁ armed)).head (.quiet (armDeadline_ok armed).1)
    rcases ending with rfl | parked
    · exact before
    · exact before.trans (park_moves parked)
  | wake u now => exact wake_moves steady done permitted
  | startThreading =>
    obtain ⟨-, rfl⟩ := startThreading_ok done
    exact .single (.request _)
  | fifoToken =>
    obtain ⟨-, rfl⟩ := handleFifoToken_ok done
    exact .single (.request _)
  | enterPendsv =>
    obtain ⟨-, -, rfl⟩ := enterPendsv_ok done
    exact .single (.request _)

end Operations

section Lists

variable {list list' : ThreadList} (steady : Steady Ready)

theorem putCurrent_moves {state : ThreadState} {inherit : Option Nat}
    (stops : state ≠ .running) (done : list.putCurrent cpu s state = .ok (list', s', inherit)) :
    Moves cpu Ready s s' := by
  obtain ⟨t, curr, next, old, own, -, outcome⟩ := ThreadList.putCurrent_ok done
  have linked : Moves cpu Ready s (ThreadList.link s (s.tidOf t) next) := .single (.link _ next)
  cases curr with
  | none =>
    obtain ⟨-, -, set⟩ := outcome
    exact linked.tail (.stop own (Or.inr rfl) stops set)
  | some c =>
    obtain ⟨-, -, set⟩ := outcome
    exact (linked.tail (.link c (some (s.tidOf t)))).tail (.stop own (Or.inr rfl) stops set)

include steady in
theorem pop_moves {popped : Option (Nat × ThreadState)}
    (done : list.pop cpu s = .ok (list', s', popped))
    (permitted : ∀ h, list.head = some h → Ready s h) : Moves cpu Ready s s' := by
  rcases ThreadList.pop_ok done with ⟨-, -, rfl, -⟩ | ⟨h, old, first, -, -, set⟩
  · exact .refl
  · exact (ReflTransGen.single (.link h none)).tail (.ready (steady.link (permitted h first)) set)

include steady in
theorem removeCurrent_moves {removed : Bool}
    (done : list.removeCurrent cpu s = .ok (list', s', removed))
    (permitted : ∀ t, s.currentTid cpu = some t → list.contains s t = true → Ready s t) :
    Moves cpu Ready s s' := by
  obtain ⟨t, own, ⟨-, rfl, -⟩ | ⟨-, found, old, outcome⟩⟩ := ThreadList.removeCurrent_ok done
  · exact .refl
  have ready := permitted t own found
  have linked : Moves cpu Ready s (ThreadList.link s t none) := .single (.link t none)
  rcases outcome with ⟨-, -, set⟩ | ⟨-, before, -, set⟩
  · exact linked.tail (.ready (steady.link ready) set)
  · exact (linked.tail (.link before (s.threadBlocklist t))).tail
      (.ready (steady.link (steady.link ready)) set)

end Lists

theorem Event.run_op {o : Op} {sys sys' : System} (done : (Event.op o).run cpu sys = .ok sys') :
    ∃ s, o.run cpu sys.scheduler = .ok s ∧ sys' = { sys with scheduler := s } := by
  simp only [Event.run] at done
  split at done
  · cases done
  · obtain ⟨s, ran, rest⟩ := bind_ok_iff.mp done
    cases rest
    exact ⟨s, ran, rfl⟩

/-- Every other critical section is a sequence of moves. -/
theorem Event.run_moves {e : Event} {sys sys' : System} (steady : Steady Ready)
    (plain : e.plain = true) (done : e.run cpu sys = .ok sys')
    (permitted : e.Permitted cpu Ready (fun _ _ _ => True) sys) :
    Moves cpu Ready sys.scheduler sys'.scheduler := by
  cases e with
  | op o =>
    obtain ⟨s₁, ran, rfl⟩ := Event.run_op done
    exact Op.run_moves steady plain ran permitted
  | setupIdleThread stackStart stackLen =>
    simp only [Event.run] at done
    split at done
    · cases done
    · obtain ⟨⟨s₁, t⟩, made, rest⟩ := bind_ok_iff.mp done
      cases rest
      exact createRaw_moves made fun made slot => (permitted made slot).2
  | putCurrent l state =>
    simp only [Event.run] at done
    split at done
    · rename_i blocks
      obtain ⟨⟨list, s₁, inherit⟩, put, rest⟩ := bind_ok_iff.mp done
      cases rest
      have stops : state ≠ .running := by
        intro same
        simp [same, ThreadState.inList] at blocks
      exact putCurrent_moves stops put
    · cases done
  | pop l =>
    obtain ⟨⟨list, s₁, popped⟩, took, rest⟩ := bind_ok_iff.mp done
    cases rest
    exact pop_moves steady took permitted
  | waitUntil l deadline expired =>
    obtain ⟨⟨list, s₁, waits⟩, waited, rest⟩ := bind_ok_iff.mp done
    cases rest
    obtain ⟨⟨s₂, inFuture⟩, armed, rest⟩ := bind_ok_iff.mp waited
    have before := setDeadline_moves steady armed permitted
    cases inFuture with
    | true =>
      obtain ⟨⟨list₁, s₃, inherit⟩, put, rest⟩ := bind_ok_iff.mp rest
      cases rest
      exact before.trans (putCurrent_moves (by simp) put)
    | false =>
      cases rest
      exact before
  | waitUntilResume l expired =>
    obtain ⟨⟨list, s₁, result⟩, resumed, rest⟩ := bind_ok_iff.mp done
    cases rest
    obtain ⟨t, own, outcome⟩ := WaitQueue.waitUntilResume_ok resumed
    obtain ⟨ready, wakes⟩ := permitted t own
    rcases outcome with ⟨timed, -, -, woken⟩ | ⟨untimed, removed, took, -⟩
    · exact (wakeAll_moves steady woken (wakes timed)).head (.quiet (quiet_withoutDeadline _ t))
    · refine removeCurrent_moves steady took fun u ownU found => ?_
      obtain rfl : t = u := Option.some.inj (own.symm.trans ownU)
      have ready := ready untimed
      rw [withoutDeadline_of_none untimed] at ready
      exact ready found

/-- The same without permissions. -/
theorem Event.run_moves_true {e : Event} {sys sys' : System} (plain : e.plain = true)
    (done : e.run cpu sys = .ok sys') :
    Moves cpu (fun _ _ => True) sys.scheduler sys'.scheduler :=
  Event.run_moves steady_true plain done (e.permitted_true sys)

end Steps

section CurrentThreads

def Op.isSched : Op → Bool
  | .sched => true
  | _ => false

def Event.isSched : Event → Bool
  | .op o => o.isSched
  | _ => false

def Event.entersPendsv : Event → Bool
  | .op .enterPendsv => true
  | _ => false

theorem Moves.currentThreads {Ready : Scheduler → Nat → Prop} (moves : Moves cpu Ready s s') :
    s'.currentThreads = s.currentThreads := by
  induction moves with
  | refl => rfl
  | tail _ move ih => exact move.currentThreads.trans ih

theorem Scheduler.setPriority_currentThreads {prio : Nat}
    (done : s.setPriority cpu t prio = .ok s') : s'.currentThreads = s.currentThreads := by
  rcases setPriority_eq done with ⟨rfl, -⟩ | ⟨r, q, rfl⟩
  · rfl
  · rfl

/-- Only `sched` changes what runs on a core. -/
theorem Event.run_currentThreads {e : Event} {sys sys' : System} (other : e.isSched = false)
    (done : e.run cpu sys = .ok sys') :
    sys'.scheduler.currentThreads = sys.scheduler.currentThreads := by
  by_cases plain : e.plain = true
  · exact (Event.run_moves_true plain done).currentThreads
  cases e with
  | op o =>
    obtain ⟨s₁, ran, rfl⟩ := Event.run_op done
    cases o with
    | setPriority u prio => exact setPriority_currentThreads ran
    | yieldSame =>
      obtain ⟨r, q, rfl⟩ := yieldSame_ok ran
      rfl
    | sched => cases other
    | _ => exact absurd rfl plain
  | _ => exact absurd rfl plain

theorem Scheduler.addCurrentThreadToRq_currentThreads
    (done : s.addCurrentThreadToRq cpu = .ok s') : s'.currentThreads = s.currentThreads := by
  rcases addCurrentThreadToRq_ok done with ⟨rfl, -⟩ | ⟨c, r, -, -, -, rfl⟩
  · rfl
  · rfl

/-- `sched` changes what runs on its own core, to a thread. -/
theorem Scheduler.sched_currentThreads (done : s.sched cpu = .ok s') :
    s'.currentThreads = s.currentThreads ∨
      ∃ t, s'.currentThreads = Function.update s.currentThreads cpu.coreId (some t) := by
  obtain ⟨-, s₁, passed, once, rfl⟩ := sched_ok done
  have same : (if passed then { s₁ with requests := s₁.requests.leave cpu.coreId } else s₁ :
      Scheduler).currentThreads = s₁.currentThreads := by
    split <;> rfl
  rw [same]
  cases config : cpu.config with
  | singleCore =>
    rcases schedOnce_single config once with ⟨-, rfl, -⟩ | ⟨n, -, -, rfl⟩
    · exact Or.inl rfl
    · exact Or.inr ⟨n, rfl⟩
  | multiCore chip affinity =>
    obtain ⟨-, s₂, s₃, n, added, taken, rfl⟩ := schedOnce_multi config once
    obtain ⟨r, rfl⟩ := getNextTid_keeps taken
    refine Or.inr ⟨n, ?_⟩
    dsimp only
    rw [addCurrentThreadToRq_currentThreads added]

end CurrentThreads

end ArielOS
