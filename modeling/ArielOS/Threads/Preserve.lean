import ArielOS.Threads.SchedulerSpec

namespace ArielOS

open Machine Scheduler

variable {cpu : Cpu} {s s' : Scheduler} {t prio : Nat} {state old : ThreadState}
  {refs : Nat → Prop}

/-- Thread slots that are referred to hold their own id; only slots that were never used do not.
    `refs` are the references from outside of the scheduler. -/
structure Scheduler.Named (refs : Nat → Prop) (s : Scheduler) : Prop where
  created : ∀ t, s.stateOf t ≠ .invalid → s.tidOf t = t
  timed : ∀ t, s.deadlineOf t ≠ none → s.tidOf t = t
  current : ∀ core t, s.currentThreads core = some t → s.tidOf t = t
  linked : ∀ i t, s.threadBlocklist i = some t → s.tidOf t = t
  referred : ∀ t, refs t → s.tidOf t = t

namespace Scheduler.Named

theorem new (config : Config) : (Scheduler.new config).Named fun _ => False where
  created := fun _ used => absurd rfl used
  timed := fun _ used => absurd rfl used
  current := fun _ _ used => by cases used
  linked := fun _ _ used => by cases used
  referred := fun _ used => used.elim

theorem quiet (named : s.Named refs) (h : Quiet s s') : s'.Named refs where
  created := fun t used => by
    rw [h.stateOf] at used
    rw [h.tidOf]
    exact named.created t used
  timed := fun t used => by
    rw [h.tidOf]
    rcases h.deadlineOf t used with before | ⟨core, own⟩
    · exact named.timed t before
    · exact named.current core t own
  current := fun core t own => by
    rw [h.currentThreads] at own
    rw [h.tidOf]
    exact named.current core t own
  linked := fun i t link => by
    rw [h.threadBlocklist] at link
    rw [h.tidOf]
    exact named.linked i t link
  referred := fun t ref => by
    rw [h.tidOf]
    exact named.referred t ref

theorem withState (named : s.Named refs) (self : s.tidOf t = t)
    (r : RunQueue usizeBits schedPrioLevels threadCount) (q : Requests) :
    (s.withState t state r q).Named refs where
  created := fun u used => by
    rw [withState_stateOf] at used
    rw [withState_tidOf]
    by_cases same : u = t
    · exact same ▸ self
    · rw [Function.update_of_ne same] at used
      exact named.created u used
  timed := fun u used => by
    rw [withState_deadlineOf] at used
    rw [withState_tidOf]
    exact named.timed u used
  current := fun core u own => by
    rw [withState_tidOf]
    exact named.current core u own
  linked := fun i u link => by
    rw [withState_tidOf]
    exact named.linked i u link
  referred := fun u ref => by
    rw [withState_tidOf]
    exact named.referred u ref

theorem withPrio (named : s.Named refs) (r : RunQueue usizeBits schedPrioLevels threadCount)
    (q : Requests) : (s.withPrio t prio r q).Named refs where
  created := fun u used => by
    rw [withPrio_stateOf] at used
    rw [withPrio_tidOf]
    exact named.created u used
  timed := fun u used => by
    rw [withPrio_deadlineOf] at used
    rw [withPrio_tidOf]
    exact named.timed u used
  current := fun core u own => by
    rw [withPrio_tidOf]
    exact named.current core u own
  linked := fun i u link => by
    rw [withPrio_tidOf]
    exact named.linked i u link
  referred := fun u ref => by
    rw [withPrio_tidOf]
    exact named.referred u ref

theorem setState (named : s.Named refs) (self : s.tidOf t = t)
    (done : s.setState cpu t state = .ok (s', old)) : s'.Named refs := by
  obtain ⟨-, r, q, rfl⟩ := setState_eq done
  exact named.withState self r q

/-- The runqueue and the requests do not matter. -/
theorem congr (named : s.Named refs) (threads : s'.threads = s.threads)
    (current : s'.currentThreads = s.currentThreads)
    (blocklist : s'.threadBlocklist = s.threadBlocklist) : s'.Named refs := by
  obtain ⟨_, _, _, _, _⟩ := s
  obtain ⟨_, _, _, _, _⟩ := s'
  cases threads
  cases current
  cases blocklist
  exact ⟨named.created, named.timed, named.current, named.linked, named.referred⟩

theorem setPriority (named : s.Named refs) (done : s.setPriority cpu t prio = .ok s') : s'.Named refs := by
  rcases setPriority_eq done with ⟨rfl, -⟩ | ⟨r, q, rfl⟩
  · exact named
  · exact named.withPrio r q

theorem create {stackStart stackLen : Nat} {affinity : Option CoreAffinity} (named : s.Named refs)
    (made : s.create cpu stackStart stackLen prio affinity = some (s', t)) :
    s'.Named refs ∧ s'.tidOf t = t := by
  obtain ⟨-, -, thread, rfl, -, -, tid, deadline⟩ := create_ok made
  have self : ∀ u, s.tidOf u = u → (s.setThread t thread).tidOf u = u := by
    intro u known
    rw [setThread_tidOf]
    by_cases same : u = t
    · rw [same, Function.update_self, tid]
    · rw [Function.update_of_ne same, known]
  have own : (s.setThread t thread).tidOf t = t := by
    rw [setThread_tidOf, Function.update_self, tid]
  refine ⟨⟨?_, ?_, fun core u current => self u (named.current core u current),
    fun i u link => self u (named.linked i u link),
    fun u ref => self u (named.referred u ref)⟩, own⟩
  · intro u used
    by_cases same : u = t
    · exact same ▸ own
    · rw [setThread_stateOf, Function.update_of_ne same] at used
      exact self u (named.created u used)
  · intro u used
    by_cases same : u = t
    · exact same ▸ own
    · rw [setThread_deadlineOf, Function.update_of_ne same] at used
      exact self u (named.timed u used)

theorem setCurrentThread {core : Nat} (named : s.Named refs) (self : s.tidOf t = t) :
    { s with currentThreads := Function.update s.currentThreads core (some t) : Scheduler }.Named
      refs where
  created := named.created
  timed := named.timed
  current := fun c u own => by
    dsimp only at own
    by_cases here : c = core
    · subst here
      rw [Function.update_self, Option.some.injEq] at own
      exact own ▸ self
    · rw [Function.update_of_ne here] at own
      exact named.current c u own
  linked := named.linked
  referred := named.referred

end Scheduler.Named

/-- What an invariant of the scheduler has to be closed under: one field for each way in which
    operations change what scheduling depends on. `Ready` permits to make a thread ready, `Reprio`
    to set the priority of a thread, `MayStop` to stop one and `MayStart` to start a core. -/
structure Keeps (cpu : Cpu) (refs : Nat → Prop) (Ready : Scheduler → Nat → Prop)
    (Reprio : Scheduler → Nat → Nat → Prop) (MayStop : Nat → Prop) (MayStart : Prop)
    (I : Scheduler → Prop) : Prop where
  quiet : ∀ {s s'}, Quiet s s' → I s → I s'
  quietReady : ∀ {s s' t}, Quiet s s' → Ready s t → Ready s' t
  ready : ∀ {s s' t old}, s.Named refs → s.tidOf t = t → Ready s t → I s →
    s.setState cpu t .running = .ok (s', old) → I s'
  stop : ∀ {s s' t state old}, s.Named refs → s.currentTid cpu = some t → MayStop t →
    state ≠ .running → I s → s.setState cpu t state = .ok (s', old) → I s'
  create : ∀ {s s' stackStart stackLen prio affinity t}, s.Named refs → Reprio s t prio → I s →
    s.create cpu stackStart stackLen prio affinity = some (s', t) → I s'
  setPriority : ∀ {s s' t prio}, s.Named refs → (s.isValidTid t = true → Reprio s t prio) → I s →
    s.setPriority cpu t prio = .ok s' → I s'
  yieldSame : ∀ {s s'}, s.Named refs → I s → s.yieldSame cpu = .ok s' → I s'
  startThreading : ∀ {s s'}, s.Named refs → MayStart → I s → s.startThreading cpu = .ok s' → I s'
  handleFifoToken : ∀ {s s'}, s.Named refs → I s → s.handleFifoToken cpu = .ok s' → I s'
  enterPendsv : ∀ {s s'}, s.Named refs → I s → s.enterPendsv cpu = .ok s' → I s'
  sched : ∀ {s s'}, s.Named refs → I s → s.sched cpu = .ok s' → I s' ∧ s'.Named refs

/-- The permission for each thread that the timers of the list make ready. -/
def WakesPermitted (cpu : Cpu) (Ready : Scheduler → Nat → Prop) :
    List (Nat × Nat) → Scheduler → Prop
  | [], _ => True
  | (t, now) :: expired, s =>
    (s.timerDue t now = true → s.stateOf t ≠ .running → Ready s t) ∧
      ∀ s', s.wake cpu t now = .ok s' → WakesPermitted cpu Ready expired s'

/-- The permissions for what the operation does to threads other than stopping the current one. -/
def Op.Permitted (cpu : Cpu) (Ready : Scheduler → Nat → Prop)
    (Reprio : Scheduler → Nat → Nat → Prop) (s : Scheduler) : Op → Prop
  | .create stackStart stackLen prio affinity => ∀ made,
    s.create cpu stackStart stackLen prio affinity = some made →
      Reprio s made.2 prio ∧ Ready made.1 made.2
  | .unpark t => s.getState t = some .parked → Ready s t
  | .setPriority t prio => s.isValidTid t = true → Reprio s t prio
  | .flagSet t mask => wokenBy (s.stateOf t) ((s.threads t).flags ||| mask) = true → Ready s t
  | .sleepUntil deadline expired => ∀ s₁, s.armDeadline cpu deadline = .ok s₁ →
    WakesPermitted cpu Ready expired s₁
  | .wake t now => s.timerDue t now = true → s.stateOf t ≠ .running → Ready s t
  | _ => True

theorem wakesPermitted_true (expired : List (Nat × Nat)) (s : Scheduler) :
    WakesPermitted cpu (fun _ _ => True) expired s := by
  induction expired generalizing s with
  | nil => exact trivial
  | cons first expired ih => exact ⟨fun _ _ => trivial, fun s' _ => ih s'⟩

theorem Op.permitted_true (op : Op) (s : Scheduler) :
    op.Permitted cpu (fun _ _ => True) (fun _ _ _ => True) s := by
  cases op with
  | create => exact fun _ _ => ⟨trivial, trivial⟩
  | sleepUntil deadline expired => exact fun s₁ _ => wakesPermitted_true expired s₁
  | _ => simp [Op.Permitted]

section Decide

variable {Ready : Scheduler → Nat → Prop} {Reprio : Scheduler → Nat → Nat → Prop}
  [∀ s t, Decidable (Ready s t)] [∀ s t prio, Decidable (Reprio s t prio)]

instance decidableForallSome {α : Type} {P : α → Prop} [∀ a, Decidable (P a)] :
    (x : Option α) → Decidable (∀ a, x = some a → P a)
  | none => isTrue fun _ none => by cases none
  | some a => decidable_of_iff (P a) ⟨fun holds _ same => Option.some.inj same ▸ holds,
      fun holds => holds a rfl⟩

instance decidableForallOk {φ α : Type} {P : α → Prop} [∀ a, Decidable (P a)] :
    (x : Except φ α) → Decidable (∀ a, x = .ok a → P a)
  | .error _ => isTrue fun _ failed => by cases failed
  | .ok a => decidable_of_iff (P a) ⟨fun holds _ same => Except.ok.inj same ▸ holds,
      fun holds => holds a rfl⟩

instance decidableWakesPermitted (cpu : Cpu) :
    (expired : List (Nat × Nat)) → (s : Scheduler) → Decidable (WakesPermitted cpu Ready expired s)
  | [], _ => isTrue trivial
  | (_, _) :: expired, _ =>
    have := decidableWakesPermitted cpu expired
    inferInstanceAs (Decidable (_ ∧ _))

instance decidableOpPermitted (cpu : Cpu) (s : Scheduler) :
    (op : Op) → Decidable (op.Permitted cpu Ready Reprio s)
  | .create .. => decidableForallSome _
  | .sleepUntil .. => decidableForallOk _
  | .unpark _ | .setPriority .. | .flagSet .. | .wake .. => inferInstanceAs (Decidable (_ → _))
  | .exit | .park | .yieldSame | .flagWaitAll _ | .flagWaitAny _ | .flagWaitOne _ | .flagClear _
  | .startThreading | .fifoToken | .enterPendsv | .sched => isTrue trivial

end Decide

namespace Keeps

variable {Ready : Scheduler → Nat → Prop} {Reprio : Scheduler → Nat → Nat → Prop}
  {MayStop : Nat → Prop} {MayStart : Prop} {I : Scheduler → Prop}
  (keeps : Keeps cpu refs Ready Reprio MayStop MayStart I)

include keeps

theorem readied (named : s.Named refs) (self : s.tidOf t = t) (ready : Ready s t) (holds : I s)
    (done : s.setState cpu t .running = .ok (s', old)) : s'.Named refs ∧ I s' :=
  ⟨named.setState self done, keeps.ready named self ready holds done⟩

theorem stopped (named : s.Named refs) (own : s.currentTid cpu = some t) (may : MayStop t)
    (stops : state ≠ .running) (holds : I s) (done : s.setState cpu t state = .ok (s', old)) :
    s'.Named refs ∧ I s' :=
  ⟨named.setState (named.current _ t own) done, keeps.stop named own may stops holds done⟩

theorem wake {now : Nat} (named : s.Named refs) (holds : I s)
    (permitted : s.timerDue t now = true → s.stateOf t ≠ .running → Ready s t)
    (done : s.wake cpu t now = .ok s') : s'.Named refs ∧ I s' := by
  rcases wake_ok done with ⟨-, rfl⟩ | ⟨due, s₁, quiet, -, ⟨-, rfl⟩ | ⟨stopped, old, set⟩⟩
  · exact ⟨named, holds⟩
  · exact ⟨named.quiet quiet, keeps.quiet quiet holds⟩
  · have timed : s.deadlineOf t ≠ none := by
      intro unset
      have unset : (s.threads t).deadline = none := unset
      simp [timerDue, unset] at due
    have self : s₁.tidOf t = t := by rw [quiet.tidOf, named.timed t timed]
    exact keeps.readied (named.quiet quiet) self (keeps.quietReady quiet (permitted due stopped))
      (keeps.quiet quiet holds) set

theorem wakeAll {expired : List (Nat × Nat)} (named : s.Named refs) (holds : I s)
    (permitted : WakesPermitted cpu Ready expired s)
    (done : Scheduler.wakeAll cpu expired s = .ok s') : s'.Named refs ∧ I s' := by
  induction expired generalizing s with
  | nil => cases done; exact ⟨named, holds⟩
  | cons first expired ih =>
    obtain ⟨s₁, woken, rest⟩ := bind_ok_iff.mp done
    obtain ⟨named₁, holds₁⟩ := keeps.wake named holds permitted.1 woken
    exact ih named₁ holds₁ (permitted.2 s₁ woken) rest

theorem armDeadline {deadline : Nat} (named : s.Named refs) (holds : I s)
    (done : s.armDeadline cpu deadline = .ok s') : s'.Named refs ∧ I s' :=
  have quiet := (armDeadline_ok done).1
  ⟨named.quiet quiet, keeps.quiet quiet holds⟩

theorem park (named : s.Named refs) (holds : I s)
    (may : ∀ t, s.currentTid cpu = some t → MayStop t) (done : s.park cpu = .ok s') :
    s'.Named refs ∧ I s' := by
  rcases park_ok done with rfl | ⟨t, old, own, set⟩
  · exact ⟨named, holds⟩
  · exact keeps.stopped named own (may t own) (by simp) holds set

theorem flagWaited (named : s.Named refs) (holds : I s)
    (may : ∀ t, s.currentTid cpu = some t → MayStop t) (waited : FlagWaited cpu s s') :
    s'.Named refs ∧ I s' := by
  rcases waited with ⟨quiet, -⟩ | ⟨t, old, mode, own, set⟩
  · exact ⟨named.quiet quiet, keeps.quiet quiet holds⟩
  · rw [named.current _ t own] at set
    exact keeps.stopped named own (may t own) (by simp) holds set

omit keeps in
theorem wakeAll_currentThreads {expired : List (Nat × Nat)}
    (done : Scheduler.wakeAll cpu expired s = .ok s') : s'.currentThreads = s.currentThreads := by
  induction expired generalizing s with
  | nil => cases done; rfl
  | cons first expired ih =>
    obtain ⟨s₁, woken, rest⟩ := bind_ok_iff.mp done
    rw [ih rest]
    rcases wake_ok woken with ⟨-, rfl⟩ | ⟨-, s₂, quiet, -, ⟨-, rfl⟩ | ⟨-, old, set⟩⟩
    · rfl
    · exact quiet.currentThreads
    · obtain ⟨-, -, r, q, -, -, rfl⟩ := setState_running_ok set
      exact quiet.currentThreads

/-- An operation keeps the invariant if the permissions for it are given. -/
theorem run {op : Op} (named : s.Named refs) (holds : I s) (permitted : op.Permitted cpu Ready Reprio s)
    (may : op.blocking = true → ∀ t, s.currentTid cpu = some t → MayStop t)
    (starts : op.starts = true → MayStart) (done : op.run cpu s = .ok s') : s'.Named refs ∧ I s' := by
  cases op with
  | create stackStart stackLen prio affinity =>
    obtain ⟨⟨s₁, t⟩, made, rest⟩ := bind_ok_iff.mp done
    cases rest
    obtain ⟨s₂, old, slot, set⟩ := createRaw_ok made
    obtain ⟨reprio, ready⟩ := permitted (s₂, t) slot
    obtain ⟨named₂, self⟩ := named.create slot
    exact keeps.readied named₂ self ready (keeps.create named reprio holds slot) set
  | exit =>
    obtain ⟨t, old, own, set⟩ := cleanup_ok done
    exact keeps.stopped named own (may rfl t own) (by simp) holds set
  | park => exact keeps.park named holds (may rfl) done
  | unpark t =>
    obtain ⟨⟨s₁, found⟩, unparked, rest⟩ := bind_ok_iff.mp done
    cases rest
    rcases unpark_ok unparked with rfl | ⟨parked, old, set⟩
    · exact ⟨named, holds⟩
    · obtain ⟨-, state, known⟩ := getState_running parked
      exact keeps.readied named (named.created t (state ▸ known)) (permitted parked) holds set
  | setPriority t prio =>
    exact ⟨named.setPriority done, keeps.setPriority named permitted holds done⟩
  | yieldSame =>
    refine ⟨?_, keeps.yieldSame named holds done⟩
    obtain ⟨r, q, rfl⟩ := yieldSame_ok done
    exact named.congr rfl rfl rfl
  | flagSet t mask =>
    obtain ⟨-, s₁, quiet, -, rfl | ⟨woken, old, set⟩⟩ := flagSet_ok done
    · exact ⟨named.quiet quiet, keeps.quiet quiet holds⟩
    · obtain ⟨mode, blocked⟩ := wokenBy_state woken
      have self : s₁.tidOf t = t := by rw [quiet.tidOf, named.created t (by simp [blocked])]
      exact keeps.readied (named.quiet quiet) self (keeps.quietReady quiet (permitted woken))
        (keeps.quiet quiet holds) set
  | flagWaitAll mask | flagWaitAny mask | flagWaitOne mask =>
    exact keeps.flagWaited named holds (may rfl) (op_flagWaited done)
  | flagClear mask =>
    obtain ⟨⟨s₁, flags⟩, cleared, rest⟩ := bind_ok_iff.mp done
    cases rest
    obtain ⟨quiet, -⟩ := flagClear_ok cleared
    exact ⟨named.quiet quiet, keeps.quiet quiet holds⟩
  | sleepUntil deadline expired =>
    obtain ⟨s₁, s₂, armed, woken, ending⟩ := sleepUntil_ok done
    obtain ⟨named₁, holds₁⟩ := keeps.armDeadline named holds armed
    obtain ⟨named₂, holds₂⟩ := keeps.wakeAll named₁ holds₁ (permitted s₁ armed) woken
    rcases ending with rfl | parked
    · exact ⟨named₂, holds₂⟩
    · have current : s₂.currentThreads = s.currentThreads :=
        (wakeAll_currentThreads woken).trans (armDeadline_ok armed).1.currentThreads
      refine keeps.park named₂ holds₂ (fun t own => may rfl t ?_) parked
      rwa [currentTid, current] at own
  | wake t now => exact keeps.wake named holds permitted done
  | startThreading =>
    refine ⟨?_, keeps.startThreading named (starts rfl) holds done⟩
    obtain ⟨-, rfl⟩ := startThreading_ok done
    exact named.congr rfl rfl rfl
  | fifoToken =>
    refine ⟨?_, keeps.handleFifoToken named holds done⟩
    obtain ⟨-, rfl⟩ := handleFifoToken_ok done
    exact named.congr rfl rfl rfl
  | enterPendsv =>
    refine ⟨?_, keeps.enterPendsv named holds done⟩
    obtain ⟨-, -, rfl⟩ := enterPendsv_ok done
    exact named.congr rfl rfl rfl
  | sched => exact (keeps.sched named holds done).symm

end Keeps

end ArielOS
