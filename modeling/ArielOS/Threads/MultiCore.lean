import ArielOS.Threads.SystemSpec

namespace ArielOS.MultiCore

open Machine Queues Scheduler

variable {s s' : Scheduler} {L : Queues Nat} {t prio core : Nat} {state old : ThreadState}
  {refs : Nat → Prop} {chip : Chip} {affinity : Bool}

def cpu (chip : Chip) (affinity : Bool) (core : Nat) : Cpu := ⟨.multiCore chip affinity, core⟩

section Sched

theorem isRunning_some {c : Nat} (found : s.isRunning (cpu chip affinity core) t = some c) :
    s.currentThreads c = some t := by
  simp only [isRunning, cpu] at found
  simpa using List.find?_some found

theorem isRunning_none (absent : s.isRunning (cpu chip affinity core) t = none) {c : Nat}
    (bound : c < chip.cores) : s.currentThreads c ≠ some t := by
  simp only [isRunning, cpu, List.find?_eq_none] at absent
  simpa using absent c (List.mem_range.mpr bound)

/-- The queues after the core put back its current thread. -/
def readded (s : Scheduler) (core : Nat) (L : Queues Nat) : Queues Nat :=
  match s.currentThreads core with
  | some t => if s.stateOf t = .running then enqueue L t (s.prioOf t) else L
  | none => L

theorem mem_readded {q : Nat} : t ∈ readded s core L q ↔
    t ∈ L q ∨ (s.currentThreads core = some t ∧ s.stateOf t = .running ∧ s.prioOf t = q) := by
  unfold readded
  cases own : s.currentThreads core with
  | none => simp
  | some c =>
    by_cases ready : s.stateOf c = .running
    · simp only [ready, ↓reduceIte, mem_enqueue]
      apply or_congr_right
      apply Iff.intro
      · intro ⟨same, level⟩
        exact ⟨congrArg some same.symm, same ▸ ready, same ▸ level.symm⟩
      · intro ⟨same, _, level⟩
        obtain rfl : c = t := Option.some.inj same
        exact ⟨rfl, level.symm⟩
    · simp only [ready, ↓reduceIte]
      apply Iff.intro Or.inl
      intro here
      rcases here with here | ⟨same, running, -⟩
      · exact here
      · obtain rfl : c = t := Option.some.inj same
        exact absurd running ready

theorem addCurrentThreadToRq_multi (named : s.Named refs) (represents : s.runqueue.Represents L)
    (level : ∀ c p, s.currentThreads core = some c → c ∈ L p → p = s.prioOf c)
    (added : s.addCurrentThreadToRq (cpu chip affinity core) = .ok s') :
    s'.runqueue.Represents (readded s core L) ∧ s' = { s with runqueue := s'.runqueue } := by
  unfold readded
  rcases addCurrentThreadToRq_ok added with ⟨rfl, stopped⟩ | ⟨c, r, own, ready, pushed, rfl⟩
  · refine ⟨?_, rfl⟩
    cases own : s'.currentThreads core with
    | none => exact represents
    | some c =>
      have idle := stopped c own
      simpa only [idle, ↓reduceIte] using represents
  · have own : s.currentThreads core = some c := own
    rw [named.current core c own] at pushed
    obtain ⟨-, -, holds⟩ :=
      ReadyQueue.add_ok represents (fun p here => level c p own here) pushed
    simp only [own, ready, ↓reduceIte]
    exact ⟨holds, trivial⟩

/-- The scheduler of a core puts its current thread back and takes the next one. -/
theorem sched_takes (named : s.Named refs) (represents : s.runqueue.Represents L)
    (level : ∀ c p, s.currentThreads core = some c → c ∈ L p → p = s.prioOf c)
    (done : s.sched (cpu chip affinity core) = .ok s') :
    s.requests.active core = true ∧ ∃ r n, r.Represents (remove (readded s core L) n) ∧
      (∃ q, n ∈ readded s core L q) ∧ (affinity = false → IsTop (readded s core L) n) ∧
      s' = { s with
        runqueue := r
        currentThreads := Function.update s.currentThreads core (some n)
        requests := s.requests.leave core } := by
  obtain ⟨active, s₁, passed, once, rfl⟩ := sched_ok done
  obtain ⟨rfl, s₂, s₃, n, added, taken, rfl⟩ := schedOnce_multi rfl once
  obtain ⟨holds, only⟩ := addCurrentThreadToRq_multi named represents level added
  obtain ⟨r, rfl, left, member, top⟩ := getNextTid_some rfl holds taken
  refine ⟨active, r, n, left, member, top, ?_⟩
  rw [only]
  rfl

end Sched

/-- The runqueue holds exactly the ready threads that no core runs, and no two cores run the same
    thread. -/
structure Apart (chip : Chip) (s : Scheduler) (L : Queues Nat) : Prop where
  represents : s.runqueue.Represents L
  queued : ∀ {t q}, t ∈ L q ↔
    s.stateOf t = .running ∧ s.prioOf t = q ∧ ∀ c, s.currentThreads c ≠ some t
  distinct : ∀ {c d t}, s.currentThreads c = some t → s.currentThreads d = some t → c = d
  onCore : ∀ {c t}, s.currentThreads c = some t → c < chip.cores

def Exclusive (chip : Chip) (s : Scheduler) : Prop := ∃ L, Apart chip s L

/-- The thread is current on no core. -/
def OffCore (s : Scheduler) (t : Nat) : Prop := ∀ c, s.currentThreads c ≠ some t

/-- No core of the chip still has the thread as its current one. -/
def LeftCores (chip : Chip) (s : Scheduler) (t : Nat) : Prop :=
  ∀ c < chip.cores, s.currentThreads c ≠ some t

instance : Decidable (LeftCores chip s t) :=
  inferInstanceAs (Decidable (∀ c < chip.cores, s.currentThreads c ≠ some t))

namespace Apart

theorem elsewhere (apart : Apart chip s L) (p : Nat) (member : t ∈ L p) : p = s.prioOf t :=
  (apart.queued.mp member).2.1.symm

theorem leftCores (apart : Apart chip s L) (left : LeftCores chip s t) : OffCore s t :=
  fun c own => left c (apart.onCore own) own

theorem offCore (apart : Apart chip s L) {q : Nat} (member : t ∈ L q) : OffCore s t :=
  (apart.queued.mp member).2.2

/-- A change of threads that are not ready before and after does not matter. -/
theorem congr (apart : Apart chip s L) (runqueue : s'.runqueue = s.runqueue)
    (current : s'.currentThreads = s.currentThreads)
    (ready : ∀ t, OffCore s t → ∀ q, (s'.stateOf t = .running ∧ s'.prioOf t = q ↔
      s.stateOf t = .running ∧ s.prioOf t = q)) : Apart chip s' L where
  represents := runqueue ▸ apart.represents
  queued := by
    intro t q
    rw [apart.queued, current]
    by_cases off : OffCore s t
    · rw [← and_assoc, ← and_assoc, and_congr_left_iff]
      exact fun _ => (ready t off q).symm
    · exact ⟨fun here => absurd here.2.2 off, fun here => absurd here.2.2 off⟩
  distinct := by
    rw [current]
    exact apart.distinct
  onCore := by
    rw [current]
    exact apart.onCore

theorem quiet (apart : Apart chip s L) (h : Quiet s s') : Apart chip s' L := by
  apply apart.congr h.runqueue h.currentThreads
  intro t _ q
  rw [h.stateOf, h.prioOf]

theorem started (apart : Apart chip s L) (off : OffCore s t)
    {r : RunQueue usizeBits schedPrioLevels threadCount} (q : Requests)
    (holds : r.Represents (enqueue L t (s.prioOf t))) :
    Apart chip (s.withState t .running r q) (enqueue L t (s.prioOf t)) where
  represents := holds
  queued := by
    intro u p
    rw [mem_enqueue, apart.queued, withState_stateOf, withState_prioOf]
    by_cases same : u = t
    · subst same
      rw [Function.update_self]
      apply Iff.intro
      · intro here
        rcases here with here | here
        · exact ⟨rfl, here.2⟩
        · exact ⟨rfl, here.2.symm, off⟩
      · exact fun here => Or.inr ⟨rfl, here.2.1.symm⟩
    · rw [Function.update_of_ne same]
      simp [same]
  distinct := apart.distinct
  onCore := apart.onCore

theorem stopped (apart : Apart chip s L) {c : Nat} (own : s.currentThreads c = some t)
    (q : Requests) : Apart chip (s.withState t state s.runqueue q) L := by
  refine apart.congr rfl rfl ?_
  intro u off p
  have other : u ≠ t := fun same => off c (same ▸ own)
  rw [withState_stateOf, withState_prioOf, Function.update_of_ne other]

theorem reprioritised (apart : Apart chip s L) (ready : s.stateOf t = .running) (off : OffCore s t)
    {r : RunQueue usizeBits schedPrioLevels threadCount} (q : Requests)
    (holds : r.Represents (enqueue (remove L t) t prio)) :
    Apart chip (s.withPrio t prio r q) (enqueue (remove L t) t prio) where
  represents := holds
  queued := by
    intro u p
    rw [mem_enqueue, mem_remove apart.represents.queues.separate, withPrio_stateOf,
      withPrio_prioOf, apart.queued]
    by_cases same : u = t
    · subst same
      rw [Function.update_self]
      apply Iff.intro
      · intro here
        rcases here with here | here
        · exact absurd rfl here.2
        · exact ⟨ready, here.2.symm, off⟩
      · exact fun here => Or.inr ⟨rfl, here.2.1.symm⟩
    · simp [same]
  distinct := apart.distinct
  onCore := apart.onCore

end Apart

theorem exclusive_new (config : Config) : Exclusive chip (.new config) := by
  refine ⟨fun _ => [], RunQueue.new_represents, ?_, ?_, ?_⟩
  · intro t q
    simp [stateOf, Scheduler.new, Thread.default]
  · intro c d t own
    cases own
  · intro c t own
    cases own

theorem exclusive_requests (inv : Exclusive chip s) (q : Requests) :
    Exclusive chip { s with requests := q } := by
  obtain ⟨L, apart⟩ := inv
  exact ⟨L, apart.congr rfl rfl fun _ _ _ => Iff.rfl⟩

theorem exclusive_stop (inv : Exclusive chip s) (own : s.currentThreads core = some t)
    (stops : state ≠ .running)
    (done : s.setState (cpu chip affinity core) t state = .ok (s', old)) : Exclusive chip s' := by
  obtain ⟨L, apart⟩ := inv
  by_cases ready : s.stateOf t = .running
  · obtain ⟨-, -, r, -, same, rfl⟩ := setState_block_ok stops ready done
    obtain rfl : r = s.runqueue := same fun single => Config.noConfusion single
    exact ⟨L, apart.stopped own _⟩
  · obtain ⟨-, rfl⟩ := setState_idle_ok stops ready done
    exact ⟨L, apart.stopped own _⟩

theorem exclusive_create {stackStart stackLen : Nat} {mask : Option CoreAffinity}
    (inv : Exclusive chip s)
    (made : s.create (cpu chip affinity core) stackStart stackLen prio mask = some (s', t)) :
    Exclusive chip s' := by
  obtain ⟨L, apart⟩ := inv
  obtain ⟨-, free, thread, rfl, state, -, -, -⟩ := create_ok made
  refine ⟨L, apart.congr rfl rfl ?_⟩
  intro u _ q
  rw [setThread_stateOf, setThread_prioOf]
  by_cases same : u = t
  · subst same
    simp [state, free]
  · rw [Function.update_of_ne same, Function.update_of_ne same]

theorem exclusive_setPriority (inv : Exclusive chip s)
    (done : s.setPriority (cpu chip affinity core) t prio = .ok s') : Exclusive chip s' := by
  obtain ⟨L, apart⟩ := inv
  rcases setPriority_ok done with ⟨rfl, -⟩ | ⟨-, -, changed, ⟨stopped, rfl⟩ |
    ⟨-, _, _, c, -, running, rfl⟩ | ⟨ready, r, moved, outcome⟩⟩
  · exact ⟨L, apart⟩
  · refine ⟨L, apart.congr rfl rfl ?_⟩
    intro u _ q
    rw [withPrio_stateOf, withPrio_prioOf]
    by_cases same : u = t
    · subst same
      simp [stopped]
    · rw [Function.update_of_ne same]
  · refine ⟨L, apart.congr rfl rfl ?_⟩
    intro u off q
    have other : u ≠ t := fun same => off c (same ▸ isRunning_some running)
    rw [withPrio_stateOf, withPrio_prioOf, Function.update_of_ne other]
  · have holds := ReadyQueue.requeue_ok apart.represents moved
    have next : ∀ q, s.isRunning (cpu chip affinity core) t = none →
        Exclusive chip (s.withPrio t prio r q) := by
      intro q absent
      have off : OffCore s t := fun c own => isRunning_none absent (apart.onCore own) own
      exact ⟨_, apart.reprioritised ready off q holds⟩
    rcases outcome with ⟨single, -⟩ | ⟨absent, -, scheduled⟩ | ⟨absent, -, rfl⟩
    · cases single
    · obtain ⟨q, rfl⟩ := scheduleIfHigherPrio_ok scheduled
      exact next q absent
    · exact next _ absent

theorem yieldSame_multi (done : s.yieldSame (cpu chip affinity core) = .ok s') :
    s' = s ∨ (∃ c, s.currentThreads core = some c) ∧ ∃ q, s' = { s with requests := q } ∧
      (affinity = false → q = s.requests.pend core) := by
  unfold yieldSame at done
  cases own : s.currentThreads core with
  | none =>
    simp only [current, currentTid, cpu, own, Option.map_none] at done
    cases done
    exact Or.inl rfl
  | some c =>
    simp only [current, currentTid, cpu, own, Option.map_some] at done
    obtain ⟨empty, -, rest⟩ := bind_ok_iff.mp done
    split at rest
    · cases rest
      exact Or.inl rfl
    · refine Or.inr ⟨⟨c, rfl⟩, ?_⟩
      split at rest
      · rename_i affine
        obtain ⟨q, rfl⟩ := scheduleIfHigherPrio_ok rest
        exact ⟨q, rfl, fun other => absurd affine.1 (by simp [other])⟩
      · cases rest
        exact ⟨_, rfl, fun _ => rfl⟩

theorem exclusive_yieldSame (inv : Exclusive chip s)
    (done : s.yieldSame (cpu chip affinity core) = .ok s') : Exclusive chip s' := by
  rcases yieldSame_multi done with rfl | ⟨-, q, rfl, -⟩
  · exact inv
  · exact exclusive_requests inv q

theorem Apart.scheduled (apart : Apart chip s L) (bound : core < chip.cores)
    {r : RunQueue usizeBits schedPrioLevels threadCount} {n : Nat}
    (holds : r.Represents (remove (readded s core L) n)) (separate : Separate (readded s core L))
    (member : ∃ q, n ∈ readded s core L q) (q : Requests) :
    Apart chip { s with
      runqueue := r
      currentThreads := Function.update s.currentThreads core (some n)
      requests := q } (remove (readded s core L) n) where
  represents := holds
  queued := by
    intro u p
    rw [mem_remove separate, mem_readded, apart.queued]
    apply Iff.intro
    · intro ⟨here, other⟩
      rcases here with ⟨ready, level, off⟩ | ⟨own, ready, level⟩
      · refine ⟨ready, level, fun c => ?_⟩
        by_cases same : c = core
        · simpa [same] using Ne.symm other
        · simpa [same] using off c
      · refine ⟨ready, level, fun c => ?_⟩
        by_cases same : c = core
        · simpa [same] using Ne.symm other
        · simpa [same] using fun twice => same (apart.distinct twice own)
    · intro ⟨ready, level, off⟩
      have other : u ≠ n := by simpa [eq_comm] using off core
      refine ⟨?_, other⟩
      by_cases own : s.currentThreads core = some u
      · exact Or.inr ⟨own, ready, level⟩
      · refine Or.inl ⟨ready, level, fun c => ?_⟩
        by_cases same : c = core
        · exact same ▸ own
        · simpa [same] using off c
  distinct := by
    have fresh : ∀ c, c ≠ core → s.currentThreads c ≠ some n := by
      intro c other here
      obtain ⟨p, member⟩ := member
      rcases mem_readded.mp member with queued | ⟨own, -⟩
      · exact apart.offCore queued c here
      · exact other (apart.distinct here own)
    intro c d u first second
    dsimp only at first second
    by_cases onC : c = core
    · by_cases onD : d = core
      · rw [onC, onD]
      · rw [onC, Function.update_self] at first
        rw [Function.update_of_ne onD] at second
        exact absurd (first ▸ second) (fresh d onD)
    · rw [Function.update_of_ne onC] at first
      by_cases onD : d = core
      · rw [onD, Function.update_self] at second
        exact absurd (second ▸ first) (fresh c onC)
      · rw [Function.update_of_ne onD] at second
        exact apart.distinct first second
  onCore := by
    intro c u here
    dsimp only at here
    by_cases same : c = core
    · exact same ▸ bound
    · rw [Function.update_of_ne same] at here
      exact apart.onCore here

theorem Apart.separate_readded (apart : Apart chip s L) (core : Nat) :
    Separate (readded s core L) := by
  unfold readded
  split
  · split
    · exact apart.represents.queues.separate.enqueue fun p here => apart.elsewhere p here
    · exact apart.represents.queues.separate
  · exact apart.represents.queues.separate

theorem exclusive_sched (bound : core < chip.cores) (named : s.Named refs)
    (inv : Exclusive chip s) (done : s.sched (cpu chip affinity core) = .ok s') :
    Exclusive chip s' ∧ s'.Named refs := by
  obtain ⟨L, apart⟩ := inv
  obtain ⟨-, r, n, holds, member, -, rfl⟩ :=
    sched_takes named apart.represents (fun c p _ here => apart.elsewhere p here) done
  have separate := apart.separate_readded core
  have ⟨p, here⟩ := member
  have ready : s.stateOf n = .running := by
    rcases mem_readded.mp here with queued | ⟨-, ready, -⟩
    · exact (apart.queued.mp queued).1
    · exact ready
  have self : s.tidOf n = n := named.created n (by simp [ready])
  exact ⟨⟨_, apart.scheduled bound holds separate member _⟩,
    (named.setCurrentThread self).congr rfl rfl rfl⟩

theorem exclusive_ready (inv : Exclusive chip s) (left : LeftCores chip s t)
    (done : s.setState (cpu chip affinity core) t .running = .ok (s', old)) :
    Exclusive chip s' := by
  obtain ⟨L, apart⟩ := inv
  obtain ⟨-, -, r, q, added, -, rfl⟩ := setState_running_ok done
  obtain ⟨-, -, holds⟩ := ReadyQueue.add_ok apart.represents apart.elsewhere added
  exact ⟨_, apart.started (apart.leftCores left) q holds⟩

/-- Exclusivity is kept as long as only threads that have left every core become ready. -/
theorem keeps (bound : core < chip.cores) (refs : Nat → Prop) :
    Keeps (cpu chip affinity core) refs (LeftCores chip) (fun _ _ _ => True) (fun _ => True) True
      (Exclusive chip) where
  quiet := fun h ⟨L, apart⟩ => ⟨L, apart.quiet h⟩
  quietReady := fun h left c here => h.currentThreads ▸ left c here
  ready := fun _ _ left inv done => exclusive_ready inv left done
  stop := fun _ own _ stops inv done => exclusive_stop inv own stops done
  create := fun _ _ inv made => exclusive_create inv made
  setPriority := fun _ _ inv done => exclusive_setPriority inv done
  yieldSame := fun _ inv done => exclusive_yieldSame inv done
  startThreading := fun _ _ inv done => by
    obtain ⟨-, rfl⟩ := startThreading_ok done
    exact exclusive_requests inv _
  handleFifoToken := fun _ inv done => by
    obtain ⟨-, rfl⟩ := handleFifoToken_ok done
    exact exclusive_requests inv _
  enterPendsv := fun _ inv done => by
    obtain ⟨-, -, rfl⟩ := enterPendsv_ok done
    exact exclusive_requests inv _
  sched := fun named inv done => exclusive_sched bound named inv done

/-- The runs in which no thread becomes ready while a core still has it as its current thread. -/
abbrev WakesOffCores (chip : Chip) (affinity : Bool) : Nat × Event → System → Prop :=
  System.Permitted (.multiCore chip affinity) (fun _ => LeftCores chip) fun _ _ _ _ => True

theorem reaches_exclusive {sys : System}
    (reached : Reaches (System.step (.multiCore chip affinity)) (WakesOffCores chip affinity)
      (.new (.multiCore chip affinity)) sys) :
    sys.scheduler.Named sys.heads ∧ Exclusive chip sys.scheduler := by
  refine Keeps.reaches ?_ ?_ ?_ (exclusive_new (.multiCore chip affinity)) reached
  · exact fun core refs bound => keeps bound refs
  · intro s i next ⟨L, apart⟩
    exact ⟨L, apart.congr rfl rfl fun _ _ _ => Iff.rfl⟩
  · exact fun left => left

theorem no_thread_on_two_cores {sys : System}
    (reached : Reaches (System.step (.multiCore chip affinity)) (WakesOffCores chip affinity)
      (.new (.multiCore chip affinity)) sys) (c d : Nat) (other : c ≠ d) (t : Nat)
    (own : sys.scheduler.currentThreads c = some t) : sys.scheduler.currentThreads d ≠ some t := by
  obtain ⟨-, L, apart⟩ := reaches_exclusive reached
  exact fun twice => other (apart.distinct own twice)

section Samples

def rp2040 : Config := .multiCore (Rp.chip .rp2040) false

/-- The idle threads 0 and 1 and thread 2 are created, then both cores are started: core 0 runs
    thread 2 and core 1 runs thread 0. -/
def bootEvents : List (Nat × Event) :=
  [(0, .setupIdleThread 0 512), (0, .setupIdleThread 512 512), (0, .op (.create 1024 512 5 none)),
    (0, .op .startThreading), (0, .op .enterPendsv), (0, .op .sched), (1, .op .startThreading),
    (1, .op .enterPendsv), (1, .op .sched)]

def switch (core : Nat) : List (Nat × Event) := [(core, .op .enterPendsv), (core, .op .sched)]

def runs (c t : Nat) (sys : System) : Bool := sys.scheduler.currentThreads c == some t

theorem no_thread_on_two_cores_sample : ∃ sys : System,
    sys.scheduler.currentThreads 0 = some 2 ∧ sys.scheduler.currentThreads 1 ≠ some 2 := by
  have run : ∃ sys, Reaches (System.step rp2040) (WakesOffCores (Rp.chip .rp2040) false)
      (.new rp2040) sys ∧ runs 0 2 sys = true :=
    reaches_of_check (bootEvents ++ [(0, .op .park)] ++ switch 0 ++
      [(1, .op (.unpark 2)), (0, .op .fifoToken)] ++ switch 0) (by decide +kernel)
  obtain ⟨sys, reached, here⟩ := run
  have own : sys.scheduler.currentThreads 0 = some 2 := by simpa [runs] using here
  exact ⟨sys, own, no_thread_on_two_cores reached 0 1 (by decide) 2 own⟩

/-- Thread 2 parks on core 0, core 1 wakes it and takes it before core 0 has switched. -/
theorem thread_on_two_cores : ∃ sys, Reachable (System.step rp2040) (.new rp2040) sys ∧
    sys.scheduler.currentThreads 0 = some 2 ∧ sys.scheduler.currentThreads 1 = some 2 := by
  have run : ∃ sys, Reachable (System.step rp2040) (.new rp2040) sys ∧
      (runs 0 2 sys && runs 1 2 sys) = true :=
    reaches_of_check (bootEvents ++ [(0, .op .park), (1, .op (.unpark 2))] ++ switch 1)
      (by decide +kernel)
  obtain ⟨sys, reached, here⟩ := run
  exact ⟨sys, reached, by simpa [runs] using here⟩

end Samples

end ArielOS.MultiCore
