import ArielOS.Lib.Counted
import ArielOS.Threads.Moves
import ArielOS.Threads.MultiCore

namespace ArielOS.MultiCore

open Machine Queues Relation Scheduler

variable {s s' : Scheduler} {sys sys' : System} {L L' : Queues Nat} {e : Nat × Event} {chip : Chip}
  {t p k core : Nat}

theorem steady_leftCores : Steady (LeftCores chip) where
  quiet h left c here := h.currentThreads ▸ left c here
  link left := left

/-- A move changes nobody's place in a queue. -/
theorem Apart.move (apart : Apart chip s L) (self : s.SelfNamed (cpu chip false core))
    (move : Move (cpu chip false core) (LeftCores chip) s s') :
    ∃ L', Apart chip s' L' ∧ ∀ t p, t ∈ L p → t ∈ L' p ∧ (L' p).idxOf t = (L p).idxOf t := by
  have same : ∀ t p, t ∈ L p → t ∈ L p ∧ (L p).idxOf t = (L p).idxOf t :=
    fun t p member => ⟨member, rfl⟩
  cases move with
  | quiet h => exact ⟨L, apart.quiet h, same⟩
  | link | request => exact ⟨L, apart.congr rfl rfl fun _ _ _ => Iff.rfl, same⟩
  | ready left set =>
    obtain ⟨-, -, r, q, added, -, rfl⟩ := setState_running_ok set
    obtain ⟨-, -, holds⟩ := ReadyQueue.add_ok apart.represents apart.elsewhere added
    exact ⟨_, apart.started (apart.leftCores left) q holds,
      fun t p member => ⟨mem_enqueue.mpr (Or.inl member), idxOf_enqueue member⟩⟩
  | @stop _ c u _ _ own which stops set =>
    obtain rfl : u = c := which.elim id fun named => named.trans (self c own)
    by_cases ready : s.stateOf u = .running
    · obtain ⟨-, -, r, -, kept, rfl⟩ := setState_block_ok stops ready set
      obtain rfl : r = s.runqueue := kept fun single => Config.noConfusion single
      exact ⟨L, apart.stopped own _, same⟩
    · obtain ⟨-, rfl⟩ := setState_idle_ok stops ready set
      exact ⟨L, apart.stopped own _, same⟩
  | @create _ _ _ _ u _ made =>
    obtain ⟨-, free, thread, rfl, state, -, -, -⟩ := create_ok made
    refine ⟨L, apart.congr rfl rfl fun w _ q => ?_, same⟩
    rw [setThread_stateOf, setThread_prioOf]
    by_cases new : w = u
    · subst new
      simp [state, free]
    · rw [Function.update_of_ne new, Function.update_of_ne new]

theorem Apart.moves (apart : Apart chip s L) (self : s.SelfNamed (cpu chip false core))
    (moves : Moves (cpu chip false core) (LeftCores chip) s s') (member : t ∈ L p) :
    ∃ L', Apart chip s' L' ∧ t ∈ L' p ∧ (L' p).idxOf t = (L p).idxOf t := by
  induction moves with
  | refl => exact ⟨L, apart, member, rfl⟩
  | tail before move ih =>
    obtain ⟨L₁, apart₁, member₁, same₁⟩ := ih
    obtain ⟨L₂, apart₂, kept⟩ := apart₁.move (Moves.self before self) move
    obtain ⟨member₂, same₂⟩ := kept t p member₁
    exact ⟨L₂, apart₂, member₂, same₂.trans same₁⟩

/-- The thread is ready at the priority, and on no core. -/
structure Waits (chip : Chip) (t p : Nat) (s : Scheduler) : Prop where
  ready : s.stateOf t = .running
  level : s.prioOf t = p
  left : LeftCores chip s t

theorem Waits.member (waits : Waits chip t p s) (apart : Apart chip s L) : t ∈ L p :=
  apart.queued.mpr ⟨waits.ready, waits.level, apart.leftCores waits.left⟩

/-- Another thread changes its priority. -/
theorem Apart.setPriority {u prio : Nat} (apart : Apart chip s L) (waits : Waits chip t p s)
    (waits' : Waits chip t p s') (done : s.setPriority (cpu chip false core) u prio = .ok s') :
    ∃ L', Apart chip s' L' ∧ (L' p).idxOf t ≤ (L p).idxOf t := by
  rcases setPriority_ok done with ⟨rfl, -⟩ | ⟨-, -, changed, ⟨stopped, rfl⟩ |
    ⟨-, _, _, c, -, running, rfl⟩ | ⟨ready, r, moved, outcome⟩⟩
  · exact ⟨L, apart, Nat.le_refl _⟩
  · refine ⟨L, apart.congr rfl rfl fun w _ q => ?_, Nat.le_refl _⟩
    rw [withPrio_stateOf, withPrio_prioOf]
    by_cases same : w = u
    · subst same
      simp [stopped]
    · rw [Function.update_of_ne same]
  · refine ⟨L, apart.congr rfl rfl fun w off q => ?_, Nat.le_refl _⟩
    have other : w ≠ u := fun same => off c (same ▸ isRunning_some running)
    rw [withPrio_stateOf, withPrio_prioOf, Function.update_of_ne other]
  · have holds := ReadyQueue.requeue_ok apart.represents moved
    have made : s.isRunning (cpu chip false core) u = none ∧ ∃ q, s' = s.withPrio u prio r q := by
      rcases outcome with ⟨single, -⟩ | ⟨absent, -, scheduled⟩ | ⟨absent, -, rfl⟩
      · cases single
      · obtain ⟨q, rfl⟩ := scheduleIfHigherPrio_ok scheduled
        exact ⟨absent, q, rfl⟩
      · exact ⟨absent, _, rfl⟩
    obtain ⟨absent, q, rfl⟩ := made
    have off : OffCore s u := fun c own => isRunning_none absent (apart.onCore own) own
    have other : t ≠ u := by
      rintro rfl
      have level := waits'.level
      rw [withPrio_prioOf, Function.update_self] at level
      exact changed (waits.level.trans level.symm)
    have stays : t ∈ remove L u p := (List.mem_erase_of_ne other).mpr (waits.member apart)
    refine ⟨_, apart.reprioritised ready off q holds, ?_⟩
    rw [idxOf_enqueue stays]
    exact idxOf_remove_le other

theorem idxOf_readded (member : t ∈ L p) :
    (readded s core L p).idxOf t = (L p).idxOf t := by
  unfold readded
  cases s.currentThreads core with
  | none => rfl
  | some c =>
    dsimp only
    split
    · exact idxOf_enqueue member
    · rfl

theorem Apart.sched {refs : Nat → Prop} (apart : Apart chip s L) (bound : core < chip.cores)
    (named : s.Named refs) (waits : Waits chip t p s) (waits' : Waits chip t p s')
    (done : s.sched (cpu chip false core) = .ok s') :
    ∃ L', Apart chip s' L' ∧ (L' p).idxOf t +
      (if (s'.currentThreads core).any fun n => s'.prioOf n = p then 1 else 0) ≤ (L p).idxOf t := by
  obtain ⟨-, r, n, holds, member, top, rfl⟩ :=
    sched_takes named apart.represents (fun c p _ here => apart.elsewhere p here) done
  refine ⟨_, apart.scheduled bound holds (apart.separate_readded core) member _, ?_⟩
  have other : t ≠ n := by
    rintro rfl
    exact waits'.left core bound (Function.update_self ..)
  have dispatched : ((Function.update s.currentThreads core (some n) core).any fun m =>
      s.prioOf m = p) = decide (s.prioOf n = p) := by
    rw [Function.update_self]
    rfl
  show _ + (if ((Function.update s.currentThreads core (some n) core).any fun m =>
    s.prioOf m = p) = true then 1 else 0) ≤ _
  rw [dispatched, ← idxOf_readded (waits.member apart)]
  by_cases level : s.prioOf n = p
  · obtain ⟨q, first, -⟩ := top rfl
    have same : q = p := by
      rcases mem_readded.mp (List.mem_of_head? first) with queued | ⟨-, -, own⟩
      · exact (apart.elsewhere q queued).trans level
      · exact own.symm.trans level
    subst same
    rw [if_pos (decide_eq_true level), idxOf_remove_head first other]
  · rw [if_neg (by simpa using level)]
    exact idxOf_remove_le other

/-- A core is given to a thread with the priority. -/
def dispatches (p : Nat) (e : Nat × Event) (sys' : System) : Nat :=
  if e.2.isSched ∧ (sys'.scheduler.currentThreads e.1).any fun n => sys'.scheduler.prioOf n = p then 1
  else 0

theorem step_ahead (named : sys.scheduler.Named sys.heads) (permitted : WakesOffCores chip false e sys)
    (done : System.step (.multiCore chip false) e sys = .ok sys')
    (waits : Waits chip t p sys.scheduler) (waits' : Waits chip t p sys'.scheduler)
    (apart : Apart chip sys.scheduler L) :
    ∃ L', Apart chip sys'.scheduler L' ∧ (L' p).idxOf t + dispatches p e sys' ≤ (L p).idxOf t := by
  obtain ⟨core, event⟩ := e
  obtain ⟨bound, -, ran⟩ := System.step_ok done
  by_cases plain : event.plain = true
  · obtain ⟨L', apart', -, same⟩ := apart.moves named.self
      (Event.run_moves steady_leftCores plain ran permitted) (waits.member apart)
    have other : event.isSched = false := by
      unfold Event.isSched Op.isSched
      split
      · split
        · cases plain
        · rfl
      · rfl
    refine ⟨L', apart', ?_⟩
    simp [dispatches, other, same]
  cases event with
  | op o =>
    obtain ⟨s, changed, rfl⟩ := Event.run_op ran
    cases o with
    | setPriority u prio => exact apart.setPriority waits waits' changed
    | yieldSame =>
      rcases yieldSame_multi changed with rfl | ⟨-, q, rfl, -⟩
      · exact ⟨L, apart, Nat.le_refl _⟩
      · exact ⟨L, apart.congr rfl rfl fun _ _ _ => Iff.rfl, Nat.le_refl _⟩
    | sched =>
      obtain ⟨L', apart', ahead⟩ := apart.sched bound named waits waits' changed
      refine ⟨L', apart', ?_⟩
      simpa [dispatches, Event.isSched, Op.isSched] using ahead
    | _ => exact absurd rfl plain
  | _ => exact absurd rfl plain

/-- A run throughout which the thread waits, with the number of threads of its priority to which a
    core is given. -/
abbrev Waiting (chip : Chip) (t p : Nat) : System → System → Nat → Prop :=
  Counted (System.step (.multiCore chip false)) (WakesOffCores chip false)
    (fun sys => Waits chip t p sys.scheduler) fun e _ sys' => dispatches p e sys'

/-- The number of ready threads with the priority that are on no core. -/
def queuedAt (chip : Chip) (s : Scheduler) (p : Nat) : Nat :=
  (List.range threadCount).countP fun t => s.stateOf t = .running ∧ s.prioOf t = p ∧ LeftCores chip s t

theorem Apart.length_eq (apart : Apart chip s L) (p : Nat) : (L p).length = queuedAt chip s p := by
  unfold queuedAt
  rw [List.countP_eq_length_filter]
  apply List.Perm.length_eq
  rw [List.perm_ext_iff_of_nodup (apart.represents.queues.separate.nodup p)
    (List.nodup_range.filter _)]
  intro t
  simp only [List.mem_filter, List.mem_range, decide_eq_true_eq, apart.queued]
  apply Iff.intro
  · intro ⟨ready, level, off⟩
    refine ⟨?_, ready, level, fun c _ => off c⟩
    exact apart.represents.queues.thread_lt (apart.queued.mpr ⟨ready, level, off⟩)
  · exact fun ⟨_, ready, level, left⟩ => ⟨ready, level, apart.leftCores left⟩

/-- While a ready thread waits for a core, cores are given to fewer threads of its priority than waited
    with it when it began to wait, by the number of threads that are still ahead of it. -/
theorem bounded_overtaking (reached : Reaches (System.step (.multiCore chip false))
      (WakesOffCores chip false) (.new (.multiCore chip false)) sys)
    (waiting : Waiting chip t p sys sys' k) : ∃ L, sys'.scheduler.runqueue.Represents L ∧ t ∈ L p ∧
      (L p).idxOf t + k < queuedAt chip sys.scheduler p := by
  obtain ⟨-, L, apart⟩ := reaches_exclusive reached
  obtain ⟨m, waits, ⟨L', apart', place⟩, le⟩ := Counted.bounded
    (fun sys => Reaches (System.step (.multiCore chip false)) (WakesOffCores chip false)
      (.new (.multiCore chip false)) sys)
    (fun sys n => ∃ L, Apart chip sys.scheduler L ∧ (L p).idxOf t = n)
    (fun _ e _ reached permitted done => reached.next e permitted done)
    (fun _ e _ n reached permitted waits waits' done place => by
      obtain ⟨L, apart, rfl⟩ := place
      obtain ⟨L₁, apart₁, le⟩ :=
        step_ahead (reaches_exclusive reached).1 permitted done waits waits' apart
      exact ⟨_, ⟨L₁, apart₁, rfl⟩, le⟩)
    waiting reached ⟨L, apart, rfl⟩
  have bound := List.idxOf_lt_length_of_mem ((Counted.holds waiting).member apart)
  rw [apart.length_eq] at bound
  exact ⟨L', apart'.represents, waits.member apart', place ▸ le.trans_lt bound⟩

section Samples

instance : Decidable (Waits chip t p s) :=
  decidable_of_iff (s.stateOf t = .running ∧ s.prioOf t = p ∧ LeftCores chip s t)
    ⟨fun ⟨ready, level, left⟩ => ⟨ready, level, left⟩,
      fun waits => ⟨waits.ready, waits.level, waits.left⟩⟩

/-- The threads 3 to 5 have the priority of thread 2, which core 0 runs, and core 1 runs thread 3. -/
def fourStart : List (Nat × Event) :=
  bootEvents ++ [(0, .op (.create 1536 512 5 none)), (0, .op (.create 2048 512 5 none)),
    (0, .op (.create 2560 512 5 none)), (1, .op .fifoToken)] ++ switch 1

/-- Core 0 is given to thread 4 before it is the turn of thread 5. -/
theorem bounded_overtaking_sample : ∃ (sys sys' : System) (L : Queues Nat),
    queuedAt (Rp.chip .rp2040) sys.scheduler 5 = 2 ∧ Waiting (Rp.chip .rp2040) 5 5 sys sys' 1 ∧
      sys'.scheduler.runqueue.Represents L ∧
      (L 5).idxOf 5 + 1 < queuedAt (Rp.chip .rp2040) sys.scheduler 5 := by
  have run : ∃ sys, Reaches (System.step rp2040) (WakesOffCores (Rp.chip .rp2040) false)
      (.new rp2040) sys ∧ (queuedAt (Rp.chip .rp2040) sys.scheduler 5 == 2 &&
        (Counted.runCounted (System.step rp2040) (WakesOffCores (Rp.chip .rp2040) false)
          (fun sys => Waits (Rp.chip .rp2040) 5 5 sys.scheduler)
          (fun e _ sys' => dispatches 5 e sys') ((0, .op .yieldSame) :: switch 0) sys).any
          fun last => last.2 == 1) = true :=
    reaches_of_check fourStart (by decide +kernel)
  obtain ⟨sys, reached, checked⟩ := run
  simp only [Bool.and_eq_true, beq_iff_eq, Option.any_eq_true] at checked
  obtain ⟨two, ⟨sys', k⟩, waited, rfl⟩ := checked
  have waiting : Waiting (Rp.chip .rp2040) 5 5 sys sys' 1 := Counted.of_runCounted waited
  obtain ⟨L, represents, -, bound⟩ := bounded_overtaking reached waiting
  exact ⟨sys, sys', L, two, waiting, represents, bound⟩

end Samples

end ArielOS.MultiCore
