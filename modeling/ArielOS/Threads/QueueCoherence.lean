import ArielOS.Threads.IdleThreads

namespace ArielOS.MultiCore

open Machine Queues Scheduler

variable {s s' : Scheduler} {L : Queues Nat} {t prio core : Nat} {state old : ThreadState}
  {refs : Nat → Prop} {chip : Chip} {affinity : Bool} {idle : List Nat} {sys sys' : System}

theorem addCurrentThreadToRq_error (backed : Backed chip affinity idle s L) (named : s.Named refs)
    {e : Fault} (failed : s.addCurrentThreadToRq (cpu chip affinity core) = .error e) :
    e = .indexOutOfBounds := by
  unfold addCurrentThreadToRq current currentTid at failed
  cases own : s.currentThreads core with
  | none =>
    simp only [cpu, own, Option.map_none] at failed
    cases failed
  | some c =>
    simp only [cpu, own, Option.map_some] at failed
    split at failed
    · have self : (s.threads c).tid = c := named.current core c own
      rw [self] at failed
      cases added : s.runqueue.add c (s.threads c).prio with
      | error e' =>
        rw [added] at failed
        cases failed
        exact ReadyQueue.add_error backed.represents backed.elsewhere added
      | ok r =>
        rw [added] at failed
        cases failed
    · cases failed

/-- After the current thread is put back, a core always finds a thread to run. -/
theorem getNextTid_finds (backed : Backed chip affinity idle s L) (named : s.Named refs)
    (bound : core < chip.cores) (busy : ¬ Dormant s)
    (added : s.addCurrentThreadToRq (cpu chip affinity core) = .ok s') :
    ∃ s₂ n, s'.getNextTid (cpu chip affinity core) = .ok (s₂, some n) := by
  obtain ⟨holds, only⟩ := addCurrentThreadToRq_multi named backed.represents
    (fun c p _ here => backed.elsewhere p here) added
  obtain ⟨i, isIdle, q, member⟩ := backed.idle_queued bound busy
  have config : (cpu chip affinity core).config = .multiCore chip affinity := rfl
  obtain ⟨⟨s₂, next⟩, found⟩ := getNextTid_total config holds
  cases next with
  | some n => exact ⟨s₂, n, found⟩
  | none =>
    obtain ⟨masked, excluded⟩ := getNextTid_none config holds found q i member
    have affinities : s'.affinityOf = s.affinityOf := by rw [only]; rfl
    rw [affinities, backed.anyCore masked isIdle] at excluded
    have small : chip.cores ≤ 8 := Nat.le_of_lt chip.fitMask
    exact absurd ((CoreAffinity.noAffinity_contains small bound).symm.trans excluded) (by simp)

theorem sched_finds (backed : Backed chip affinity idle s L) (named : s.Named refs)
    (bound : core < chip.cores) : s.sched (cpu chip affinity core) ≠ .error .unreachableCode := by
  unfold sched
  split
  · simp
  · rename_i active
    have busy : ¬ Dormant s := fun dormant => active (by simp [dormant.active])
    apply bind_ne_error
    · unfold schedOnce
      apply bind_ne_error
      · intro failed
        cases addCurrentThreadToRq_error backed named failed
      · intro s₁ added
        obtain ⟨s₂, n, found⟩ := getNextTid_finds backed named bound busy added
        simp only [found, ok_bind]
        split <;> simp
    · intro out _
      simp

theorem create_affinity {stackStart stackLen : Nat}
    (made : s.create (cpu chip true core) stackStart stackLen prio none = some (s', t)) :
    s'.affinityOf t = .noAffinity chip.cores := by
  unfold create at made
  obtain ⟨tid, -, rest⟩ := Option.bind_eq_some_iff.mp made
  cases rest
  rw [setThread_affinityOf, Function.update_self]
  rfl

/-- A new idle thread is one that was not there before. -/
theorem Backed.addIdle (backed : Backed chip affinity idle s' L) (fresh : t ∉ idle)
    (ready : s'.stateOf t = .running)
    (anyCore : affinity = true → s'.affinityOf t = .noAffinity chip.cores)
    (dormant : Dormant s') : Backed chip affinity (t :: idle) s' L where
  represents := backed.represents
  level := backed.level
  named := backed.named
  covered := backed.covered
  onCore := backed.onCore
  nodup := List.nodup_cons.mpr ⟨fresh, backed.nodup⟩
  ready := by
    intro u member
    rcases List.mem_cons.mp member with rfl | later
    · exact ready
    · exact backed.ready later
  anyCore := by
    intro masked u member
    rcases List.mem_cons.mp member with rfl | later
    · exact anyCore masked
    · exact backed.anyCore masked later
  started := Or.inr dormant

/-- The runs in which a priority change does not leave a thread in a queue of another priority. -/
abbrev MovesQueued (chip : Chip) (affinity : Bool) : Nat × Event → System → Prop :=
  System.Permitted (.multiCore chip affinity) (fun _ _ _ => True) fun _ => MovesAlong chip

theorem step_coherent {e : Nat × Event} (named : sys.scheduler.Named sys.heads)
    (inv : Coherent chip affinity sys.idleThreads sys.scheduler)
    (permitted : MovesQueued chip affinity e sys)
    (done : System.step (.multiCore chip affinity) e sys = .ok sys') :
    sys'.scheduler.Named sys'.heads ∧
      Coherent chip affinity sys'.idleThreads sys'.scheduler := by
  obtain ⟨core, e⟩ := e
  obtain ⟨bound, may, ran⟩ := System.step_ok done
  have mayStop : e.blocking = true → ∀ t, sys.scheduler.currentThreads core = some t →
      t ∉ sys.idleThreads := by
    intro blocks t own
    have executes := may blocks
    unfold System.mayBlock at executes
    split at executes
    · rename_i u executing
      obtain rfl : t = u := Option.some.inj (own.symm.trans (executing_own executing))
      simpa using executes
    · cases executes
  have linkKeeps : ∀ {s : Scheduler} {i next}, Coherent chip affinity sys.idleThreads s →
      Coherent chip affinity sys.idleThreads (ThreadList.link s i next) := by
    intro s i next ⟨L, backed⟩
    refine ⟨L, backed.represents, backed.level, backed.named, backed.covered, backed.onCore,
      backed.nodup, backed.ready, backed.anyCore, ?_⟩
    exact backed.started.imp_right fun dormant => dormant.congr rfl rfl
  obtain ⟨named', L', backed'⟩ := (coherent_keeps bound sys.heads sys.idleThreads).event linkKeeps
    (fun _ => trivial) named inv permitted mayStop (fun full => full) ran
  rcases Event.run_idleThreads ran with same | ⟨stackStart, stackLen, s', t, unfinished, made, rfl⟩
  · exact ⟨named', same ▸ ⟨L', backed'⟩⟩
  · refine ⟨named', L', ?_⟩
    obtain ⟨s₁, old, slot, set⟩ := createRaw_ok made
    obtain ⟨-, free, -⟩ := create_ok slot
    obtain ⟨-, -, r, q, -, -, rfl⟩ := setState_running_ok set
    obtain ⟨L, backed⟩ := inv
    apply backed'.addIdle
    · intro member
      simp [backed.ready member] at free
    · rw [withState_stateOf, Function.update_self]
    · intro masked
      subst masked
      rw [withState_affinityOf]
      exact create_affinity slot
    · exact backed'.started.resolve_left unfinished

theorem reaches_coherent (reached : Reaches (System.step (.multiCore chip affinity))
      (MovesQueued chip affinity) (.new (.multiCore chip affinity)) sys) :
    sys.scheduler.Named sys.heads ∧ Coherent chip affinity sys.idleThreads sys.scheduler :=
  reached.invariant
    (fun sys => sys.scheduler.Named sys.heads ∧
      Coherent chip affinity sys.idleThreads sys.scheduler)
    ⟨System.named_new _, coherent_new _⟩
    fun _ _ _ inv permitted done => step_coherent inv.1 inv.2 permitted done

/-- The runqueue agrees with its bitcache and with the priorities of the threads, and the
    scheduler of a core always finds a thread. -/
structure QueuesAgree (chip : Chip) (affinity : Bool) (sys : System) : Prop where
  queues : ∃ L, sys.scheduler.runqueue.Represents L ∧
    (∀ q, sys.scheduler.runqueue.bitcache.getLsbD q = true ↔ L q ≠ []) ∧
    ∀ t q, t ∈ L q → sys.scheduler.prioOf t = q
  found : ∀ core s, core < chip.cores → sys.scheduler.requests.active core = true →
    sys.scheduler.addCurrentThreadToRq (cpu chip affinity core) = .ok s →
    ∃ s₁ n, s.getNextTid (cpu chip affinity core) = .ok (s₁, some n)
  reached : ∀ core, System.step (.multiCore chip affinity) (core, .op .sched) sys ≠
    .error .unreachableCode

theorem queues_agree_of_reaches (reached : Reaches (System.step (.multiCore chip affinity))
      (MovesQueued chip affinity) (.new (.multiCore chip affinity)) sys) :
    QueuesAgree chip affinity sys := by
  obtain ⟨named, L, backed⟩ := reaches_coherent reached
  refine ⟨⟨L, backed.represents, backed.represents.bits, fun t q => backed.level⟩, ?_, ?_⟩
  · intro core s bound active added
    refine getNextTid_finds backed named bound (fun dormant => ?_) added
    simp [dormant.active] at active
  · intro core
    simp only [System.step, Event.run, Op.starts]
    split
    · rename_i enabled
      have bound : core < chip.cores := enabled.1
      simp only [Bool.false_eq_true, false_and, ↓reduceIte]
      exact bind_ne_error (sched_finds backed named bound) fun _ _ => ok_ne_error _ _
    · simp

section Samples

def switching (core : Nat) (sys : System) : Bool :=
  sys.scheduler.requests.active core && sys.idleThreads.length == 2

/-- Thread 2 parks, its core switches, and the other core wakes it and lowers its priority. -/
theorem queues_agree_of_reaches_sample : ∃ sys, QueuesAgree (Rp.chip .rp2040) false sys ∧
    sys.scheduler.requests.active 0 = true ∧ sys.idleThreads.length = 2 := by
  have run : ∃ sys, Reaches (System.step rp2040) (MovesQueued (Rp.chip .rp2040) false)
      (.new rp2040) sys ∧ switching 0 sys = true :=
    reaches_of_check (bootEvents ++ [(0, .op .park)] ++ switch 0 ++ [(1, .op (.unpark 2)),
      (1, .op (.setPriority 2 3)), (0, .op .fifoToken), (0, .op .enterPendsv)])
      (by decide +kernel)
  obtain ⟨sys, reached, here⟩ := run
  exact ⟨sys, queues_agree_of_reaches reached, by simpa [switching] using here⟩

def stuck (core prio : Nat) (sys : System) : Bool :=
  sys.scheduler.runqueue.bitcache.getLsbD prio && sys.scheduler.runqueue.peekHead prio == .ok none &&
    match System.step rp2040 (core, .op .sched) sys with
    | .error .unreachableCode => true
    | _ => false

/-- Thread 2 parks on core 0; core 1 wakes it and lowers its priority before core 0 has switched.
    When thread 2 parks again, core 0 takes the stale bit of queue 3 and finds no thread. -/
theorem bit_without_thread : ∃ sys, Reachable (System.step rp2040) (.new rp2040) sys ∧
    sys.scheduler.runqueue.bitcache.getLsbD 3 = true ∧
    sys.scheduler.runqueue.peekHead 3 = .ok none ∧
    System.step rp2040 (0, .op .sched) sys = .error .unreachableCode := by
  have run : ∃ sys, Reachable (System.step rp2040) (.new rp2040) sys ∧ stuck 0 3 sys = true :=
    reaches_of_check (bootEvents ++ [(0, .op .park), (1, .op (.unpark 2)),
      (1, .op (.setPriority 2 3))] ++ switch 0 ++ [(0, .op .park), (0, .op .enterPendsv)])
      (by decide +kernel)
  obtain ⟨sys, reached, here⟩ := run
  simp only [stuck, Bool.and_eq_true, beq_iff_eq] at here
  obtain ⟨⟨bit, empty⟩, failed⟩ := here
  refine ⟨sys, reached, bit, empty, ?_⟩
  split at failed
  · assumption
  · cases failed

end Samples

end ArielOS.MultiCore
