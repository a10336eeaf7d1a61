import ArielOS.Threads.MultiCore

namespace ArielOS.MultiCore

open Machine Queues Scheduler

variable {s s' : Scheduler} {L : Queues Nat} {t prio core : Nat} {state old : ThreadState}
  {refs : Nat → Prop} {chip : Chip} {affinity : Bool} {idle : List Nat}

/-- Before the cores are started, nothing runs and nothing is requested. -/
structure Dormant (s : Scheduler) : Prop where
  current : ∀ c, s.currentThreads c = none
  pendsv : ∀ c, s.requests.pendsv c = false
  active : ∀ c, s.requests.active c = false
  tokens : ∀ c, s.requests.tokens c = 0

/-- Queued threads are queued under their priority, ready ones are queued or on a core, and every
    core has an idle thread that is always ready. -/
structure Backed (chip : Chip) (affinity : Bool) (idle : List Nat) (s : Scheduler) (L : Queues Nat) :
    Prop where
  represents : s.runqueue.Represents L
  level : ∀ {t q}, t ∈ L q → s.prioOf t = q
  named : ∀ {t q}, t ∈ L q → s.tidOf t = t
  covered : ∀ {t}, s.stateOf t = .running → (∃ q, t ∈ L q) ∨ ∃ c, s.currentThreads c = some t
  onCore : ∀ {c t}, s.currentThreads c = some t → c < chip.cores
  nodup : idle.Nodup
  ready : ∀ {t}, t ∈ idle → s.stateOf t = .running
  anyCore : affinity = true → ∀ {t}, t ∈ idle → s.affinityOf t = .noAffinity chip.cores
  started : idle.length = chip.cores ∨ Dormant s

/-- Whether the thread is linked into a list of the runqueue. -/
def queuedIn (s : Scheduler) (t : Nat) : Bool := s.runqueue.queues.next t != CList.sentinel

/-- The new priority of a thread does not leave it in a queue of another priority. -/
def MovesAlong (chip : Chip) (s : Scheduler) (t prio : Nat) : Prop :=
  queuedIn s t = true → s.prioOf t = prio ∨ (s.stateOf t = .running ∧ LeftCores chip s t)

instance : Decidable (MovesAlong chip s t prio) := inferInstanceAs (Decidable (_ → _))

theorem minByPrio_mem {xs : List (Nat × Option Nat)} {x : Nat × Option Nat}
    (least : minByPrio xs = some x) : x ∈ xs := by
  induction xs generalizing x with
  | nil => cases least
  | cons y xs ih =>
    unfold minByPrio at least
    split at least
    · cases least
      simp
    · rename_i z rest
      split at least
      · cases least
        simp
      · cases least
        exact List.mem_cons_of_mem _ (ih rest)

theorem lowestRunningPrio_eq {low : Nat × Option Nat}
    (found : s.lowestRunningPrio chip affinity t = .ok low) :
    low.1 < chip.cores ∧ low.2 = s.currentPrio low.1 := by
  unfold lowestRunningPrio at found
  dsimp only at found
  split at found
  · rename_i least chosen
    cases found
    obtain ⟨c, member, rfl⟩ := List.mem_map.mp (minByPrio_mem chosen)
    exact ⟨List.mem_range.mp (List.mem_filter.mp member).1, rfl⟩
  · cases found

/-- Nothing is scheduled before the first thread runs. -/
theorem scheduleIfHigherPrio_unstarted
    (done : s.scheduleIfHigherPrio (cpu chip affinity core) t prio = .ok s')
    (unstarted : ∀ c, s.currentThreads c = none) : s' = s := by
  unfold scheduleIfHigherPrio at done
  obtain ⟨⟨c, lowest⟩, found, rest⟩ := bind_ok_iff.mp done
  obtain ⟨-, value⟩ := lowestRunningPrio_eq found
  have absent : lowest = none := by simpa [currentPrio, unstarted] using value
  subst absent
  cases rest
  rfl

theorem Dormant.congr (dormant : Dormant s) (current : s'.currentThreads = s.currentThreads)
    (requests : s'.requests = s.requests) : Dormant s' where
  current := current ▸ dormant.current
  pendsv := requests ▸ dormant.pendsv
  active := requests ▸ dormant.active
  tokens := requests ▸ dormant.tokens

namespace Backed

theorem elsewhere (backed : Backed chip affinity idle s L) (p : Nat) (member : t ∈ L p) :
    p = s.prioOf t := (backed.level member).symm

theorem mem_iff (backed : Backed chip affinity idle s L) :
    queuedIn s t = true ↔ ∃ q, t ∈ L q := by
  rw [queuedIn, bne_iff_ne, ne_eq,
    backed.represents.queues.next_eq_sentinel ReadyQueue.small, not_forall]
  simp only [not_not]

theorem full (backed : Backed chip affinity idle s L) (busy : ¬ Dormant s) :
    idle.length = chip.cores := backed.started.resolve_right busy

theorem quiet (backed : Backed chip affinity idle s L) (h : Quiet s s') :
    Backed chip affinity idle s' L where
  represents := h.runqueue ▸ backed.represents
  level := by rw [h.prioOf]; exact backed.level
  named := by rw [h.tidOf]; exact backed.named
  covered := by rw [h.stateOf, h.currentThreads]; exact backed.covered
  onCore := by rw [h.currentThreads]; exact backed.onCore
  nodup := backed.nodup
  ready := by rw [h.stateOf]; exact backed.ready
  anyCore := by rw [h.affinityOf]; exact backed.anyCore
  started := backed.started.imp_right fun dormant => dormant.congr h.currentThreads h.requests

theorem requests (backed : Backed chip affinity idle s L) (busy : ¬ Dormant s) (q : Requests) :
    Backed chip affinity idle { s with requests := q } L :=
  ⟨backed.represents, backed.level, backed.named, backed.covered, backed.onCore, backed.nodup,
    backed.ready, backed.anyCore, Or.inl (backed.full busy)⟩

theorem woken (backed : Backed chip affinity idle s L) (self : s.tidOf t = t)
    {r : RunQueue usizeBits schedPrioLevels threadCount} {q : Requests}
    (holds : r.Represents (enqueue L t (s.prioOf t))) (same : Dormant s → q = s.requests) :
    Backed chip affinity idle (s.withState t .running r q) (enqueue L t (s.prioOf t)) where
  represents := holds
  level := by
    intro u p member
    rw [withState_prioOf]
    rcases mem_enqueue.mp member with here | ⟨rfl, rfl⟩
    · exact backed.level here
    · rfl
  named := by
    intro u p member
    rw [withState_tidOf]
    rcases mem_enqueue.mp member with here | ⟨rfl, rfl⟩
    · exact backed.named here
    · exact self
  covered := by
    intro u ready
    by_cases same : u = t
    · exact Or.inl ⟨_, mem_enqueue.mpr (Or.inr ⟨same, rfl⟩)⟩
    · rw [withState_stateOf, Function.update_of_ne same] at ready
      exact (backed.covered ready).imp_left fun ⟨p, here⟩ => ⟨p, mem_enqueue.mpr (Or.inl here)⟩
  onCore := backed.onCore
  nodup := backed.nodup
  ready := by
    intro u member
    rw [withState_stateOf]
    by_cases same : u = t
    · rw [same, Function.update_self]
    · rw [Function.update_of_ne same]
      exact backed.ready member
  anyCore := by rw [withState_affinityOf]; exact backed.anyCore
  started := backed.started.imp_right fun dormant => dormant.congr rfl (same dormant)

/-- A change of one thread that is neither queued under another priority nor an idle thread. -/
theorem changed (backed : Backed chip affinity idle s L) (thread : Thread)
    (level : ∀ q, t ∈ L q → thread.prio = q) (tid : (∃ q, t ∈ L q) → thread.tid = t)
    (idles : thread.state = .running → s.stateOf t = .running)
    (other : t ∈ idle → thread.state = .running ∧ thread.coreAffinity = s.affinityOf t)
    {q : Requests} (unchanged : q = s.requests ∨ ¬ Dormant s) :
    Backed chip affinity idle { s.setThread t thread with requests := q } L where
  represents := backed.represents
  level := by
    intro u p member
    change (s.setThread t thread).prioOf u = p
    rw [setThread_prioOf]
    by_cases same : u = t
    · subst same
      rw [Function.update_self]
      exact level p member
    · rw [Function.update_of_ne same]
      exact backed.level member
  named := by
    intro u p member
    change (s.setThread t thread).tidOf u = u
    rw [setThread_tidOf]
    by_cases same : u = t
    · subst same
      rw [Function.update_self]
      exact tid ⟨p, member⟩
    · rw [Function.update_of_ne same]
      exact backed.named member
  covered := by
    intro u ready
    change (s.setThread t thread).stateOf u = .running at ready
    rw [setThread_stateOf] at ready
    by_cases same : u = t
    · subst same
      rw [Function.update_self] at ready
      exact backed.covered (idles ready)
    · rw [Function.update_of_ne same] at ready
      exact backed.covered ready
  onCore := backed.onCore
  nodup := backed.nodup
  ready := by
    intro u member
    change (s.setThread t thread).stateOf u = .running
    rw [setThread_stateOf]
    by_cases same : u = t
    · subst same
      rw [Function.update_self]
      exact (other member).1
    · rw [Function.update_of_ne same]
      exact backed.ready member
  anyCore := by
    intro chosen u member
    change (s.setThread t thread).affinityOf u = _
    rw [setThread_affinityOf]
    by_cases same : u = t
    · subst same
      rw [Function.update_self, (other member).2]
      exact backed.anyCore chosen member
    · rw [Function.update_of_ne same]
      exact backed.anyCore chosen member
  started := by
    rcases unchanged with rfl | busy
    · exact backed.started.imp_right fun dormant => dormant.congr rfl rfl
    · exact Or.inl (backed.full busy)

theorem moved (backed : Backed chip affinity idle s L) (self : s.tidOf t = t)
    {r : RunQueue usizeBits schedPrioLevels threadCount} {q : Requests}
    (holds : r.Represents (enqueue (remove L t) t prio)) (same : Dormant s → q = s.requests) :
    Backed chip affinity idle (s.withPrio t prio r q) (enqueue (remove L t) t prio) where
  represents := holds
  level := by
    intro u p member
    rw [withPrio_prioOf]
    rw [mem_enqueue, mem_remove backed.represents.queues.separate] at member
    rcases member with ⟨here, other⟩ | ⟨rfl, rfl⟩
    · rw [Function.update_of_ne other]
      exact backed.level here
    · rw [Function.update_self]
  named := by
    intro u p member
    rw [withPrio_tidOf]
    rw [mem_enqueue, mem_remove backed.represents.queues.separate] at member
    rcases member with ⟨here, -⟩ | ⟨rfl, -⟩
    · exact backed.named here
    · exact self
  covered := by
    intro u ready
    rw [withPrio_stateOf] at ready
    by_cases same : u = t
    · exact Or.inl ⟨prio, mem_enqueue.mpr (Or.inr ⟨same, rfl⟩)⟩
    · refine (backed.covered ready).imp_left fun ⟨p, here⟩ => ⟨p, ?_⟩
      rw [mem_enqueue, mem_remove backed.represents.queues.separate]
      exact Or.inl ⟨here, same⟩
  onCore := backed.onCore
  nodup := backed.nodup
  ready := by rw [withPrio_stateOf]; exact backed.ready
  anyCore := by rw [withPrio_affinityOf]; exact backed.anyCore
  started := backed.started.imp_right fun dormant => dormant.congr rfl (same dormant)

theorem separate_readded (backed : Backed chip affinity idle s L) (core : Nat) :
    Separate (readded s core L) := by
  unfold readded
  split
  · split
    · exact backed.represents.queues.separate.enqueue fun p here => backed.elsewhere p here
    · exact backed.represents.queues.separate
  · exact backed.represents.queues.separate

theorem switched (backed : Backed chip affinity idle s L) (named : s.Named refs)
    (bound : core < chip.cores) (busy : ¬ Dormant s)
    {r : RunQueue usizeBits schedPrioLevels threadCount} {n : Nat}
    (holds : r.Represents (remove (readded s core L) n)) (q : Requests) :
    Backed chip affinity idle { s with
      runqueue := r
      currentThreads := Function.update s.currentThreads core (some n)
      requests := q } (remove (readded s core L) n) where
  represents := holds
  level := by
    intro u p member
    rcases mem_readded.mp ((mem_remove (backed.separate_readded core)).mp member).1 with
      here | ⟨-, -, level⟩
    · exact backed.level here
    · exact level
  named := by
    intro u p member
    rcases mem_readded.mp ((mem_remove (backed.separate_readded core)).mp member).1 with
      here | ⟨own, -⟩
    · exact backed.named here
    · exact named.current core u own
  covered := by
    intro u ready
    by_cases taken : u = n
    · exact Or.inr ⟨core, by simp [taken]⟩
    · have keep : ∀ p, u ∈ readded s core L p → u ∈ remove (readded s core L) n p := fun p here =>
        (mem_remove (backed.separate_readded core)).mpr ⟨here, taken⟩
      rcases backed.covered ready with ⟨p, here⟩ | ⟨c, own⟩
      · exact Or.inl ⟨p, keep p (mem_readded.mpr (Or.inl here))⟩
      · by_cases same : c = core
        · exact Or.inl ⟨_, keep _ (mem_readded.mpr (Or.inr ⟨same ▸ own, ready, rfl⟩))⟩
        · exact Or.inr ⟨c, by simpa [same] using own⟩
  onCore := by
    intro c u here
    dsimp only at here
    by_cases same : c = core
    · exact same ▸ bound
    · rw [Function.update_of_ne same] at here
      exact backed.onCore here
  nodup := backed.nodup
  ready := backed.ready
  anyCore := backed.anyCore
  started := Or.inl (backed.full busy)

/-- There is one idle thread for each core, so with one of the cores putting its thread back, one
    of them is queued. -/
theorem idle_queued (backed : Backed chip affinity idle s L) (bound : core < chip.cores)
    (busy : ¬ Dormant s) : ∃ t ∈ idle, ∃ q, t ∈ readded s core L q := by
  by_contra none
  have absent : ∀ t ∈ idle, ∀ q, t ∉ readded s core L q := by
    intro t member q here
    exact none ⟨t, member, q, here⟩
  have placed : idle.map some ⊆ ((List.range chip.cores).erase core).map s.currentThreads := by
    intro x member
    obtain ⟨t, isIdle, rfl⟩ := List.mem_map.mp member
    have ready := backed.ready isIdle
    rcases backed.covered ready with ⟨q, here⟩ | ⟨c, own⟩
    · exact absurd (mem_readded.mpr (Or.inl here)) (absent t isIdle q)
    · have other : c ≠ core := by
        intro same
        exact absent t isIdle _ (mem_readded.mpr (Or.inr ⟨same ▸ own, ready, rfl⟩))
      refine List.mem_map.mpr ⟨c, ?_, own⟩
      exact (List.mem_erase_of_ne other).mpr (List.mem_range.mpr (backed.onCore own))
  have distinct : (idle.map some).Nodup := backed.nodup.map fun _ _ same => Option.some.inj same
  have short := (List.subperm_of_subset distinct placed).length_le
  rw [List.length_map, List.length_map, List.length_erase_of_mem (List.mem_range.mpr bound),
    List.length_range, backed.full busy] at short
  omega

end Backed

/-- The runqueue is coherent, and the idle threads are in place. -/
def Coherent (chip : Chip) (affinity : Bool) (idle : List Nat) (s : Scheduler) : Prop :=
  ∃ L, Backed chip affinity idle s L

theorem coherent_new (config : Config) : Coherent chip affinity [] (.new config) := by
  refine ⟨fun _ => [], RunQueue.new_represents, ?_, ?_, ?_, ?_, List.nodup_nil, ?_, ?_, Or.inr ?_⟩
  · intro t q member
    cases member
  · intro t q member
    cases member
  · intro t ready
    cases ready
  · intro c t own
    cases own
  · intro t member
    cases member
  · intro _ t member
    cases member
  · exact ⟨fun _ => rfl, fun _ => rfl, fun _ => rfl, fun _ => rfl⟩

theorem not_dormant {c : Nat} (own : s.currentThreads c = some t) : ¬ Dormant s := by
  intro dormant
  rw [dormant.current c] at own
  cases own

theorem coherent_ready (inv : Coherent chip affinity idle s) (self : s.tidOf t = t)
    (done : s.setState (cpu chip affinity core) t .running = .ok (s', old)) :
    Coherent chip affinity idle s' := by
  obtain ⟨L, backed⟩ := inv
  obtain ⟨-, -, r, q, added, raised, rfl⟩ := setState_running_ok done
  obtain ⟨-, -, holds⟩ := ReadyQueue.add_ok backed.represents backed.elsewhere added
  refine ⟨_, backed.woken self holds fun dormant => ?_⟩
  exact congrArg Scheduler.requests (scheduleIfHigherPrio_unstarted raised dormant.current)

theorem coherent_stop (inv : Coherent chip affinity idle s) (own : s.currentThreads core = some t)
    (may : t ∉ idle) (stops : state ≠ .running)
    (done : s.setState (cpu chip affinity core) t state = .ok (s', old)) :
    Coherent chip affinity idle s' := by
  obtain ⟨L, backed⟩ := inv
  have stopped : ∀ q : Requests,
      Backed chip affinity idle (s.withState t state s.runqueue q) L := fun q =>
    backed.changed { s.threads t with state } (fun _ member => backed.level member)
      (fun ⟨_, member⟩ => backed.named member) (fun running => absurd running stops)
      (fun member => absurd member may) (Or.inr (not_dormant own))
  by_cases ready : s.stateOf t = .running
  · obtain ⟨-, -, r, -, same, rfl⟩ := setState_block_ok stops ready done
    obtain rfl : r = s.runqueue := same fun single => Config.noConfusion single
    exact ⟨L, stopped _⟩
  · obtain ⟨-, rfl⟩ := setState_idle_ok stops ready done
    exact ⟨L, stopped _⟩

theorem coherent_create {stackStart stackLen : Nat} {mask : Option CoreAffinity}
    (inv : Coherent chip affinity idle s) (moves : MovesAlong chip s t prio)
    (made : s.create (cpu chip affinity core) stackStart stackLen prio mask = some (s', t)) :
    Coherent chip affinity idle s' := by
  obtain ⟨L, backed⟩ := inv
  obtain ⟨-, free, thread, rfl, state, priority, tid, -⟩ := create_ok made
  refine ⟨L, backed.changed thread ?_ (fun _ => tid) ?_ ?_ (Or.inl rfl)⟩
  · intro q member
    rcases moves (backed.mem_iff.mpr ⟨q, member⟩) with same | ⟨ready, -⟩
    · rw [priority, ← same]
      exact backed.level member
    · simp [free] at ready
  · simp [state]
  · intro member
    have ready := backed.ready member
    simp [free] at ready

theorem coherent_setPriority (inv : Coherent chip affinity idle s) (named : s.Named refs)
    (moves : s.isValidTid t = true → MovesAlong chip s t prio)
    (done : s.setPriority (cpu chip affinity core) t prio = .ok s') :
    Coherent chip affinity idle s' := by
  obtain ⟨L, backed⟩ := inv
  rcases setPriority_ok done with ⟨rfl, -⟩ | ⟨bound, known, changed, outcome⟩
  · exact ⟨L, backed⟩
  have moves := moves (isValidTid_iff.mpr ⟨bound, known⟩)
  -- A thread that is not moved keeps its queue only by the condition on its priority.
  have inPlace : ¬ (s.stateOf t = .running ∧ LeftCores chip s t) → ∀ q : Requests,
      (q = s.requests ∨ ¬ Dormant s) →
      Coherent chip affinity idle (s.withPrio t prio s.runqueue q) := by
    intro stays q unchanged
    refine ⟨L, backed.changed { s.threads t with prio } ?_ ?_ (fun ready => ready) ?_ unchanged⟩
    · intro p member
      rcases moves (backed.mem_iff.mpr ⟨p, member⟩) with same | left
      · exact absurd same changed
      · exact absurd left stays
    · exact fun ⟨_, member⟩ => backed.named member
    · exact fun member => ⟨backed.ready member, rfl⟩
  rcases outcome with ⟨stopped, rfl⟩ | ⟨-, _, _, c, -, running, rfl⟩ | ⟨ready, r, moved, outcome⟩
  · exact inPlace (fun left => stopped left.1) _ (Or.inl rfl)
  · have own := isRunning_some running
    refine inPlace (fun left => ?_) _ (Or.inr (not_dormant own))
    exact left.2 c (backed.onCore own) own
  · have holds := ReadyQueue.requeue_ok backed.represents moved
    have self : s.tidOf t = t := named.created t known
    rcases outcome with ⟨single, -⟩ | ⟨-, -, scheduled⟩ | ⟨-, -, rfl⟩
    · cases single
    · obtain ⟨q, rfl⟩ := scheduleIfHigherPrio_ok scheduled
      refine ⟨_, backed.moved self holds fun dormant => ?_⟩
      exact congrArg Scheduler.requests (scheduleIfHigherPrio_unstarted scheduled dormant.current)
    · exact ⟨_, backed.moved self holds fun _ => rfl⟩

theorem coherent_requests (inv : Coherent chip affinity idle s) (busy : ¬ Dormant s)
    (q : Requests) : Coherent chip affinity idle { s with requests := q } := by
  obtain ⟨L, backed⟩ := inv
  exact ⟨L, backed.requests busy q⟩

theorem coherent_sched (bound : core < chip.cores) (inv : Coherent chip affinity idle s)
    (named : s.Named refs) (done : s.sched (cpu chip affinity core) = .ok s') :
    Coherent chip affinity idle s' ∧ s'.Named refs := by
  obtain ⟨L, backed⟩ := inv
  obtain ⟨active, r, n, holds, ⟨p, member⟩, -, rfl⟩ :=
    sched_takes named backed.represents (fun c p _ here => backed.elsewhere p here) done
  have busy : ¬ Dormant s := fun dormant => by simp [dormant.active core] at active
  have self : s.tidOf n = n := by
    rcases mem_readded.mp member with here | ⟨own, -⟩
    · exact backed.named here
    · exact named.current core n own
  exact ⟨⟨_, backed.switched named bound busy holds _⟩,
    (named.setCurrentThread self).congr rfl rfl rfl⟩

/-- Coherence is kept as long as the priority of a queued thread is only changed by moving it. -/
theorem coherent_keeps (bound : core < chip.cores) (refs : Nat → Prop) (idle : List Nat) :
    Keeps (cpu chip affinity core) refs (fun _ _ => True) (MovesAlong chip) (· ∉ idle)
      (idle.length = chip.cores) (Coherent chip affinity idle) where
  quiet := fun h ⟨L, backed⟩ => ⟨L, backed.quiet h⟩
  quietReady := fun _ _ => trivial
  ready := fun _ self _ inv done => coherent_ready inv self done
  stop := fun _ own may stops inv done => coherent_stop inv own may stops done
  create := fun _ moves inv made => coherent_create inv moves made
  setPriority := fun named moves inv done => coherent_setPriority inv named moves done
  yieldSame := fun _ inv done => by
    rcases yieldSame_multi done with rfl | ⟨⟨c, own⟩, q, rfl, -⟩
    · exact inv
    · exact coherent_requests inv (not_dormant own) q
  startThreading := fun _ full ⟨L, backed⟩ done => by
    obtain ⟨-, rfl⟩ := startThreading_ok done
    exact ⟨L, backed.represents, backed.level, backed.named, backed.covered, backed.onCore,
      backed.nodup, backed.ready, backed.anyCore, Or.inl full⟩
  handleFifoToken := fun _ inv done => by
    obtain ⟨sent, rfl⟩ := handleFifoToken_ok done
    exact coherent_requests inv (fun dormant => sent (dormant.tokens core)) _
  enterPendsv := fun _ inv done => by
    obtain ⟨pending, -, rfl⟩ := enterPendsv_ok done
    refine coherent_requests inv (fun dormant => ?_) _
    simp [dormant.pendsv] at pending
  sched := fun named inv done => coherent_sched bound inv named done

end ArielOS.MultiCore
