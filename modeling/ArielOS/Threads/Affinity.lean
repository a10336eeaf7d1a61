import ArielOS.Threads.QueuedThreads
import ArielOS.Threads.SlotReuse

namespace ArielOS.MultiCore

open Machine Queues Scheduler

variable {s s' : Scheduler} {L : Queues Nat} {t n core : Nat} {chip : Chip}

/-- The runqueue holds threads at their priorities. The thread that the core runs is none of them, and
    could be added if it is ready. -/
structure Consistent (s : Scheduler) (core : Nat) (L : Queues Nat) : Prop where
  represents : s.runqueue.Represents L
  level : ∀ {t q}, t ∈ L q → s.prioOf t = q
  unqueued : ∀ {t q}, s.currentThreads core = some t → t ∉ L q
  named : ∀ {t}, s.currentThreads core = some t → s.tidOf t = t
  fits : ∀ {t}, s.currentThreads core = some t → s.stateOf t = .running →
    t < threadCount ∧ s.prioOf t < schedPrioLevels

/-- The thread is ready, not run by another core, and its mask contains the core. -/
def Candidate (s : Scheduler) (core : Nat) (L : Queues Nat) (t : Nat) : Prop :=
  (s.currentThreads core = some t ∧ s.stateOf t = .running ∨ ∃ q, t ∈ L q) ∧
    (s.affinityOf t).contains core = true

/-- The queues with the thread that the core ran at the end of the queue of its priority. -/
def putBack (s : Scheduler) (core : Nat) (L : Queues Nat) (q : Nat) : List Nat :=
  L q ++ (s.currentThreads core).toList.filter fun t => s.stateOf t = .running ∧ s.prioOf t = q

/-- The first one of the candidates with the highest priority. -/
structure Chosen (s : Scheduler) (core : Nat) (L : Queues Nat) (n : Nat) : Prop where
  candidate : Candidate s core L n
  highest : ∀ t, Candidate s core L t → s.prioOf t ≤ s.prioOf n
  first : ∃ front back, putBack s core L (s.prioOf n) = front ++ n :: back ∧
    ∀ t ∈ front, (s.affinityOf t).contains core = false

/-- The core switches to the thread, which is taken out of the queues and leaves the others. -/
structure Switched (s : Scheduler) (core : Nat) (L : Queues Nat) (n : Nat) (s' : Scheduler) : Prop where
  queued : s'.runqueue.Represents fun q => (putBack s core L q).erase n
  rest : s' = { s with
    runqueue := s'.runqueue
    currentThreads := Function.update s.currentThreads core (some n)
    requests := s.requests.leave core }

section Sched

theorem Consistent.readded_eq (consistent : Consistent s core L) :
    readded s core L = putBack s core L := by
  funext q
  unfold readded putBack
  cases own : s.currentThreads core with
  | none => simp
  | some t =>
    by_cases ready : s.stateOf t = .running
    · have absent : t ∉ L (s.prioOf t) := consistent.unqueued own
      by_cases level : q = s.prioOf t
      · simp [ready, enqueue, absent, level]
      · simp [ready, enqueue, absent, level, Ne.symm level]
    · simp [ready]

theorem mem_putBack {q : Nat} : t ∈ putBack s core L q ↔
    t ∈ L q ∨ (s.currentThreads core = some t ∧ s.stateOf t = .running ∧ s.prioOf t = q) := by
  simp [putBack]

theorem Consistent.prioOf_putBack (consistent : Consistent s core L) {q : Nat}
    (member : t ∈ putBack s core L q) : s.prioOf t = q := by
  rcases mem_putBack.mp member with queued | ⟨-, -, level⟩
  · exact consistent.level queued
  · exact level

theorem candidate_iff (consistent : Consistent s core L) : Candidate s core L t ↔
    t ∈ putBack s core L (s.prioOf t) ∧ (s.affinityOf t).contains core = true := by
  apply and_congr_left
  intro _
  rw [mem_putBack]
  apply Iff.intro
  · intro here
    rcases here with ⟨own, ready⟩ | ⟨q, queued⟩
    · exact Or.inr ⟨own, ready, rfl⟩
    · rw [consistent.level queued]
      exact Or.inl queued
  · intro here
    rcases here with queued | ⟨own, ready, -⟩
    · exact Or.inr ⟨_, queued⟩
    · exact Or.inl ⟨own, ready⟩

/-- The search for a thread finds the one to choose, if there is any. -/
theorem find_chosen (chip : Chip) (consistent : Consistent s core L) {bound : Nat}
    (bounded : ∀ q, putBack s core L q ≠ [] → q < bound) :
    (order (putBack s core L) bound).find? (s.isAffineToCurrCore (cpu chip true core)) = some n ↔
      Chosen s core L n := by
  have affine : ∀ t, s.isAffineToCurrCore (cpu chip true core) t = (s.affinityOf t).contains core :=
    fun _ => rfl
  rw [find?_order]
  apply Iff.intro
  · intro ⟨q, _, found, above⟩
    obtain ⟨contains, front, back, split, excluded⟩ := List.find?_eq_some_iff_append.mp found
    have member : n ∈ putBack s core L q := by simp [split]
    have level := consistent.prioOf_putBack member
    refine ⟨(candidate_iff consistent).mpr ⟨level ▸ member, contains⟩, fun t candidate => ?_, front, back,
      level ▸ split, fun t before => ?_⟩
    · obtain ⟨queued, allowed⟩ := (candidate_iff consistent).mp candidate
      by_contra higher
      have filled := bounded _ (List.ne_nil_of_mem queued)
      have none := above (s.prioOf t) (by omega) filled t queued
      rw [affine, allowed] at none
      cases none
    · have none := excluded t before
      rw [affine] at none
      simpa using none
  · intro chosen
    obtain ⟨front, back, split, excluded⟩ := chosen.first
    have member : n ∈ putBack s core L (s.prioOf n) := by simp [split]
    refine ⟨s.prioOf n, bounded _ (List.ne_nil_of_mem member), ?_, fun r higher _ t queued => ?_⟩
    · refine List.find?_eq_some_iff_append.mpr ⟨chosen.candidate.2, front, back, split, fun t before => ?_⟩
      rw [affine, excluded t before]
      rfl
    · by_contra allowed
      have level := consistent.prioOf_putBack queued
      have candidate : Candidate s core L t :=
        (candidate_iff consistent).mpr ⟨level.symm ▸ queued, by simpa [affine] using allowed⟩
      have most := chosen.highest t candidate
      omega

theorem addCurrentThreadToRq_total (chip : Chip) (affinity : Bool) (consistent : Consistent s core L) :
    ∃ r, s.addCurrentThreadToRq (cpu chip affinity core) = .ok { s with runqueue := r } ∧
      r.Represents (putBack s core L) := by
  rw [← consistent.readded_eq]
  unfold addCurrentThreadToRq readded current currentTid
  cases own : s.currentThreads core with
  | none => exact ⟨s.runqueue, by simp [cpu, own], consistent.represents⟩
  | some t =>
    by_cases ready : s.stateOf t = .running
    · obtain ⟨thread, queue⟩ := consistent.fits own ready
      obtain ⟨r, added, holds⟩ := RunQueue.add_spec consistent.represents ReadyQueue.small
        (by decide) thread queue fun p queued => absurd queued (consistent.unqueued own)
      have self : (s.threads t).tid = t := consistent.named own
      have running : (s.threads t).state = .running := ready
      refine ⟨r, ?_, ?_⟩
      · simp only [cpu, own, Option.map_some, running, ↓reduceIte, self]
        rw [show (s.threads t).prio = s.prioOf t from rfl, added]
        rfl
      · simpa [ready] using holds
    · have idle : ¬ (s.threads t).state = .running := ready
      exact ⟨s.runqueue, by simp [cpu, own, idle], by simpa [ready] using consistent.represents⟩

/-- What `sched` does with the thread that `get_next_tid` gives. -/
theorem sched_of_next {s₁ : Scheduler} {next : Option Nat} (active : s.requests.active core = true)
    {r : RunQueue usizeBits schedPrioLevels threadCount}
    (added : s.addCurrentThreadToRq (cpu chip true core) = .ok { s with runqueue := r })
    (read : Scheduler.getNextTid (cpu chip true core) { s with runqueue := r } = .ok (s₁, next))
    (same : s₁ = { s with runqueue := s₁.runqueue }) :
    s.sched (cpu chip true core) = match next with
      | none => .error .unreachableCode
      | some n => .ok { s₁ with
          currentThreads := Function.update s.currentThreads core (some n)
          requests := s.requests.leave core } := by
  have once : s.schedOnce (cpu chip true core) = match next with
      | none => .error .unreachableCode
      | some n => .ok ({ s₁ with
          currentThreads := Function.update s.currentThreads core (some n) }, true) := by
    have config : (cpu chip true core).config = .multiCore chip true := rfl
    have current : s₁.currentThreads = s.currentThreads := by rw [same]
    unfold schedOnce
    simp only [config, added, read, ok_bind]
    cases next with
    | none => rfl
    | some n =>
      dsimp only
      split
      · rename_i own
        have own : s₁.currentThreads core = some n := own
        rw [← current, ← own, Function.update_eq_self]
        rfl
      · rw [← current]
        rfl
  have here : s.requests.active (cpu chip true core).coreId = true := active
  unfold sched
  rw [once, if_neg (by simp [here])]
  cases next with
  | none => rfl
  | some n =>
    have requests : s₁.requests = s.requests := by rw [same]
    simp [requests, cpu]

/-- With core affinities, `sched` switches to the first one of the candidates with the highest priority,
    and fails if there is none. -/
theorem sched_affine (consistent : Consistent s core L) (active : s.requests.active core = true) :
    ((∃ t, Candidate s core L t) → ∃ n s', s.sched (cpu chip true core) = .ok s' ∧
      Chosen s core L n ∧ Switched s core L n s') ∧
    ((¬ ∃ t, Candidate s core L t) → s.sched (cpu chip true core) = .error .unreachableCode) := by
  obtain ⟨r, added, holds⟩ := addCurrentThreadToRq_total chip true consistent
  have bounded : ∀ q, putBack s core L q ≠ [] → q < usizeBits := fun q filled => holds.bit_lt filled
  have affine : Scheduler.isAffineToCurrCore (cpu chip true core) { s with runqueue := r } =
      s.isAffineToCurrCore (cpu chip true core) := rfl
  have searched := RunQueue.getNextFilter_spec holds ReadyQueue.small (by decide)
    (s.isAffineToCurrCore (cpu chip true core))
  have config : (cpu chip true core).config = .multiCore chip true := rfl
  cases found : (order (putBack s core L) usizeBits).find? (s.isAffineToCurrCore (cpu chip true core)) with
  | none =>
    rw [found] at searched
    have read : Scheduler.getNextTid (cpu chip true core) { s with runqueue := r } =
        .ok ({ s with runqueue := r }, none) := by
      simp only [getNextTid, config, affine, searched, ok_bind]
      rfl
    refine ⟨fun ⟨t, candidate⟩ => ?_, fun _ => sched_of_next active added read rfl⟩
    obtain ⟨queued, allowed⟩ := (candidate_iff consistent).mp candidate
    have filled := bounded _ (List.ne_nil_of_mem queued)
    exact absurd allowed (List.find?_eq_none.mp found t (mem_order.mpr ⟨_, filled, queued⟩))
  | some n =>
    rw [found] at searched
    have chosen := (find_chosen chip consistent bounded).mp found
    obtain ⟨queued, -⟩ := (candidate_iff consistent).mp chosen.candidate
    obtain ⟨r', deleted, left⟩ := RunQueue.del_spec holds ReadyQueue.small (holds.queues.thread_lt queued)
    have read : Scheduler.getNextTid (cpu chip true core) { s with runqueue := r } =
        .ok ({ s with runqueue := r' }, some n) := by
      simp only [getNextTid, config, affine, searched, ok_bind, deleted]
      rfl
    exact ⟨fun _ => ⟨n, _, sched_of_next active added read rfl, chosen, left, rfl⟩,
      fun none => absurd ⟨n, chosen.candidate⟩ none⟩

/-- Where each ready thread is in the runqueue or on one core, the state is consistent for every core. -/
theorem Apart.consistent {refs : Nat → Prop} (apart : Apart chip s L) (named : s.Named refs)
    (fits : ∀ t, s.currentThreads core = some t → t < threadCount ∧ s.prioOf t < schedPrioLevels) :
    Consistent s core L where
  represents := apart.represents
  level := fun queued => (apart.elsewhere _ queued).symm
  unqueued := fun own queued => apart.offCore queued core own
  named := fun own => named.current core _ own
  fits := fun own _ => fits _ own

end Sched

section Runs

/-- No thread is current on a core that is not in its mask. -/
def InMasks (chip : Chip) (s : Scheduler) : Prop :=
  ∀ c < chip.cores, ∀ t, s.currentThreads c = some t → (s.affinityOf t).contains c = true

theorem find_satisfies {usizeBits nQueues nThreads fuel : Nat} {queues : CList nQueues nThreads}
    {predicate : Nat → Bool} {it : RunQueue.Iter usizeBits}
    (found : it.find queues predicate fuel = .ok (some n)) : predicate n = true := by
  induction fuel generalizing it with
  | zero => cases found
  | succ fuel ih =>
    obtain ⟨⟨it', next⟩, -, rest⟩ := bind_ok_iff.mp found
    cases next with
    | none => cases rest
    | some m =>
      dsimp only at rest
      split at rest
      · rename_i satisfied
        cases rest
        exact satisfied
      · exact ih rest

/-- Whatever the runqueue looks like, a thread that is found satisfies the predicate. -/
theorem getNextFilter_satisfies {usizeBits nQueues nThreads : Nat}
    {r : RunQueue usizeBits nQueues nThreads} {predicate : Nat → Bool}
    (found : r.getNextFilter predicate = .ok (some n)) : predicate n = true := by
  obtain ⟨first, -, rest⟩ := bind_ok_iff.mp found
  cases first with
  | none => cases rest
  | some first =>
    dsimp only at rest
    split at rest
    · rename_i satisfied
      cases rest
      exact satisfied
    · obtain ⟨it, -, rest⟩ := bind_ok_iff.mp rest
      exact find_satisfies rest

theorem sched_masks (done : s.sched (cpu chip true core) = .ok s') :
    ∃ n, s'.currentThreads = Function.update s.currentThreads core (some n) ∧
      (s.affinityOf n).contains core = true ∧ s'.affinityOf = s.affinityOf := by
  obtain ⟨-, s₁, passed, once, rfl⟩ := sched_ok done
  obtain ⟨rfl, s₂, s₃, n, added, taken, rfl⟩ := schedOnce_multi rfl once
  have same : s₂.currentThreads = s.currentThreads ∧ s₂.affinityOf = s.affinityOf := by
    rcases addCurrentThreadToRq_ok added with ⟨rfl, -⟩ | ⟨t, r, -, -, -, rfl⟩
    · exact ⟨rfl, rfl⟩
    · exact ⟨rfl, rfl⟩
  have config : (cpu chip true core).config = .multiCore chip true := rfl
  unfold getNextTid at taken
  simp only [config] at taken
  obtain ⟨found, filtered, rest⟩ := bind_ok_iff.mp taken
  cases found with
  | none => cases rest
  | some m =>
    obtain ⟨r, -, rest⟩ := bind_ok_iff.mp rest
    cases rest
    have satisfied := getNextFilter_satisfies filtered
    have contains : (s₂.affinityOf n).contains core = true := satisfied
    rw [same.2] at contains
    refine ⟨n, ?_, contains, same.2⟩
    rw [if_pos rfl]
    dsimp only
    rw [same.1]
    rfl

theorem InMasks.congr (masks : InMasks chip s) (current : s'.currentThreads = s.currentThreads)
    (affinities : s'.affinityOf = s.affinityOf) : InMasks chip s' := by
  intro c bound t own
  rw [affinities]
  rw [current] at own
  exact masks c bound t own

theorem sched_inMasks (masks : InMasks chip s) (done : s.sched (cpu chip true core) = .ok s') :
    InMasks chip s' := by
  obtain ⟨n, current, contains, affinities⟩ := sched_masks done
  intro c bound t own
  rw [affinities]
  rw [current] at own
  by_cases same : c = core
  · rw [same, Function.update_self] at own
    cases own
    rw [same]
    exact contains
  · rw [Function.update_of_ne same] at own
    exact masks c bound t own

/-- What creates no thread keeps the threads within their masks. -/
theorem inMasks_keeps (chip : Chip) (core : Nat) (refs : Nat → Prop) :
    Keeps (cpu chip true core) refs (fun _ _ => True) (fun s t _ => s.stateOf t ≠ .invalid)
      (fun _ => True) True (fun s => s.QueueNamed ∧ InMasks chip s) where
  quiet := fun h inv =>
    ⟨(queueNamed_keeps (cpu chip true core) refs).quiet h inv.1, inv.2.congr h.currentThreads h.affinityOf⟩
  quietReady := fun _ _ => trivial
  ready := fun named self ready inv done => by
    refine ⟨(queueNamed_keeps _ refs).ready named self ready inv.1 done, ?_⟩
    obtain ⟨-, r, q, rfl⟩ := setState_eq done
    exact inv.2.congr rfl (withState_affinityOf ..)
  stop := fun named own may stops inv done => by
    refine ⟨(queueNamed_keeps _ refs).stop named own may stops inv.1 done, ?_⟩
    obtain ⟨-, r, q, rfl⟩ := setState_eq done
    exact inv.2.congr rfl (withState_affinityOf ..)
  create := fun _ known _ made => absurd (create_ok made).2.1 known
  setPriority := fun named _ inv done => by
    refine ⟨(queueNamed_keeps _ refs).setPriority named (fun _ => trivial) inv.1 done, ?_⟩
    rcases setPriority_eq done with ⟨rfl, -⟩ | ⟨r, q, rfl⟩
    · exact inv.2
    · exact inv.2.congr rfl (withPrio_affinityOf ..)
  yieldSame := fun named inv done => by
    refine ⟨(queueNamed_keeps _ refs).yieldSame named inv.1 done, ?_⟩
    obtain ⟨r, q, rfl⟩ := yieldSame_ok done
    exact inv.2.congr rfl rfl
  startThreading := fun named may inv done => by
    refine ⟨(queueNamed_keeps _ refs).startThreading named may inv.1 done, ?_⟩
    obtain ⟨-, rfl⟩ := startThreading_ok done
    exact inv.2.congr rfl rfl
  handleFifoToken := fun named inv done => by
    refine ⟨(queueNamed_keeps _ refs).handleFifoToken named inv.1 done, ?_⟩
    obtain ⟨-, rfl⟩ := handleFifoToken_ok done
    exact inv.2.congr rfl rfl
  enterPendsv := fun named inv done => by
    refine ⟨(queueNamed_keeps _ refs).enterPendsv named inv.1 done, ?_⟩
    obtain ⟨-, -, rfl⟩ := enterPendsv_ok done
    exact inv.2.congr rfl rfl
  sched := fun named inv done => by
    obtain ⟨queue, named'⟩ := (queueNamed_keeps _ refs).sched named inv.1 done
    exact ⟨⟨queue, sched_inMasks inv.2 done⟩, named'⟩

/-- The mask that a new thread is given. Without one it may run on all cores. -/
def givenMask : Event → Option CoreAffinity
  | .op (.create _ _ _ affinity) => affinity
  | _ => none

/-- The mask contains the cores whose current thread still has the slot that the new thread gets. -/
def SlotFits (chip : Chip) (s : Scheduler) (affinity : Option CoreAffinity) : Prop :=
  ∀ mask, affinity = some mask → ∀ c < chip.cores, ∀ t, s.currentThreads c = some t →
    s.getUnused = some t → mask.contains c = true

def MaskFits (chip : Chip) (e : Nat × Event) (sys : System) : Prop :=
  SlotFits chip sys.scheduler (givenMask e.2)

instance (chip : Chip) (e : Nat × Event) (sys : System) : Decidable (MaskFits chip e sys) :=
  inferInstanceAs (Decidable (∀ mask, givenMask e.2 = some mask → ∀ c < chip.cores, ∀ t,
    sys.scheduler.currentThreads c = some t → sys.scheduler.getUnused = some t →
      mask.contains c = true))

theorem created_affinity {stackStart stackLen prio : Nat} {affinity : Option CoreAffinity}
    (made : s.createRaw (cpu chip true core) stackStart stackLen prio affinity = .ok (s', t)) :
    s.getUnused = some t ∧ s'.currentThreads = s.currentThreads ∧
      s'.affinityOf = Function.update s.affinityOf t (affinity.getD (.noAffinity chip.cores)) := by
  obtain ⟨s₁, old, created, set⟩ := createRaw_ok made
  obtain ⟨-, r, q, rfl⟩ := setState_eq set
  have unused := create_getUnused created
  refine ⟨unused, ?_⟩
  simp only [create, unused, cpu, Option.bind_eq_bind, Option.bind_some, Option.pure_def,
    Option.some.injEq, Prod.mk.injEq, and_true] at created
  subst created
  refine ⟨rfl, ?_⟩
  rw [withState_affinityOf, setThread_affinityOf]

/-- A new thread is within its mask exactly if no core outside of it still has its slot. -/
theorem created_inMasks {stackStart stackLen prio : Nat} {affinity : Option CoreAffinity}
    (masks : InMasks chip s)
    (made : s.createRaw (cpu chip true core) stackStart stackLen prio affinity = .ok (s', t)) :
    InMasks chip s' ↔ SlotFits chip s affinity := by
  obtain ⟨unused, current, affinities⟩ := created_affinity made
  apply Iff.intro
  · intro masks' mask given c bound u own free
    obtain rfl : t = u := Option.some.inj (unused.symm.trans free)
    have contains := masks' c bound t (current ▸ own)
    rw [affinities, Function.update_self, given] at contains
    exact contains
  · intro fits c bound u own
    rw [current] at own
    rw [affinities]
    by_cases same : u = t
    · rw [same, Function.update_self]
      cases given : affinity with
      | none => exact CoreAffinity.noAffinity_contains (Nat.le_of_lt chip.fitMask) bound
      | some mask => exact fits mask given c bound t (same ▸ own) unused
    · rw [Function.update_of_ne same]
      exact masks c bound u own

variable {sys sys' : System} {e : Nat × Event}

theorem event_permitted {cpu : Cpu} {e : Event} (other : e.creates = false) (sys : System) :
    e.Permitted cpu (fun _ _ => True) (fun s t _ => s.stateOf t ≠ .invalid) sys := by
  cases e with
  | op o =>
    cases o with
    | create => cases other
    | setPriority t prio =>
      intro valid
      simp only [isValidTid, Bool.and_eq_true, decide_eq_true_eq] at valid
      exact valid.2
    | sleepUntil deadline expired => exact fun s₁ _ => wakesPermitted_true expired s₁
    | _ => simp [Event.Permitted, Op.Permitted]
  | setupIdleThread => cases other
  | waitUntil _ deadline expired => exact fun s₁ _ => wakesPermitted_true expired s₁
  | waitUntilResume _ expired => exact fun t _ => ⟨fun _ _ => trivial, fun _ => wakesPermitted_true expired _⟩
  | _ => simp [Event.Permitted]

theorem step_queueNamed (named : sys.scheduler.Named sys.heads) (queue : sys.scheduler.QueueNamed)
    (done : System.step (.multiCore chip true) e sys = .ok sys') :
    sys'.scheduler.Named sys'.heads ∧ sys'.scheduler.QueueNamed := by
  obtain ⟨-, -, ran⟩ := System.step_ok done
  exact (queueNamed_keeps ⟨.multiCore chip true, e.1⟩ sys.heads).event
    (fun queue => queue.keep rfl rfl) (fun _ => trivial) named queue (e.2.permitted_true sys)
    (fun _ _ _ => trivial) (fun _ => trivial) ran

/-- A step leaves all threads within their masks exactly if the mask of a new thread fits. -/
theorem step_inMasks (named : sys.scheduler.Named sys.heads) (queue : sys.scheduler.QueueNamed)
    (masks : InMasks chip sys.scheduler)
    (done : System.step (.multiCore chip true) e sys = .ok sys') :
    InMasks chip sys'.scheduler ↔ MaskFits chip e sys := by
  obtain ⟨core, e⟩ := e
  obtain ⟨-, -, ran⟩ := System.step_ok done
  have kept : e.creates = false → InMasks chip sys'.scheduler := fun other =>
    ((inMasks_keeps chip core sys.heads).event (fun inv => ⟨inv.1.keep rfl rfl, inv.2.congr rfl rfl⟩)
      (fun _ => trivial) named ⟨queue, masks⟩ (event_permitted other sys) (fun _ _ _ => trivial)
      (fun _ => trivial) ran).2.2
  cases e with
  | op o =>
    cases o with
    | create stackStart stackLen prio affinity =>
      simp only [Event.run, Op.starts, Bool.false_eq_true, false_and, ↓reduceIte] at ran
      obtain ⟨s', created, rest⟩ := bind_ok_iff.mp ran
      cases rest
      obtain ⟨⟨s₁, t⟩, made, rest⟩ := bind_ok_iff.mp created
      cases rest
      exact created_inMasks masks made
    | _ => exact iff_of_true (kept rfl) fun _ given => by cases given
  | setupIdleThread stackStart stackLen =>
    simp only [Event.run] at ran
    split at ran
    · cases ran
    · obtain ⟨⟨s₁, t⟩, made, rest⟩ := bind_ok_iff.mp ran
      cases rest
      exact created_inMasks masks made
  | _ => exact iff_of_true (kept rfl) fun _ given => by cases given

/-- In a run whose new threads get masks that fit, no thread is ever current on a core outside of its
    mask, and otherwise one is. In every consistent state `sched` switches to the first one of the
    candidates with the highest priority, and fails only if there is none. -/
theorem affinity_respected
    (reached : Reaches (System.step (.multiCore chip true)) (MaskFits chip) (.new (.multiCore chip true)) sys) :
    InMasks chip sys.scheduler ∧
      (∀ e sys', System.step (.multiCore chip true) e sys = .ok sys' →
        (InMasks chip sys'.scheduler ↔ MaskFits chip e sys)) ∧
      ∀ (s : Scheduler) (core : Nat) (L : Queues Nat), Consistent s core L →
        s.requests.active core = true →
          ((∃ t, Candidate s core L t) → ∃ n s', s.sched (cpu chip true core) = .ok s' ∧
            Chosen s core L n ∧ Switched s core L n s') ∧
          ((¬ ∃ t, Candidate s core L t) → s.sched (cpu chip true core) = .error .unreachableCode) := by
  have inv := reached.invariant (fun sys => (sys.scheduler.Named sys.heads ∧ sys.scheduler.QueueNamed) ∧
    InMasks chip sys.scheduler) ⟨⟨System.named_new _, queueNamed_new _⟩, fun c bound t own => by cases own⟩
    fun sys e sys' inv fits done => ⟨step_queueNamed inv.1.1 inv.1.2 done,
      (step_inMasks inv.1.1 inv.1.2 inv.2 done).mpr fits⟩
  obtain ⟨⟨named, queue⟩, masks⟩ := inv
  exact ⟨masks, fun e sys' done => step_inMasks named queue masks done,
    fun s core L consistent active => sched_affine consistent active⟩

end Runs

section Samples

def pinned : Config := .multiCore (Rp.chip .rp2040) true

/-- Core 1 is about to run `sched`, which takes thread 3, and no core runs that yet. -/
def takesPinned (sys : System) : Bool :=
  let s := sys.scheduler
  let taken :=
    match s.sched (cpu (Rp.chip .rp2040) true 1) with
    | .ok s' => s'.currentThreads 1 == some 3
    | .error _ => false
  taken && decide (s.requests.active 1 = true ∧ s.stateOf 3 = .running ∧
    LeftCores (Rp.chip .rp2040) s 3 ∧ (s.affinityOf 3).contains 1 = true ∧
    s.currentThreads 1 = some 0 ∧ s.prioOf 0 = 0)

/-- A thread of priority 7 that is pinned to core 1 is created on core 0, which runs one of priority 5. -/
theorem affinity_respected_sample : ∃ (sys : System) (L : Queues Nat) (s' : Scheduler),
    sys.scheduler.sched (cpu (Rp.chip .rp2040) true 1) = .ok s' ∧ Chosen sys.scheduler 1 L 3 ∧
      Switched sys.scheduler 1 L 3 s' ∧ InMasks (Rp.chip .rp2040) sys.scheduler := by
  have run : ∃ sys, Reaches (System.step pinned)
      (fun e sys => MaskFits (Rp.chip .rp2040) e sys ∧ WakesOffCores (Rp.chip .rp2040) true e sys)
      (.new pinned) sys ∧ takesPinned sys = true :=
    reaches_of_check (bootEvents ++ [(0, .op (.create 1536 512 7 (some (.one 1)))),
      (1, .op .fifoToken), (1, .op .enterPendsv)]) (by decide +kernel)
  obtain ⟨sys, reached, here⟩ := run
  obtain ⟨taken, here⟩ := Bool.and_eq_true_iff.mp here
  obtain ⟨active, ready, left, contains, idle, lowest⟩ := of_decide_eq_true here
  obtain ⟨named, L, apart⟩ := reaches_exclusive (reached.mono fun _ _ allowed => allowed.2)
  obtain ⟨masks, -, law⟩ := affinity_respected (reached.mono fun _ _ allowed => allowed.1)
  have consistent : Consistent sys.scheduler 1 L := by
    refine apart.consistent named fun t own => ?_
    rw [idle] at own
    cases own
    rw [lowest]
    decide
  have candidate : Candidate sys.scheduler 1 L 3 :=
    ⟨Or.inr ⟨_, apart.queued.mpr ⟨ready, rfl, apart.leftCores left⟩⟩, contains⟩
  obtain ⟨n, s', done, chosen, switched⟩ := (law _ 1 L consistent active).1 ⟨3, candidate⟩
  rw [done] at taken
  have own : n = 3 := by
    have current := congrArg (fun s : Scheduler => s.currentThreads 1) switched.rest
    simp only [Function.update_self] at current
    simpa [current] using taken
  rw [own] at chosen switched
  exact ⟨sys, L, s', done, chosen, switched, masks⟩

/-- Thread 2 exits on core 0, and before core 0 has switched, a thread that is pinned to core 1 gets its
    slot. -/
theorem pinned_elsewhere : ∃ sys, Reachable (System.step pinned) (.new pinned) sys ∧
    sys.scheduler.currentThreads 0 = some 2 ∧ sys.scheduler.affinityOf 2 = .one 1 ∧
      ¬ InMasks (Rp.chip .rp2040) sys.scheduler := by
  have run : ∃ sys, Reachable (System.step pinned) (.new pinned) sys ∧
      decide (sys.scheduler.currentThreads 0 = some 2 ∧ sys.scheduler.affinityOf 2 = .one 1) = true :=
    reaches_of_check (bootEvents ++ [(0, .op .exit), (1, .op (.create 1536 512 5 (some (.one 1))))])
      (by decide +kernel)
  obtain ⟨sys, reached, here⟩ := run
  obtain ⟨own, affinity⟩ := of_decide_eq_true here
  refine ⟨sys, reached, own, affinity, fun masks => ?_⟩
  have contains := masks 0 (by decide) 2 own
  rw [affinity] at contains
  cases contains

end Samples

end ArielOS.MultiCore
