import ArielOS.Threads.MultiCore

namespace ArielOS.MultiCore

open Machine Queues Scheduler

variable {s s' : Scheduler} {L : Queues Nat} {t prio core : Nat} {state old : ThreadState}
  {refs : Nat → Prop} {model : Rp.Model} {own c d z : Nat}

section Requests

variable {r : Requests}

def Asked (r : Requests) (c : Nat) : Prop :=
  r.pendsv c = true ∨ r.active c = true ∨ r.tokens c ≠ 0

instance : Decidable (Asked r c) := inferInstanceAs (Decidable (_ ∨ _))

theorem Asked.pend (asked : Asked r c) (k : Nat) : Asked (r.pend k) c := by
  unfold Asked Requests.pend
  by_cases same : c = k
  · simp [same]
  · simpa [same, Asked] using asked

theorem asked_pend (r : Requests) (k : Nat) : Asked (r.pend k) k := by
  simp [Asked, Requests.pend]

theorem Asked.sendToken (asked : Asked r c) (k : Nat) : Asked (r.sendToken k) c := by
  unfold Asked Requests.sendToken
  by_cases same : c = k
  · simp [same]
  · simpa [same, Asked] using asked

theorem Asked.scheduleOtherCore (asked : Asked r c) (own : Nat) :
    Asked (Rp.scheduleOtherCore model own r) c := by
  unfold Rp.scheduleOtherCore
  dsimp only
  split
  · exact asked.sendToken _
  · exact asked

/-- Either a token is sent, or the FIFO is full of them. -/
theorem asked_scheduleOtherCore (model : Rp.Model) (own : Nat) (r : Requests) :
    Asked (Rp.scheduleOtherCore model own r) (1 - own) := by
  unfold Rp.scheduleOtherCore
  dsimp only
  split
  · simp [Asked, Requests.sendToken]
  · rename_i full
    have positive : 0 < model.fifoDepth := by cases model <;> decide
    exact Or.inr (Or.inr (by omega))

theorem Asked.scheduleOnCore (asked : Asked r c) (own k : Nat) :
    Asked (Rp.scheduleOnCore model own k r) c := by
  unfold Rp.scheduleOnCore Rp.schedule
  split
  · split
    · exact asked.scheduleOtherCore own
    · exact asked.pend own
  · exact asked.scheduleOtherCore own

theorem asked_scheduleOnCore (model : Rp.Model) {k : Nat} (here : own < 2) (there : k < 2)
    (r : Requests) : Asked (Rp.scheduleOnCore model own k r) k := by
  unfold Rp.scheduleOnCore Rp.schedule
  split
  · rename_i same
    subst same
    split
    · rename_i pending
      exact (show Asked r k from Or.inl pending).scheduleOtherCore k
    · exact asked_pend r k
  · have other : k = 1 - own := by omega
    rw [other]
    exact asked_scheduleOtherCore model own r

/-- With PendSV pending on the own core, `schedule` asks the other one. -/
theorem asked_otherCore (model : Rp.Model) (pending : r.pendsv own = true) :
    Asked (Rp.scheduleOnCore model own own r) (1 - own) := by
  simp only [Rp.scheduleOnCore, Rp.schedule, pending, ↓reduceIte]
  exact asked_scheduleOtherCore model own r

/-- The core will run its scheduler: it is asked to, or it has not started yet. -/
def Outstanding (s : Scheduler) (c : Nat) : Prop :=
  Asked s.requests c ∨ s.currentThreads c = none

instance : Decidable (Outstanding s c) := inferInstanceAs (Decidable (_ ∨ _))

/-- The thread is ready and has a higher priority than the current thread of the core. -/
def exceeds (s : Scheduler) (c z : Nat) : Bool :=
  match s.currentThreads c with
  | some u => s.stateOf z = .running && z ≠ u && s.prioOf u < s.prioOf z
  | none => false

theorem exceeds_iff : exceeds s c z = true ↔ ∃ u, s.currentThreads c = some u ∧
    s.stateOf z = .running ∧ z ≠ u ∧ s.prioOf u < s.prioOf z := by
  unfold exceeds
  cases s.currentThreads c <;> simp [and_assoc]

/-- The core that `lowest_running_prio` selects without core affinity. -/
def lowestCore (s : Scheduler) : Nat := if prioLe (s.currentPrio 0) (s.currentPrio 1) then 0 else 1

theorem lowestRunningPrio_rp (t : Nat) : s.lowestRunningPrio (Rp.chip model) false t =
    .ok (lowestCore s, s.currentPrio (lowestCore s)) := by
  have cores : List.range (Rp.chip model).cores = [0, 1] := rfl
  simp only [lowestRunningPrio, cores, lowestCore]
  by_cases first : prioLe (s.currentPrio 0) (s.currentPrio 1) = true
  · simp [minByPrio, first]
  · simp [minByPrio, first]

theorem lowestCore_lt (s : Scheduler) : lowestCore s < 2 := by
  unfold lowestCore
  split <;> omega

/-- No core runs a thread of lower priority than the selected core does. -/
theorem lowestCore_le {u v : Nat} (bound : d < 2) (here : s.currentThreads (lowestCore s) = some u)
    (there : s.currentThreads d = some v) : s.prioOf u ≤ s.prioOf v := by
  have choice : d = 0 ∨ d = 1 := by omega
  unfold lowestCore at here
  by_cases first : prioLe (s.currentPrio 0) (s.currentPrio 1) = true
  · simp only [first, ↓reduceIte] at here
    rcases choice with rfl | rfl
    · obtain rfl : u = v := Option.some.inj (here.symm.trans there)
      exact Nat.le_refl _
    · simpa [currentPrio, here, there, prioLe, prioOf] using first
  · simp only [first, Bool.false_eq_true, ↓reduceIte] at here
    rcases choice with rfl | rfl
    · have above : s.prioOf u < s.prioOf v := by
        simpa [currentPrio, here, there, prioLe, prioOf] using first
      omega
    · obtain rfl : u = v := Option.some.inj (here.symm.trans there)
      exact Nat.le_refl _

/-- A core whose thread has a lower priority than that of the other core is selected. -/
theorem lowestCore_eq {u v : Nat} (bound : d < 2) (here : s.currentThreads d = some u)
    (there : s.currentThreads (1 - d) = some v) (lower : s.prioOf u < s.prioOf v) :
    lowestCore s = d := by
  have choice : d = 0 ∨ d = 1 := by omega
  by_contra other
  have same : lowestCore s = 1 - d := by
    have small := lowestCore_lt s
    omega
  rw [← same] at there
  have least := lowestCore_le bound there here
  omega

end Requests

/-- A request of this core for a thread of high enough priority goes to core `d`. -/
def asks (own : Nat) (s : Scheduler) (d : Nat) : Bool :=
  lowestCore s == d || (lowestCore s == own && own == 1 - d && s.requests.pendsv own &&
    (s.currentThreads own).isSome)

/-- What the scheduling requests do when a thread that no core runs comes to a priority. -/
theorem scheduleIfHigherPrio_rp (here : own < 2)
    (done : s.scheduleIfHigherPrio (cpu (Rp.chip model) false own) t prio = .ok s') :
    ∃ q, s' = { s with requests := q } ∧ (∀ c, Asked s.requests c → Asked q c) ∧
      ∀ d < 2, asks own s d = true → ∀ u, s.currentThreads d = some u → s.prioOf u < prio →
        Asked q d := by
  unfold scheduleIfHigherPrio at done
  obtain ⟨⟨k, lowest⟩, found, rest⟩ := bind_ok_iff.mp done
  rw [lowestRunningPrio_rp, Except.ok.injEq, Prod.mk.injEq] at found
  obtain ⟨rfl, rfl⟩ := found
  cases lowest : s.currentPrio (lowestCore s) with
  | none =>
    rw [lowest] at rest
    cases rest
    refine ⟨_, rfl, fun _ asked => asked, ?_⟩
    intro d bound asking u own' _
    have absent : s.currentThreads (lowestCore s) = none := by
      simpa [currentPrio] using lowest
    simp only [asks, Bool.or_eq_true, beq_iff_eq, Bool.and_eq_true] at asking
    rcases asking with same | ⟨⟨⟨same, -⟩, -⟩, running⟩
    · rw [same, own'] at absent
      cases absent
    · rw [← same, absent] at running
      cases running
  | some low =>
    rw [lowest] at rest
    obtain ⟨v, running, low_eq⟩ := Option.map_eq_some_iff.mp lowest
    have low_eq : s.prioOf v = low := low_eq
    dsimp only at rest
    by_cases higher : low < prio
    · rw [if_pos higher] at rest
      cases rest
      refine ⟨_, rfl, fun c asked => asked.scheduleOnCore own _, ?_⟩
      intro d bound asking u _ _
      simp only [asks, Bool.or_eq_true, beq_iff_eq, Bool.and_eq_true] at asking
      rcases asking with same | ⟨⟨⟨same, other⟩, pending⟩, -⟩
      · rw [same]
        exact asked_scheduleOnCore model here bound _
      · have back : d = 1 - own := by omega
        rw [same, back]
        exact asked_otherCore model pending
    · rw [if_neg higher] at rest
      cases rest
      refine ⟨_, rfl, fun _ asked => asked, ?_⟩
      intro d bound _ u own' below
      have least := lowestCore_le bound running own'
      omega

/-- Where no core will run its scheduler, no ready thread is left behind; where one core will,
    only the thread that it takes can exceed what the other core runs. -/
structure Conserves (s : Scheduler) : Prop where
  small : ∀ {t}, s.stateOf t = .running → t < threadCount
  running : ∀ {d u}, d < 2 → ¬ Outstanding s d → s.currentThreads d = some u → s.stateOf u = .running
  unique : ∀ {d z z'}, d < 2 → ¬ Outstanding s d → exceeds s d z = true → exceeds s d z' = true →
    z = z'
  calm : ∀ {d z}, d < 2 → (∀ c < 2, ¬ Outstanding s c) → exceeds s d z = true →
    ∃ c, s.currentThreads c = some z

theorem Outstanding.congr (outstanding : Outstanding s c)
    (current : s'.currentThreads = s.currentThreads)
    (asked : Asked s.requests c → Asked s'.requests c) : Outstanding s' c := by
  rcases outstanding with requested | idle
  · exact Or.inl (asked requested)
  · exact Or.inr (current ▸ idle)

namespace Conserves

/-- The current threads stay, and only thread `x` may come to exceed the thread of a core that is
    not asked. -/
theorem raise (inv : Conserves s) (x : Nat) (current : s'.currentThreads = s.currentThreads)
    (small : ∀ t, s'.stateOf t = .running → t < threadCount)
    (asked : ∀ c, Asked s.requests c → Asked s'.requests c)
    (running : ∀ d < 2, ¬ Outstanding s' d → ∀ u, s.currentThreads d = some u →
      s.stateOf u = .running → s'.stateOf u = .running)
    (others : ∀ d < 2, ¬ Outstanding s' d → ∀ z, z ≠ x → exceeds s' d z = true →
      exceeds s d z = true)
    (alone : ∀ d < 2, ¬ Outstanding s' d → exceeds s' d x = true →
      ∀ z, z ≠ x → exceeds s d z = false)
    (calm : ∀ d < 2, (∀ c < 2, ¬ Outstanding s' c) → exceeds s' d x = true →
      ∃ c, s.currentThreads c = some x) : Conserves s' := by
  have free : ∀ c, ¬ Outstanding s' c → ¬ Outstanding s c := fun c free outstanding =>
    free (outstanding.congr current (asked c))
  refine ⟨fun {t} => small t, ?_, ?_, ?_⟩
  · intro d u bound still own
    rw [current] at own
    exact running d bound still u own (inv.running bound (free d still) own)
  · intro d z z' bound still first second
    by_cases zx : z = x
    · by_cases zx' : z' = x
      · rw [zx, zx']
      · have none := alone d bound still (zx ▸ first) z' zx'
        rw [others d bound still z' zx' second] at none
        cases none
    · by_cases zx' : z' = x
      · have none := alone d bound still (zx' ▸ second) z zx
        rw [others d bound still z zx first] at none
        cases none
      · exact inv.unique bound (free d still) (others d bound still z zx first)
          (others d bound still z' zx' second)
  · intro d z bound still above
    rw [current]
    by_cases zx : z = x
    · rw [zx]
      exact calm d bound still (zx ▸ above)
    · exact inv.calm bound (fun c small => free c (still c small))
        (others d bound (still d bound) z zx above)

/-- No thread comes to exceed the thread of a core that is not asked. -/
theorem keep (inv : Conserves s) (current : s'.currentThreads = s.currentThreads)
    (small : ∀ t, s'.stateOf t = .running → t < threadCount)
    (asked : ∀ c, Asked s.requests c → Asked s'.requests c)
    (running : ∀ d < 2, ¬ Outstanding s' d → ∀ u, s.currentThreads d = some u →
      s.stateOf u = .running → s'.stateOf u = .running)
    (none : ∀ d < 2, ¬ Outstanding s' d → ∀ z, exceeds s' d z = true → exceeds s d z = true) :
    Conserves s' := by
  have free : ∀ c, ¬ Outstanding s' c → ¬ Outstanding s c := fun c free outstanding =>
    free (outstanding.congr current (asked c))
  -- No thread comes to exceed another one, so any thread can be the one to leave out.
  refine inv.raise 0 current small asked running (fun d bound still z _ => none d bound still z) ?_ ?_
  · intro d bound still above z other
    by_contra exceeding
    exact other (inv.unique bound (free d still) ((Bool.not_eq_false _).mp exceeding)
      (none d bound still 0 above))
  · intro d bound still above
    exact inv.calm bound (fun c small => free c (still c small)) (none d bound (still d bound) 0 above)

end Conserves

section Raise

/-- What the requests for a thread that comes to a priority have to meet on core `d`, while only
    the other core is asked: no other thread exceeds what core `d` runs, or it is asked too. -/
def ServedOn (own : Nat) (s : Scheduler) (x prio d : Nat) : Prop :=
  Outstanding s (1 - d) → ¬ Outstanding s d →
    (s.currentThreads d).any (fun u => x ≠ u && s.prioOf u < prio) = true →
    (∀ z < threadCount, z ≠ x → exceeds s d z = false) ∨
      (s.currentThreads (1 - d) ≠ some x ∧ asks own s d = true)

instance : Decidable (ServedOn own s t prio d) := inferInstanceAs (Decidable (_ → _ → _ → _))

def Served (own : Nat) (s : Scheduler) (x prio : Nat) : Prop :=
  ∀ d < 2, ServedOn own s x prio d

instance : Decidable (Served own s t prio) :=
  inferInstanceAs (Decidable (∀ d < 2, ServedOn own s t prio d))

theorem served_free {x p u : Nat} (served : Served own s x p) (bound : d < 2)
    (asked : Outstanding s (1 - d)) (still : ¬ Outstanding s d) (here : s.currentThreads d = some u)
    (other : x ≠ u) (below : s.prioOf u < p) :
    (∀ z < threadCount, z ≠ x → exceeds s d z = false) ∨
      (s.currentThreads (1 - d) ≠ some x ∧ asks own s d = true) :=
  served d bound asked still (by simp [here, other, below])

/-- Where thread `x` may come to exceed the thread of core `d`, any other one that exceeds it runs on
    the other core, or core `d` is asked. -/
theorem Conserves.otherCore {x p u : Nat} (inv : Conserves s)
    (onCore : ∀ c t, s.currentThreads c = some t → c < 2) (served : Served own s x p)
    (bound : d < 2) (still : ¬ Outstanding s d) (here : s.currentThreads d = some u) (apart : x ≠ u)
    (below : s.prioOf u < p) (other : z ≠ x) (exceeded : exceeds s d z = true) :
    (s.currentThreads (1 - d) = some z ∧ s.prioOf u < s.prioOf z) ∨
      (s.currentThreads (1 - d) ≠ some x ∧ asks own s d = true) := by
  obtain ⟨_, here', ready, differ, lower⟩ := exceeds_iff.mp exceeded
  obtain rfl := Option.some.inj (here.symm.trans here')
  by_cases asked : Outstanding s (1 - d)
  · refine Or.inr ((served_free served bound asked still here apart below).resolve_left fun none => ?_)
    rw [none z (inv.small ready) other] at exceeded
    cases exceeded
  · have quiet : ∀ c < 2, ¬ Outstanding s c := by
      intro c bound
      by_cases same : c = d
      · exact same ▸ still
      · have back : c = 1 - d := by omega
        exact back ▸ asked
    obtain ⟨c, there⟩ := inv.calm bound quiet exceeded
    have elsewhere : c ≠ d := by
      intro same
      rw [same, here] at there
      exact differ (Option.some.inj there).symm
    have back : c = 1 - d := by
      have bound := onCore c z there
      omega
    exact Or.inl ⟨back ▸ there, lower⟩

/-- The states differ at one thread, which no core runs. -/
structure DiffersAt (x : Nat) (s s' : Scheduler) : Prop where
  off : OffCore s x
  current : s'.currentThreads = s.currentThreads
  requests : s'.requests = s.requests
  stateOf : ∀ u, u ≠ x → s'.stateOf u = s.stateOf u
  prioOf : ∀ u, u ≠ x → s'.prioOf u = s.prioOf u

namespace DiffersAt

variable {x : Nat} (differs : DiffersAt x s s')

include differs

theorem not_current {u : Nat} (here : s.currentThreads c = some u) : u ≠ x :=
  fun same => differs.off c (same ▸ here)

theorem currentPrio (c : Nat) : s'.currentPrio c = s.currentPrio c := by
  unfold Scheduler.currentPrio
  rw [differs.current]
  cases here : s.currentThreads c with
  | none => rfl
  | some u => exact congrArg some (differs.prioOf u (differs.not_current here))

theorem asks (own d : Nat) : MultiCore.asks own s' d = MultiCore.asks own s d := by
  simp only [MultiCore.asks, lowestCore, differs.currentPrio, differs.requests, differs.current]

theorem exceeds (other : z ≠ x) : exceeds s' d z = exceeds s d z := by
  unfold MultiCore.exceeds
  rw [differs.current]
  cases here : s.currentThreads d with
  | none => rfl
  | some u =>
    simp only [differs.stateOf z other, differs.prioOf z other,
      differs.prioOf u (differs.not_current here)]

end DiffersAt

/-- A thread that no core runs comes to a priority, and the code requests the scheduler for it. -/
theorem conserves_raise {x p : Nat} {s₁ : Scheduler} (inv : Conserves s) (bound : own < 2)
    (onCore : ∀ c t, s.currentThreads c = some t → c < 2) (differs : DiffersAt x s s₁)
    (small : x < threadCount) (prio : s₁.prioOf x = p) (served : Served own s x p)
    (done : s₁.scheduleIfHigherPrio (cpu (Rp.chip model) false own) x p = .ok s') :
    Conserves s' := by
  obtain ⟨q, rfl, grows, requested⟩ := scheduleIfHigherPrio_rp bound done
  rw [differs.requests] at grows
  rw [differs.current] at requested
  have asking : ∀ d < 2, asks own s d = true → ∀ u, s.currentThreads d = some u →
      s.prioOf u < p → Asked q d := by
    intro d small asking u here below
    refine requested d small ((differs.asks own d).trans asking) u here ?_
    rwa [differs.prioOf u (differs.not_current here)]
  have above : ∀ {d}, exceeds { s₁ with requests := q } d x = true →
      ∃ u, s.currentThreads d = some u ∧ x ≠ u ∧ s.prioOf u < p := by
    intro d above
    obtain ⟨u, here, -, other, below⟩ := exceeds_iff.mp above
    have here : s.currentThreads d = some u := differs.current ▸ here
    have below : s₁.prioOf u < s₁.prioOf x := below
    rw [differs.prioOf u (Ne.symm other), prio] at below
    exact ⟨u, here, other, below⟩
  refine inv.raise x differs.current ?_ grows ?_ ?_ ?_ ?_
  · intro t ready
    by_cases same : t = x
    · exact same ▸ small
    · have ready : s₁.stateOf t = .running := ready
      rw [differs.stateOf t same] at ready
      exact inv.small ready
  · intro d _ _ u here ready
    change s₁.stateOf u = .running
    rwa [differs.stateOf u (differs.not_current here)]
  · intro d _ _ z other exceeding
    rwa [← differs.exceeds other]
  · intro d small free exceeding z other
    obtain ⟨u, here, apart, below⟩ := above exceeding
    have still : ¬ Outstanding s d := fun outstanding =>
      free (outstanding.congr differs.current (grows d))
    by_contra exceeded
    rcases inv.otherCore onCore served small still here apart below other (by simpa using exceeded) with
      ⟨there, lower⟩ | ⟨-, asks⟩
    · have chosen := lowestCore_eq small here there lower
      exact free (Or.inl (asking d small (by simp [asks, chosen]) u here below))
    · exact free (Or.inl (asking d small asks u here below))
  · intro d small free exceeding
    obtain ⟨u, here, -, below⟩ := above exceeding
    -- The selected core runs a thread of no higher priority, so it would have been asked.
    have low := lowestCore_lt s
    obtain ⟨v, running⟩ : ∃ v, s.currentThreads (lowestCore s) = some v := by
      have idle := (not_or.mp (free _ low)).2
      rw [show ({ s₁ with requests := q } : Scheduler).currentThreads = s.currentThreads from
        differs.current] at idle
      exact Option.ne_none_iff_exists'.mp idle
    have least := lowestCore_le small running here
    exact absurd (Or.inl (asking _ low (by simp [asks]) v running (by omega))) (free _ low)

end Raise

section Operations

theorem exceeds_congr {s₁ s₂ : Scheduler} (current : s₂.currentThreads = s₁.currentThreads)
    (state : s₂.stateOf = s₁.stateOf) (prio : s₂.prioOf = s₁.prioOf) :
    exceeds s₂ d z = exceeds s₁ d z := by
  unfold exceeds
  rw [current, state, prio]

/-- Only requests are added. -/
theorem Conserves.request (inv : Conserves s) {q : Requests}
    (grows : ∀ c, Asked s.requests c → Asked q c) : Conserves { s with requests := q } :=
  inv.keep rfl (fun _ ready => inv.small ready) grows (fun _ _ _ _ _ ready => ready)
    fun _ _ _ _ above => above

theorem Conserves.quiet (inv : Conserves s) (h : Quiet s s') : Conserves s' := by
  refine inv.keep h.currentThreads ?_ ?_ ?_ ?_
  · intro t ready
    rw [h.stateOf] at ready
    exact inv.small ready
  · intro c asked
    rwa [h.requests]
  · intro d _ _ u _ ready
    rwa [h.stateOf]
  · intro d _ _ z above
    rwa [exceeds_congr h.currentThreads h.stateOf h.prioOf] at above

theorem conserves_new (config : Config) : Conserves (.new config) where
  small := fun ready => by cases ready
  running := fun _ _ own => by cases own
  unique := fun _ free => absurd (Or.inr rfl) free
  calm := fun bound free => absurd (Or.inr rfl) (free _ bound)

/-- A thread that is not ready afterwards exceeds nothing; a core that runs it is asked. -/
theorem Conserves.stopped (inv : Conserves s) {thread : Thread} {r : RunQueue usizeBits
    schedPrioLevels threadCount} {q : Requests} (stops : thread.state ≠ .running)
    (grows : ∀ c, Asked s.requests c → Asked q c)
    (asked : ∀ d, s.currentThreads d = some t → s.stateOf t = .running → Asked q d) :
    Conserves { s.setThread t thread with runqueue := r, requests := q } := by
  have stateOf : ∀ u, u ≠ t → (s.setThread t thread).stateOf u = s.stateOf u := by
    intro u other
    rw [setThread_stateOf, Function.update_of_ne other]
  have stays : ∀ u, (s.setThread t thread).stateOf u = .running → u ≠ t := by
    intro u ready same
    rw [same, setThread_stateOf, Function.update_self] at ready
    exact stops ready
  refine inv.keep rfl ?_ grows ?_ ?_
  · intro u ready
    exact inv.small (stateOf u (stays u ready) ▸ ready)
  · intro d _ free u own ready
    have other : u ≠ t := fun same => free (Or.inl (asked d (same ▸ own) (same ▸ ready)))
    exact (stateOf u other).trans ready
  · intro d bound free z above
    obtain ⟨u, own, ready, other, below⟩ := exceeds_iff.mp above
    have zt := stays z ready
    have ut : u ≠ t := by
      intro same
      have own : s.currentThreads d = some t := same ▸ own
      have still : ¬ Outstanding s d := fun outstanding =>
        free (outstanding.congr rfl (grows d))
      exact free (Or.inl (asked d own (inv.running bound still own)))
    have below : (s.setThread t thread).prioOf u < (s.setThread t thread).prioOf z := below
    rw [setThread_prioOf, Function.update_of_ne ut, Function.update_of_ne zt] at below
    exact exceeds_iff.mpr ⟨u, own, (stateOf z zt).symm.trans ready, other, below⟩

theorem conserves_stop (inv : Conserves s) (exclusive : Exclusive (Rp.chip model) s)
    (own' : s.currentThreads own = some t) (stops : state ≠ .running)
    (done : s.setState (cpu (Rp.chip model) false own) t state = .ok (s', old)) : Conserves s' := by
  obtain ⟨L, apart⟩ := exclusive
  by_cases ready : s.stateOf t = .running
  · obtain ⟨-, -, r, -, -, rfl⟩ := setState_block_ok stops ready done
    refine inv.stopped stops (fun c asked => asked.pend own) ?_
    intro d here _
    obtain rfl := apart.distinct here own'
    exact asked_pend s.requests d
  · obtain ⟨-, rfl⟩ := setState_idle_ok stops ready done
    exact inv.stopped stops (fun c asked => asked) fun _ _ running => absurd running ready

theorem conserves_create {stackStart stackLen : Nat} {mask : Option CoreAffinity}
    (inv : Conserves s)
    (made : s.create (cpu (Rp.chip model) false own) stackStart stackLen prio mask = some (s', t)) :
    Conserves s' := by
  obtain ⟨-, free, thread, rfl, state, -, -, -⟩ := create_ok made
  exact inv.stopped (by simp [state]) (fun c asked => asked) fun _ _ ready => by simp [free] at ready

/-- The priority of a thread falls; a core that runs it is asked. -/
theorem Conserves.lowered {r : RunQueue usizeBits schedPrioLevels threadCount} {q : Requests}
    (inv : Conserves s) (lowered : prio < s.prioOf t) (grows : ∀ c, Asked s.requests c → Asked q c)
    (asked : ∀ d, s.currentThreads d = some t → Asked q d) : Conserves (s.withPrio t prio r q) := by
  refine inv.keep rfl ?_ grows ?_ ?_
  · intro u ready
    rw [withPrio_stateOf] at ready
    exact inv.small ready
  · intro d _ _ u _ ready
    rwa [withPrio_stateOf]
  · intro d _ free z above
    obtain ⟨u, here, ready, other, below⟩ := exceeds_iff.mp above
    rw [withPrio_stateOf] at ready
    have here : s.currentThreads d = some u := here
    have differ : u ≠ t := fun same => free (Or.inl (asked d (same ▸ here)))
    rw [withPrio_prioOf, Function.update_of_ne differ] at below
    refine exceeds_iff.mpr ⟨u, here, ready, other, ?_⟩
    by_cases same : z = t
    · rw [same, Function.update_self] at below
      rw [same]
      omega
    · rwa [Function.update_of_ne same] at below

/-- The priority of the current thread of a core rises. -/
theorem Conserves.raised (inv : Conserves s) (exclusive : Exclusive (Rp.chip model) s)
    (here : s.currentThreads c = some t) (raised : s.prioOf t < prio)
    (served : Served own s t prio) : Conserves (s.withPrio t prio s.runqueue s.requests) := by
  obtain ⟨L, apart⟩ := exclusive
  have small : c < 2 := apart.onCore here
  refine inv.raise t rfl ?_ (fun d asked => asked) ?_ ?_ ?_ (fun _ _ _ _ => ⟨c, here⟩)
  · intro u ready
    rw [withPrio_stateOf] at ready
    exact inv.small ready
  · intro d _ _ u _ ready
    rwa [withPrio_stateOf]
  · intro d _ _ z other above
    obtain ⟨u, own', ready, differ, below⟩ := exceeds_iff.mp above
    rw [withPrio_stateOf] at ready
    rw [withPrio_prioOf, Function.update_of_ne other] at below
    refine exceeds_iff.mpr ⟨u, own', ready, differ, ?_⟩
    by_cases same : u = t
    · rw [same, Function.update_self] at below
      rw [same]
      omega
    · rwa [Function.update_of_ne same] at below
  · intro d bound free above z other
    obtain ⟨u, own', -, differ, below⟩ := exceeds_iff.mp above
    have own' : s.currentThreads d = some u := own'
    rw [withPrio_prioOf, Function.update_of_ne (Ne.symm differ), Function.update_self] at below
    have elsewhere : c ≠ d := by
      intro same
      rw [← same, here] at own'
      exact differ (Option.some.inj own')
    have back : c = 1 - d := by omega
    by_contra exceeded
    rcases inv.otherCore (fun c u here => apart.onCore here) served bound free own' differ below other
      (by simpa using exceeded) with ⟨there, -⟩ | ⟨away, -⟩
    · rw [← back, here] at there
      exact other (Option.some.inj there).symm
    · exact away (back ▸ here)

/-- The current thread of a core changes its priority; a lower one is requested for. -/
theorem Conserves.reprioritised (inv : Conserves s) (exclusive : Exclusive (Rp.chip model) s)
    (bound : own < 2) (here : s.currentThreads c = some t) (changed : s.prioOf t ≠ prio)
    (served : s.prioOf t < prio → Served own s t prio) :
    Conserves (s.withPrio t prio s.runqueue (if prio < s.prioOf t then
      (Rp.chip model).scheduleOnCore own c s.requests else s.requests)) := by
  by_cases lowered : prio < s.prioOf t
  · obtain ⟨L, apart⟩ := exclusive
    rw [if_pos lowered]
    refine inv.lowered lowered (fun d asked => asked.scheduleOnCore own c) fun d here' => ?_
    obtain rfl := apart.distinct here' here
    exact asked_scheduleOnCore model bound (apart.onCore here) s.requests
  · rw [if_neg lowered]
    have raised : s.prioOf t < prio := by omega
    exact inv.raised exclusive here raised (served raised)

theorem conserves_setPriority (inv : Conserves s) (exclusive : Exclusive (Rp.chip model) s)
    (bound : own < 2)
    (served : s.stateOf t = .running → s.prioOf t < prio → Served own s t prio)
    (done : s.setPriority (cpu (Rp.chip model) false own) t prio = .ok s') : Conserves s' := by
  have ⟨L, apart⟩ := exclusive
  rcases setPriority_ok done with ⟨rfl, -⟩ | ⟨small, -, changed, ⟨stopped, rfl⟩ |
    ⟨ready, chip, affinity, c, config, running, rfl⟩ | ⟨ready, r, moved, outcome⟩⟩
  · exact inv
  · exact inv.stopped stopped (fun c asked => asked) fun _ _ ready => absurd ready stopped
  · cases config
    exact inv.reprioritised exclusive bound (isRunning_some running) changed (served ready)
  · rcases outcome with ⟨single, -⟩ | ⟨absent, raised, scheduled⟩ | ⟨absent, lowered, rfl⟩
    · cases single
    · have off : OffCore s t := fun c here => isRunning_none absent (apart.onCore here) here
      have differs : DiffersAt t s (s.withPrio t prio r s.requests) := by
        refine ⟨off, rfl, rfl, ?_, ?_⟩
        · intro u _
          rw [withPrio_stateOf]
        · intro u other
          rw [withPrio_prioOf, Function.update_of_ne other]
      exact conserves_raise inv bound (fun c u here => apart.onCore here) differs small
        (by simp) (served ready raised) scheduled
    · exact inv.lowered lowered (fun c asked => asked) fun c here =>
        absurd here (isRunning_none absent (apart.onCore here))

theorem conserves_ready (inv : Conserves s) (exclusive : Exclusive (Rp.chip model) s)
    (bound : own < 2) (left : LeftCores (Rp.chip model) s t)
    (served : Served own s t (s.prioOf t))
    (done : s.setState (cpu (Rp.chip model) false own) t .running = .ok (s', old)) :
    Conserves s' := by
  obtain ⟨L, apart⟩ := exclusive
  obtain ⟨small, -, r, q, -, raised, rfl⟩ := setState_running_ok done
  have differs : DiffersAt t s (s.withState t .running r s.requests) := by
    refine ⟨apart.leftCores left, rfl, rfl, ?_, ?_⟩
    · intro u other
      rw [withState_stateOf, Function.update_of_ne other]
    · intro u _
      rw [withState_prioOf]
  exact conserves_raise inv bound (fun c u here => apart.onCore here) differs small
    (by simp) served raised

/-- The thread that a core takes is at least as high as all that stay in the runqueue. -/
theorem Apart.level_le {n : Nat} (apart : Apart (Rp.chip model) s L)
    (top : IsTop (readded s core L) n) (ready : s.stateOf z = .running)
    (onlyHere : ∀ c, s.currentThreads c = some z → c = core) : s.prioOf z ≤ s.prioOf n := by
  obtain ⟨q, first, above⟩ := top
  have member : z ∈ readded s core L (s.prioOf z) := by
    rw [mem_readded]
    by_cases here : s.currentThreads core = some z
    · exact Or.inr ⟨here, ready, rfl⟩
    · exact Or.inl (apart.queued.mpr ⟨ready, rfl, fun c there => here (onlyHere c there ▸ there)⟩)
  have level : s.prioOf n = q := by
    rcases mem_readded.mp (List.mem_of_head? first) with queued | ⟨-, -, level⟩
    · exact (apart.queued.mp queued).2.1
    · exact level
  by_contra higher
  rw [above _ (by omega)] at member
  cases member

theorem conserves_sched (inv : Conserves s) (exclusive : Exclusive (Rp.chip model) s)
    (named : s.Named refs) (bound : own < 2)
    (done : s.sched (cpu (Rp.chip model) false own) = .ok s') : Conserves s' := by
  obtain ⟨L, apart⟩ := exclusive
  obtain ⟨active, r, n, -, ⟨p, member⟩, top, rfl⟩ :=
    sched_takes named apart.represents (fun c p _ here => apart.elsewhere p here) done
  have top := top rfl
  have ready : s.stateOf n = .running := by
    rcases mem_readded.mp member with queued | ⟨-, ready, -⟩
    · exact (apart.queued.mp queued).1
    · exact ready
  have fresh : ∀ d u, d ≠ own → s.currentThreads d = some u → n ≠ u := by
    intro d u other here same
    rcases mem_readded.mp member with queued | ⟨own', -⟩
    · exact apart.offCore queued d (same ▸ here)
    · exact other (apart.distinct here (same ▸ own'))
  -- On another core nothing changes.
  have still : ∀ d, d ≠ own → ¬ Outstanding { s with
      runqueue := r
      currentThreads := Function.update s.currentThreads own (some n)
      requests := s.requests.leave own } d → ¬ Outstanding s d := by
    intro d other free outstanding
    apply free
    simpa [Outstanding, Asked, Requests.leave, other] using outstanding
  have same : ∀ d z, d ≠ own → exceeds { s with
      runqueue := r
      currentThreads := Function.update s.currentThreads own (some n)
      requests := s.requests.leave own } d z = exceeds s d z := by
    intro d z other
    simp only [exceeds, Function.update_of_ne other]
    rfl
  -- What exceeds the thread that is taken runs on the other core.
  have onOther : ∀ z, exceeds { s with
      runqueue := r
      currentThreads := Function.update s.currentThreads own (some n)
      requests := s.requests.leave own } own z = true →
      z ≠ n ∧ s.currentThreads (1 - own) = some z := by
    intro z above
    obtain ⟨u, here, running, differ, below⟩ := exceeds_iff.mp above
    obtain rfl : n = u := by simpa using here
    have below : s.prioOf n < s.prioOf z := below
    refine ⟨differ, ?_⟩
    by_contra away
    have onlyHere : ∀ c, s.currentThreads c = some z → c = own := by
      intro c here
      by_contra other
      have small : c < 2 := apart.onCore here
      have back : c = 1 - own := by omega
      exact away (back ▸ here)
    have least := apart.level_le top running onlyHere
    omega
  refine ⟨fun ready => inv.small ready, ?_, ?_, ?_⟩
  · intro d u small free here
    by_cases mine : d = own
    · obtain rfl : n = u := by simpa [mine] using here
      exact ready
    · have here : s.currentThreads d = some u := by simpa [mine] using here
      exact inv.running small (still d mine free) here
  · intro d z z' small free first second
    by_cases mine : d = own
    · rw [mine] at first second
      exact Option.some.inj ((onOther z first).2.symm.trans (onOther z' second).2)
    · rw [same d _ mine] at first second
      exact inv.unique small (still d mine free) first second
  · intro d z small free above
    by_cases mine : d = own
    · rw [mine] at above
      have there := (onOther z above).2
      refine ⟨1 - own, ?_⟩
      have away : 1 - own ≠ own := by omega
      simpa [away] using there
    · by_cases taken : z = n
      · exact ⟨own, by simp [taken]⟩
      · rw [same d _ mine] at above
        obtain ⟨u, here, running, differ, below⟩ := exceeds_iff.mp above
        have onlyHere : ∀ c, s.currentThreads c = some z → c = own := by
          intro c there
          by_contra other
          have bound : c < 2 := apart.onCore there
          have back : c = d := by omega
          rw [back, here] at there
          exact differ (Option.some.inj there).symm
        have least := apart.level_le top running onlyHere
        have exceeded : exceeds s d n = true :=
          exceeds_iff.mpr ⟨u, here, ready, fresh d u mine here, by omega⟩
        exact absurd (inv.unique small (still d mine (free d small)) above exceeded) taken

end Operations

section Runs

theorem Served.congr {x p : Nat} (served : Served own s x p)
    (current : s'.currentThreads = s.currentThreads) (requests : s'.requests = s.requests)
    (state : s'.stateOf = s.stateOf) (prio : s'.prioOf = s.prioOf) : Served own s' x p := by
  have levels : ∀ c, s'.currentPrio c = s.currentPrio c := by
    intro c
    change (s'.currentThreads c).map s'.prioOf = (s.currentThreads c).map s.prioOf
    rw [current, prio]
  have same : ∀ d z, exceeds s' d z = exceeds s d z := fun _ _ => exceeds_congr current state prio
  intro d bound
  simpa only [ServedOn, Outstanding, asks, lowestCore, levels, same, current, requests, prio]
    using served d bound

/-- A step may make the thread ready: no core still runs it, and the requests serve it. -/
def MayWake (model : Rp.Model) (own : Nat) (s : Scheduler) (t : Nat) : Prop :=
  LeftCores (Rp.chip model) s t ∧ Served own s t (s.prioOf t)

/-- A step may set the priority of the thread: when it is raised, the requests serve it. -/
def MayRaise (own : Nat) (s : Scheduler) (t prio : Nat) : Prop :=
  s.stateOf t = .running → s.prioOf t < prio → Served own s t prio

instance : Decidable (MayWake model own s t) := inferInstanceAs (Decidable (_ ∧ _))

instance : Decidable (MayRaise own s t prio) := inferInstanceAs (Decidable (_ → _ → _))

theorem conserves_keeps (bound : own < 2) (refs : Nat → Prop) :
    Keeps (cpu (Rp.chip model) false own) refs (MayWake model own) (MayRaise own) (fun _ => True)
      True (fun s => Exclusive (Rp.chip model) s ∧ Conserves s) :=
  have exclusive : Keeps (cpu (Rp.chip model) false own) refs (LeftCores (Rp.chip model))
      (fun _ _ _ => True) (fun _ => True) True (Exclusive (Rp.chip model)) := keeps bound refs
  { quiet := fun h inv => ⟨exclusive.quiet h inv.1, inv.2.quiet h⟩
    quietReady := fun h ⟨left, served⟩ => by
      refine ⟨exclusive.quietReady h left, ?_⟩
      rw [h.prioOf]
      exact served.congr h.currentThreads h.requests h.stateOf h.prioOf
    ready := fun named self may inv done =>
      ⟨exclusive.ready named self may.1 inv.1 done,
        conserves_ready inv.2 inv.1 bound may.1 may.2 done⟩
    stop := fun named own may stops inv done =>
      ⟨exclusive.stop named own may stops inv.1 done, conserves_stop inv.2 inv.1 own stops done⟩
    create := fun named _ inv made =>
      ⟨exclusive.create named trivial inv.1 made, conserves_create inv.2 made⟩
    setPriority := fun {s s' t prio} named may inv done => by
      refine ⟨exclusive.setPriority named (fun _ => trivial) inv.1 done, ?_⟩
      refine conserves_setPriority inv.2 inv.1 bound (fun ready => may ?_ ready) done
      exact isValidTid_iff.mpr ⟨inv.2.small ready, by simp [ready]⟩
    yieldSame := fun named inv done => by
      refine ⟨exclusive.yieldSame named inv.1 done, ?_⟩
      rcases yieldSame_multi done with rfl | ⟨-, q, rfl, pend⟩
      · exact inv.2
      · rw [pend rfl]
        exact inv.2.request fun c asked => asked.pend own
    startThreading := fun named may inv done => by
      refine ⟨exclusive.startThreading named may inv.1 done, ?_⟩
      obtain ⟨-, rfl⟩ := startThreading_ok done
      exact inv.2.request fun c asked => asked.pend own
    handleFifoToken := fun named inv done => by
      refine ⟨exclusive.handleFifoToken named inv.1 done, ?_⟩
      obtain ⟨-, rfl⟩ := handleFifoToken_ok done
      refine inv.2.request fun c asked => ?_
      by_cases same : c = own
      · rw [same]
        exact asked_pend _ own
      · refine Asked.pend ?_ own
        simpa [Asked, Requests.takeToken, cpu, same] using asked
    enterPendsv := fun named inv done => by
      refine ⟨exclusive.enterPendsv named inv.1 done, ?_⟩
      obtain ⟨-, -, rfl⟩ := enterPendsv_ok done
      refine inv.2.request fun c asked => ?_
      by_cases same : c = own
      · exact Or.inr (Or.inl (by simp [Requests.enter, cpu, same]))
      · simpa [Asked, Requests.enter, cpu, same] using asked
    sched := fun named inv done => by
      obtain ⟨exclusive', named'⟩ := exclusive.sched named inv.1 done
      exact ⟨⟨exclusive', conserves_sched inv.2 inv.1 named bound done⟩, named'⟩ }

/-- The runs in which every thread that becomes ready or is raised has left the cores, and the
    requests for it are not lost on a core that already has one for another thread. -/
abbrev ServesWakeUps (model : Rp.Model) : Nat × Event → System → Prop :=
  System.Permitted (.multiCore (Rp.chip model) false) (MayWake model) MayRaise

/-- Both cores run a thread, and no core is going to run its scheduler. -/
structure Quiescent (s : Scheduler) : Prop where
  pendsv : ∀ c < 2, s.requests.pendsv c = false ∧ s.requests.active c = false
  tokens : ∀ c < 2, s.requests.tokens c = 0
  running : ∀ c < 2, s.currentThreads c ≠ none

theorem Quiescent.free (quiescent : Quiescent s) (bound : c < 2) : ¬ Outstanding s c := by
  obtain ⟨pendsv, active⟩ := quiescent.pendsv c bound
  simp [Outstanding, Asked, pendsv, active, quiescent.tokens c bound, quiescent.running c bound]

theorem no_ready_thread_left {sys : System}
    (reached : Reaches (System.step (.multiCore (Rp.chip model) false)) (ServesWakeUps model)
      (.new (.multiCore (Rp.chip model) false)) sys)
    (quiescent : Quiescent sys.scheduler) {c u z : Nat}
    (own : sys.scheduler.currentThreads c = some u) (ready : sys.scheduler.stateOf z = .running)
    (off : ∀ d < 2, sys.scheduler.currentThreads d ≠ some z) :
    ¬ sys.scheduler.prioOf u < sys.scheduler.prioOf z := by
  obtain ⟨-, ⟨L, apart⟩, conserves⟩ := Keeps.reaches
    (fun core refs bound => conserves_keeps bound refs)
    (fun ⟨⟨L, apart⟩, conserves⟩ => ⟨⟨L, apart.congr rfl rfl fun _ _ _ => Iff.rfl⟩,
      conserves.small, conserves.running, conserves.unique, conserves.calm⟩)
    (fun may => may) ⟨exclusive_new _, conserves_new _⟩ reached
  intro higher
  have small : c < 2 := apart.onCore own
  have differ : z ≠ u := fun same => off c small (same ▸ own)
  obtain ⟨d, here⟩ := conserves.calm small (fun d bound => quiescent.free bound)
    (exceeds_iff.mpr ⟨u, own, ready, differ, higher⟩)
  exact off d (apart.onCore here) here

/-- Thread `t` of priority 7 is created by core 0 and parks itself on core 1. -/
def parkedEvents (stackStart : Nat) : List (Nat × Event) :=
  [(0, .op (.create stackStart 512 7 none)), (1, .op .fifoToken)] ++ switch 1 ++ [(1, .op .park)] ++
    switch 1

/-- Core 0 runs thread 2 of priority 5; the threads 3 and 4 of priority 7 are parked. -/
def twoParked : List (Nat × Event) := bootEvents ++ parkedEvents 2048 ++ parkedEvents 4096

def settledOn (t u : Nat) (sys : System) : Bool :=
  runs 0 t sys && runs 1 u sys && !sys.scheduler.requests.pendsv 0 &&
    !sys.scheduler.requests.pendsv 1 && !sys.scheduler.requests.active 0 &&
    !sys.scheduler.requests.active 1 && sys.scheduler.requests.tokens 0 == 0 &&
    sys.scheduler.requests.tokens 1 == 0

theorem quiescent_of_settledOn {u : Nat} {sys : System} (settled : settledOn t u sys = true) :
    Quiescent sys.scheduler ∧ sys.scheduler.currentThreads 0 = some t ∧
      sys.scheduler.currentThreads 1 = some u := by
  simp only [settledOn, runs, Bool.and_eq_true, beq_iff_eq, Bool.not_eq_true'] at settled
  obtain ⟨⟨⟨⟨⟨⟨⟨first, second⟩, pend₀⟩, pend₁⟩, active₀⟩, active₁⟩, tokens₀⟩, tokens₁⟩ := settled
  refine ⟨⟨?_, ?_, ?_⟩, first, second⟩ <;> intro c bound
  all_goals
    obtain rfl | rfl : c = 0 ∨ c = 1 := by omega
    · simp [first, pend₀, active₀, tokens₀]
    · simp [second, pend₁, active₁, tokens₁]

/-- Core 0 wakes thread 3 and, when core 1 runs it, thread 4: core 0 then runs thread 4. -/
theorem no_ready_thread_left_sample : ∃ sys : System,
    sys.scheduler.currentThreads 0 = some 4 ∧ sys.scheduler.stateOf 2 = .running ∧
      ¬ sys.scheduler.prioOf 4 < sys.scheduler.prioOf 2 := by
  have run : ∃ sys, Reaches (System.step rp2040) (ServesWakeUps .rp2040) (.new rp2040) sys ∧
      (settledOn 4 3 sys && sys.scheduler.stateOf 2 == .running) = true :=
    reaches_of_check (twoParked ++ [(0, .op (.unpark 3)), (1, .op .fifoToken)] ++ switch 1 ++
      [(0, .op (.unpark 4))] ++ switch 0) (by decide +kernel)
  obtain ⟨sys, reached, here⟩ := run
  simp only [Bool.and_eq_true, beq_iff_eq] at here
  obtain ⟨settled, ready⟩ := here
  obtain ⟨quiescent, first, second⟩ := quiescent_of_settledOn settled
  have off : ∀ d < 2, sys.scheduler.currentThreads d ≠ some 2 := by
    intro d bound
    obtain rfl | rfl : d = 0 ∨ d = 1 := by omega
    · simp [first]
    · simp [second]
  exact ⟨sys, first, ready, no_ready_thread_left reached quiescent first ready off⟩

/-- Core 0 wakes the threads 3 and 4, and asks core 1 for both. -/
theorem ready_thread_left : ∃ sys, Reachable (System.step rp2040) (.new rp2040) sys ∧
    Quiescent sys.scheduler ∧ sys.scheduler.currentThreads 0 = some 2 ∧
    sys.scheduler.currentThreads 1 = some 4 ∧ sys.scheduler.stateOf 3 = .running ∧
    sys.scheduler.prioOf 2 = 5 ∧ sys.scheduler.prioOf 3 = 7 := by
  have run : ∃ sys, Reachable (System.step rp2040) (.new rp2040) sys ∧
      (settledOn 2 4 sys && sys.scheduler.stateOf 3 == .running && sys.scheduler.prioOf 2 == 5 &&
        sys.scheduler.prioOf 3 == 7) = true :=
    reaches_of_check (twoParked ++ [(0, .op (.unpark 3)), (0, .op (.unpark 4)),
      (1, .op .fifoToken)] ++ switch 1 ++ [(1, .op .fifoToken)] ++ switch 1) (by decide +kernel)
  obtain ⟨sys, reached, here⟩ := run
  simp only [Bool.and_eq_true, beq_iff_eq] at here
  obtain ⟨⟨⟨settled, ready⟩, low⟩, high⟩ := here
  obtain ⟨quiescent, first, second⟩ := quiescent_of_settledOn settled
  exact ⟨sys, reached, quiescent, first, second, ready, low, high⟩

end Runs

end ArielOS.MultiCore
