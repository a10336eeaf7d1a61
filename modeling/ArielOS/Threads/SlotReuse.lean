import ArielOS.Threads.MultiCore

namespace ArielOS

open Machine Scheduler

/-- What creates a thread. -/
def Event.creates : Event → Bool
  | .op (.create ..) | .setupIdleThread .. => true
  | _ => false

/-- The cores with the threads that were created over time. `births t` counts those in slot `t`, and
    `holder core` is the one that the core switched to, by its number in its slot. Neither is part
    of the program's state. -/
structure SlotSystem where
  system : System
  births : Nat → Nat
  holder : Nat → Option Nat

namespace SlotSystem

def new (config : Config) : SlotSystem where
  system := .new config
  births := fun _ => 0
  holder := fun _ => none

/-- One more thread in the slot that `create` takes. -/
def bear (births : Nat → Nat) (s : Scheduler) (e : Event) : Nat → Nat :=
  match e.creates, s.getUnused with
  | true, some t => Function.update births t (births t + 1)
  | _, _ => births

def step (config : Config) (e : Nat × Event) (sys : SlotSystem) : Except Fault SlotSystem := do
  let system ← System.step config e sys.system
  let births := bear sys.births sys.system.scheduler e.2
  return {
    system
    births
    holder := fun core =>
      if system.scheduler.currentThreads core = sys.system.scheduler.currentThreads core then
        sys.holder core
      else
        (system.scheduler.currentThreads core).map births }

/-- A slot whose thread has exited, but is still the current thread of a core, has a free slot in
    front of it. -/
def Guarded (config : Config) (s : Scheduler) : Prop :=
  ∀ core < config.coreCount, ∀ t, s.currentThreads core = some t → s.stateOf t = .invalid →
    ∃ u < t, s.stateOf u = .invalid

/-- The runs in which threads are created only while that is so. -/
def CreatesGuarded (config : Config) (e : Nat × Event) (sys : SlotSystem) : Prop :=
  e.2.creates = true → Guarded config sys.system.scheduler

instance (config : Config) (s : Scheduler) : Decidable (Guarded config s) :=
  inferInstanceAs (Decidable (∀ core < config.coreCount, ∀ t, s.currentThreads core = some t →
    s.stateOf t = .invalid → ∃ u < t, s.stateOf u = .invalid))

instance (config : Config) (e : Nat × Event) (sys : SlotSystem) :
    Decidable (CreatesGuarded config e sys) :=
  inferInstanceAs (Decidable (_ → _))

variable {config : Config} {s s' : Scheduler} {sys sys' : SlotSystem} {core t : Nat}

theorem getUnused_eq_some_iff : s.getUnused = some t ↔
    t < threadCount ∧ s.stateOf t = .invalid ∧ ∀ u < t, s.stateOf u ≠ .invalid := by
  unfold getUnused
  rw [List.find?_range_eq_some]
  simp only [stateOf, decide_eq_true_eq, List.mem_range, Bool.not_eq_eq_eq_not, Bool.not_true,
    decide_eq_false_iff_not, ne_eq]
  exact and_left_comm

/-- A thread that is created is on no core exactly if a free slot was in front of each exited
    thread that is still on its core. -/
theorem getUnused_offCore_iff (unused : s.getUnused = some t) :
    (∀ core < config.coreCount, s.currentThreads core ≠ some t) ↔ Guarded config s := by
  obtain ⟨-, free, first⟩ := getUnused_eq_some_iff.mp unused
  apply Iff.intro
  · intro off core bound u own exited
    refine ⟨t, ?_, free⟩
    rcases Nat.lt_trichotomy t u with before | rfl | behind
    · exact before
    · exact absurd own (off core bound)
    · exact absurd exited (first u behind)
  · intro guarded core bound own
    obtain ⟨u, before, exited⟩ := guarded core bound t own free
    exact first u before exited

theorem bear_eq {births : Nat → Nat} {e : Event}
    (other : e.creates = true → s.getUnused ≠ some t) : bear births s e t = births t := by
  unfold bear
  cases creates : e.creates with
  | false => rfl
  | true =>
    cases unused : s.getUnused with
    | none => rfl
    | some u =>
      have apart : t ≠ u := fun same => other creates (same ▸ unused)
      exact Function.update_of_ne apart _ _

/-- No core has as its current thread another one than the thread it switched to. -/
def Kept (config : Config) (sys : SlotSystem) : Prop :=
  ∀ core < config.coreCount, ∀ t, sys.system.scheduler.currentThreads core = some t →
    sys.holder core = some (sys.births t)

theorem step_kept {e : Nat × Event} (kept : Kept config sys) (allowed : CreatesGuarded config e sys)
    (done : step config e sys = .ok sys') : Kept config sys' := by
  obtain ⟨system, stepped, done⟩ := bind_ok_iff.mp done
  cases done
  intro core bound t own
  dsimp only at own ⊢
  split
  · rename_i same
    have before : sys.system.scheduler.currentThreads core = some t := same.symm.trans own
    rw [kept core bound t before]
    rw [bear_eq fun creates unused =>
      (getUnused_offCore_iff unused).mpr (allowed creates) core bound before]
  · rw [own]
    rfl

/-- Each core still has the thread it switched to, so its `sched` saves the registers of this thread
    and puts back no other; and a thread that is created is current on no core. -/
theorem created_thread_unshared
    (reached : Reaches (step config) (CreatesGuarded config) (new config) sys) :
    Kept config sys ∧ ∀ (cpu : Cpu) (stackStart stackLen prio : Nat) (affinity : Option CoreAffinity)
      (s' : Scheduler) (t : Nat),
      sys.system.scheduler.createRaw cpu stackStart stackLen prio affinity = .ok (s', t) →
        ((∀ core < config.coreCount, sys.system.scheduler.currentThreads core ≠ some t) ↔
          Guarded config sys.system.scheduler) := by
  refine ⟨?_, ?_⟩
  · refine reached.invariant (Kept config) ?_ fun _ _ _ kept allowed done =>
      step_kept kept allowed done
    intro core bound t own
    cases own
  · intro cpu stackStart stackLen prio affinity s' t made
    obtain ⟨s₁, old, created, -⟩ := createRaw_ok made
    exact getUnused_offCore_iff (create_getUnused created)

section Samples

open MultiCore

/-- Whether core 0 has thread 2, as its first or its second one, and how many were created there. -/
def onCore0 (holder births : Nat) (sys : SlotSystem) : Bool :=
  sys.system.scheduler.currentThreads 0 = some 2 ∧ sys.holder 0 = some holder ∧ sys.births 2 = births

/-- Thread 2 exits, core 0 goes on to an idle thread, and then runs a new thread in this slot. -/
theorem created_thread_unshared_sample : ∃ sys : SlotSystem,
    sys.system.scheduler.currentThreads 0 = some 2 ∧ sys.holder 0 = some 2 ∧ sys.births 2 = 2 := by
  have run : ∃ sys, Reaches (step rp2040) (CreatesGuarded rp2040) (new rp2040) sys ∧
      onCore0 2 2 sys = true :=
    reaches_of_check (bootEvents ++ [(0, .op .exit)] ++ switch 0 ++
      [(0, .op (.create 1536 512 5 none))] ++ switch 0) (by decide +kernel)
  obtain ⟨sys, reached, here⟩ := run
  obtain ⟨own, -, births⟩ := of_decide_eq_true here
  have kept := (created_thread_unshared reached).1 0 (by decide) 2 own
  exact ⟨sys, own, kept.trans (congrArg some births), births⟩

/-- Thread 2 exits on core 0, and core 1 creates a thread before core 0 has switched: the new thread
    gets the slot that core 0 still has as its current one. -/
theorem created_on_core : ∃ sys, Reachable (step rp2040) (new rp2040) sys ∧
    sys.system.scheduler.currentThreads 0 = some 2 ∧ sys.holder 0 = some 1 ∧ sys.births 2 = 2 := by
  have run : ∃ sys, Reachable (step rp2040) (new rp2040) sys ∧ onCore0 1 2 sys = true :=
    reaches_of_check (bootEvents ++ [(0, .op .exit), (1, .op (.create 1536 512 5 none))])
      (by decide +kernel)
  obtain ⟨sys, reached, here⟩ := run
  exact ⟨sys, reached, of_decide_eq_true here⟩

end Samples

end SlotSystem

end ArielOS
