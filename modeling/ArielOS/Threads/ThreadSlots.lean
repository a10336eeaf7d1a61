import ArielOS.Threads.SystemSpec

namespace ArielOS

open Machine Scheduler

/-- The feature `core-affinity`. -/
def Config.coreAffinity : Config → Bool
  | .multiCore _ affinity => affinity
  | .singleCore => false

/-- What can be observed of a thread, apart from its saved registers. Without the feature
    `core-affinity` there is no affinity. -/
structure Observed where
  state : ThreadState
  prio : Nat
  tid : Nat
  flags : ThreadFlags
  coreAffinity : Option CoreAffinity
  deadline : Option Nat
  stackLowest : Nat
  stackHighest : Nat
  link : Option Nat
  deriving DecidableEq

/-- What `create` does not write. -/
structure Leftovers where
  flags : ThreadFlags
  deadline : Option Nat
  link : Option Nat
  deriving DecidableEq

def Leftovers.none : Leftovers := ⟨0, Option.none, Option.none⟩

namespace Scheduler

def observe (config : Config) (s : Scheduler) (t : Nat) : Observed where
  state := s.stateOf t
  prio := s.prioOf t
  tid := s.tidOf t
  flags := (s.threads t).flags
  coreAffinity := if config.coreAffinity then some (s.affinityOf t) else none
  deadline := s.deadlineOf t
  stackLowest := (s.threads t).stackLowest
  stackHighest := (s.threads t).stackHighest
  link := s.threadBlocklist t

def leftovers (s : Scheduler) (t : Nat) : Leftovers :=
  ⟨(s.threads t).flags, s.deadlineOf t, s.threadBlocklist t⟩

end Scheduler

/-- The thread that the arguments of `create` describe, in a slot with these leftovers. -/
def Observed.created (config : Config) (stackStart stackLen prio : Nat)
    (affinity : Option CoreAffinity) (t : Nat) (left : Leftovers) : Observed where
  state := .running
  prio := prio
  tid := t
  flags := left.flags
  coreAffinity :=
    match config with
    | .multiCore chip true => some (affinity.getD (.noAffinity chip.cores))
    | _ => none
  deadline := left.deadline
  stackLowest := stackStart
  stackHighest := (stackStart + stackLen) / 8 * 8
  link := left.link

variable {cpu : Cpu} {s s' s₁ s₂ s₁' s₂' : Scheduler} {t stackStart stackLen prio : Nat}
  {affinity : Option CoreAffinity}

namespace Scheduler

theorem withState_observe (state : ThreadState) (r : RunQueue usizeBits schedPrioLevels threadCount)
    (q : Requests) (config : Config) :
    (s.withState t state r q).observe config t = { s.observe config t with state } := by
  simp [observe, withState, setThread, stateOf, prioOf, tidOf, deadlineOf, affinityOf]

theorem create_observe (made : s.create cpu stackStart stackLen prio affinity = some (s', t)) :
    s'.observe cpu.config t = { Observed.created cpu.config stackStart stackLen prio affinity t
      (s.leftovers t) with state := .parked } := by
  unfold create at made
  obtain ⟨tid, unused, rest⟩ := Option.bind_eq_some_iff.mp made
  split at rest
  · rename_i chip config
    cases rest
    simp [observe, Observed.created, leftovers, setThread, stateOf, prioOf, tidOf, deadlineOf,
      affinityOf, setupStack, config, Config.coreAffinity]
  · rename_i other
    cases rest
    have without : cpu.config.coreAffinity = false := by
      unfold Config.coreAffinity
      split
      · rename_i chip affinity config
        cases affinity
        · rfl
        · exact absurd config (other chip)
      · rfl
    simp only [observe, without, Observed.created, leftovers, setThread, stateOf, prioOf, tidOf,
      deadlineOf, setupStack, Function.update_self, Bool.false_eq_true, ↓reduceIte]

/-- A thread that was created is what the arguments say and what its slot had left. -/
theorem createRaw_observe
    (done : s.createRaw cpu stackStart stackLen prio affinity = .ok (s', t)) :
    s'.observe cpu.config t =
      .created cpu.config stackStart stackLen prio affinity t (s.leftovers t) := by
  obtain ⟨s₁, old, made, started⟩ := createRaw_ok done
  obtain ⟨-, r, q, rfl⟩ := setState_eq started
  rw [withState_observe, create_observe made]
  rfl

end Scheduler

theorem Observed.created_inj {config : Config} {left left' : Leftovers}
    (same : Observed.created config stackStart stackLen prio affinity t left =
      .created config stackStart stackLen prio affinity t left') : left = left' := by
  obtain ⟨flags, deadline, link⟩ := left
  obtain ⟨flags', deadline', link'⟩ := left'
  simp only [Observed.created, Observed.mk.injEq] at same
  obtain ⟨-, -, -, rfl, -, rfl, -, -, rfl⟩ := same
  rfl

/-- Two threads created alike in the same slot are alike exactly if the slot had the same leftovers,
    and one is as in a slot that was never used exactly if there were none. -/
theorem created_alike_iff
    (first : s₁.createRaw cpu stackStart stackLen prio affinity = .ok (s₁', t))
    (second : s₂.createRaw cpu stackStart stackLen prio affinity = .ok (s₂', t)) :
    (s₁'.observe cpu.config t = s₂'.observe cpu.config t ↔ s₁.leftovers t = s₂.leftovers t) ∧
      (s₁'.observe cpu.config t =
        .created cpu.config stackStart stackLen prio affinity t .none ↔ s₁.leftovers t = .none) := by
  rw [createRaw_observe first, createRaw_observe second]
  exact ⟨⟨Observed.created_inj, congrArg _⟩, ⟨Observed.created_inj, congrArg _⟩⟩

section Samples

/-- Threads 0 and 1 are created, and thread 1 runs. -/
def slotEvents : List (Nat × Event) :=
  [(0, .op (.create 0 512 1 none)), (0, .op (.create 512 512 2 none)), (0, .op .startThreading),
    (0, .op .enterPendsv), (0, .op .sched)]

/-- The thread that is created next gets the slot, with these leftovers. -/
def createdWith (t : Nat) (left : Leftovers) (sys : System) : Bool :=
  match sys.scheduler.createRaw ⟨.singleCore, 0⟩ 1024 512 2 none with
  | .ok (_, u) => u = t ∧ sys.scheduler.leftovers t = left
  | .error _ => false

theorem createdWith_ok {left : Leftovers} {sys : System} (here : createdWith t left sys = true) :
    sys.scheduler.leftovers t = left ∧
      ∃ s, sys.scheduler.createRaw ⟨.singleCore, 0⟩ 1024 512 2 none = .ok (s, t) := by
  unfold createdWith at here
  split at here
  · rename_i s u made
    obtain ⟨rfl, left⟩ := of_decide_eq_true here
    exact ⟨left, s, made⟩
  · cases here

/-- Thread 1 has exited without a trace, or was never created. -/
theorem created_alike_iff_sample : ∃ s₁ s₂ s₁' s₂' : Scheduler,
    s₁.createRaw ⟨.singleCore, 0⟩ 1024 512 2 none = .ok (s₁', 1) ∧
      s₂.createRaw ⟨.singleCore, 0⟩ 1024 512 2 none = .ok (s₂', 1) ∧
      s₁'.observe .singleCore 1 = s₂'.observe .singleCore 1 := by
  have run₁ : ∃ sys, Reachable (System.step .singleCore) (.new .singleCore) sys ∧
      createdWith 1 .none sys = true :=
    reaches_of_check (slotEvents ++ [(0, .op .exit)]) (by decide +kernel)
  have run₂ : ∃ sys, Reachable (System.step .singleCore) (.new .singleCore) sys ∧
      createdWith 1 .none sys = true :=
    reaches_of_check [(0, .op (.create 0 512 1 none))] (by decide +kernel)
  obtain ⟨sys₁, reached₁, here₁⟩ := run₁
  obtain ⟨sys₂, reached₂, here₂⟩ := run₂
  obtain ⟨left₁, s₁, made₁⟩ := createdWith_ok here₁
  obtain ⟨left₂, s₂, made₂⟩ := createdWith_ok here₂
  exact ⟨_, _, s₁, s₂, made₁, made₂,
    (created_alike_iff made₁ made₂).1.mpr (left₁.trans left₂.symm)⟩

/-- The thread that is created after thread 1 has exited has the flag that was set for thread 1, and
    its deadline. -/
theorem created_with_flags_of_other : ∃ sys₁ sys₂ s₁ s₂,
    Reachable (System.step .singleCore) (.new .singleCore) sys₁ ∧
      Reachable (System.step .singleCore) (.new .singleCore) sys₂ ∧
      sys₁.scheduler.createRaw ⟨.singleCore, 0⟩ 1024 512 2 none = .ok (s₁, 1) ∧
      sys₂.scheduler.createRaw ⟨.singleCore, 0⟩ 1024 512 2 none = .ok (s₂, 1) ∧
      (s₁.observe .singleCore 1).flags = 0 ∧ (s₁.observe .singleCore 1).deadline = none ∧
      (s₂.observe .singleCore 1).flags = 4 ∧ (s₂.observe .singleCore 1).deadline = some 100 := by
  have run₁ : ∃ sys, Reachable (System.step .singleCore) (.new .singleCore) sys ∧
      createdWith 1 .none sys = true :=
    reaches_of_check (slotEvents ++ [(0, .op .exit)]) (by decide +kernel)
  have run₂ : ∃ sys, Reachable (System.step .singleCore) (.new .singleCore) sys ∧
      createdWith 1 ⟨4, some 100, none⟩ sys = true :=
    reaches_of_check (slotEvents ++ [(0, .op (.flagSet 1 4)), (0, .op (.sleepUntil 100 [])),
      (0, .op .enterPendsv), (0, .op .sched), (0, .op (.unpark 1)), (0, .op .enterPendsv),
      (0, .op .sched), (0, .op .exit)]) (by decide +kernel)
  obtain ⟨sys₁, reached₁, here₁⟩ := run₁
  obtain ⟨sys₂, reached₂, here₂⟩ := run₂
  obtain ⟨left₁, s₁, made₁⟩ := createdWith_ok here₁
  obtain ⟨left₂, s₂, made₂⟩ := createdWith_ok here₂
  have first := createRaw_observe made₁
  have second := createRaw_observe made₂
  rw [left₁] at first
  rw [left₂] at second
  exact ⟨sys₁, sys₂, s₁, s₂, reached₁, reached₂, made₁, made₂, congrArg Observed.flags first,
    congrArg Observed.deadline first, congrArg Observed.flags second,
    congrArg Observed.deadline second⟩

end Samples

end ArielOS
