import ArielOS.Threads.Arch.SetupStack
import ArielOS.Threads.Arch.SwitchingSpec

namespace ArielOS.CortexM.Switching

open Machine Scheduler

variable {v : Variant} {config : Config} {sys sys' : Switching} {i : Nat × Action} {core t u : Nat}

/-- What a step must not do for the registers of all threads to be kept: create a thread in a slot
    that a core still works with, or take a thread whose registers are somewhere else. -/
structure Careful (i : Nat × Action) (sys sys' : Switching) : Prop where
  creates : ∀ e, i.2 = .event e → e.creates = true → ∀ t,
    sys.system.scheduler.getUnused = some t →
      (∀ c, sys.currentThreads c ≠ some t) ∧ ∀ c u, sys.phase c ≠ .saving t u
  takes : i.2 = .sched → ∀ u, sys'.currentThreads i.1 = some u →
    (∀ c ≠ i.1, sys.currentThreads c ≠ some u) ∧ (∀ c w, sys.phase c ≠ .saving u w) ∧
      (sys.currentThreads i.1 = none → ∀ r, sys.own u ≠ .ran r)

theorem executing_some (executes : sys.executing config core = some t) :
    sys.phase core = .thread ∧ sys.currentThreads core = some t := by
  unfold executing at executes
  split at executes
  · rename_i phase
    exact ⟨phase, Scheduler.executing_own executes⟩
  · cases executes

/-- What each step does. -/
inductive Stepped (v : Variant) (config : Config) (core : Nat) (sys : Switching) :
    Action → Switching → Prop
  | code {t : Nat} {r : Registers} (executes : sys.executing config core = some t)
      (possible : r.Possible v) :
    Stepped v config core sys (.code r) { sys with
      registers := Function.update sys.registers core r
      own := Function.update sys.own t (.ran r) }
  | event {e : Event} {system : System} (other : e.isSched = false)
      (ran : System.step config (core, e) sys.system = .ok system) :
    Stepped v config core sys (.event e) (setupNew e system sys)
  | sched {system : System} (phase : sys.phase core = .thread)
      (ran : System.step config (core, .op .sched) sys.system = .ok system) :
    Stepped v config core sys .sched (exchange v core (sys.currentThreads core)
      (system.scheduler.currentThreads core) { sys with system })
  | save {t u : Nat} (phase : sys.phase core = .saving t u) :
    Stepped v config core sys .save { sys with
      data := Function.update sys.data t ((sys.registers core).save v (sys.data t))
      phase := Function.update sys.phase core (.loading u)
      left := Function.update sys.left t (some (sys.registers core).excReturn) }
  | load {u : Nat} (phase : sys.phase core = .loading u) :
    Stepped v config core sys .load { sys with
      registers := Function.update sys.registers core ((sys.registers core).restore v (sys.data u))
      phase := Function.update sys.phase core .thread
      own := Function.update sys.own u
        ((sys.own u).started ((sys.registers core).restore v (sys.data u))) }

theorem step_ok {action : Action} (done : step v config (core, action) sys = .ok sys') :
    Stepped v config core sys action sys' := by
  unfold step at done
  cases action with
  | code r =>
    dsimp only at done
    split at done
    · rename_i t executes
      split at done
      · rename_i possible
        cases done
        exact .code executes possible
      · cases done
    · cases done
  | event e =>
    dsimp only at done
    split at done
    · cases done
    · rename_i enabled
      obtain ⟨system, ran, rest⟩ := bind_ok_iff.mp done
      cases rest
      have other : e.isSched = false := by
        cases isSched : e.isSched with
        | false => rfl
        | true => exact absurd (Or.inl isSched) enabled
      exact .event other ran
  | sched =>
    dsimp only at done
    split at done
    · cases done
    · rename_i phase
      obtain ⟨system, ran, rest⟩ := bind_ok_iff.mp done
      cases rest
      exact .sched (not_not.mp phase) ran
  | save =>
    dsimp only at done
    split at done
    · rename_i t u phase
      cases done
      exact .save phase
    · cases done
  | load =>
    dsimp only at done
    split at done
    · rename_i u phase
      cases done
      exact .load phase
    · cases done

theorem setupNew_system (e : Event) (system : System) : (setupNew e system sys).system = system := by
  unfold setupNew
  split <;> rfl

/-- An event leaves the threads on the cores. -/
theorem event_kept {e : Event} {system : System} (kept : Kept v config sys)
    (careful : Careful (core, .event e) sys sys') (other : e.isSched = false)
    (done : System.step config (core, e) sys.system = .ok system) :
    Kept v config (setupNew e system sys) := by
  have current : system.scheduler.currentThreads = sys.currentThreads :=
    Event.run_currentThreads other (System.step_ok done).2.2
  cases creates : e.creates with
  | false =>
    have made : setupNew e system sys = { sys with system } := by
      unfold setupNew
      rw [creates]
    exact made ▸ kept.congr current
  | true =>
    cases unused : sys.system.scheduler.getUnused with
    | none =>
      have made : setupNew e system sys = { sys with system } := by
        unfold setupNew
        rw [unused]
        split <;> trivial
      exact made ▸ kept.congr current
    | some t =>
      obtain ⟨off, unsaved⟩ := careful.creates e rfl creates t unused
      exact kept.create e unused off unsaved current creates

theorem exchange_system (before after : Option Nat) :
    (exchange v core before after sys).system = sys.system := by
  unfold exchange
  split
  · split <;> rfl
  · rfl
  · rfl

theorem exchange_currentThreads (before after : Option Nat) :
    (exchange v core before after sys).currentThreads = sys.currentThreads :=
  congrArg (fun system : System => system.scheduler.currentThreads) (exchange_system before after)

theorem step_sched {system system' : System}
    (done : System.step config (core, .op .sched) system = .ok system') :
    ∃ s, system.scheduler.sched ⟨config, core⟩ = .ok s ∧ system' = { system with scheduler := s } := by
  obtain ⟨-, -, ran⟩ := System.step_ok done
  exact Event.run_op ran

/-- `sched` changes the thread on its own core only. -/
theorem step_sched_currentThreads {system : System}
    (done : System.step config (core, .op .sched) sys.system = .ok system) :
    system.scheduler.currentThreads = sys.currentThreads ∨
      ∃ t, system.scheduler.currentThreads = Function.update sys.currentThreads core (some t) := by
  obtain ⟨s, scheduled, rfl⟩ := step_sched done
  exact Scheduler.sched_currentThreads scheduled

theorem sched_kept {system : System} (kept : Kept v config sys) (phase : sys.phase core = .thread)
    (careful : Careful (core, .sched) sys
      (exchange v core (sys.currentThreads core) (system.scheduler.currentThreads core)
        { sys with system }))
    (done : System.step config (core, .op .sched) sys.system = .ok system) :
    Kept v config (exchange v core (sys.currentThreads core)
      (system.scheduler.currentThreads core) { sys with system }) := by
  have bound := (System.step_ok done).1
  have changes := step_sched_currentThreads done
  have takes := careful.takes rfl
  rw [exchange_currentThreads] at takes
  have becomes : ∀ {u}, system.scheduler.currentThreads core = some u →
      system.scheduler.currentThreads = Function.update sys.currentThreads core (some u) := by
    intro u after
    rcases changes with same | ⟨w, changed⟩
    · rw [same] at after ⊢
      rw [← after, Function.update_eq_self]
    · rw [changed, Function.update_self] at after
      rw [changed, after]
  cases after : system.scheduler.currentThreads core with
  | none =>
    have unchanged : system.scheduler.currentThreads = sys.currentThreads := by
      rcases changes with same | ⟨w, changed⟩
      · exact same
      · rw [changed, Function.update_self] at after
        cases after
    have idle : exchange v core (sys.currentThreads core) none { sys with system } =
        { sys with system } := by
      unfold exchange
      split <;> trivial
    rw [idle]
    exact kept.congr unchanged
  | some u =>
    obtain ⟨off, unsaved, new⟩ := takes u after
    cases before : sys.currentThreads core with
    | none =>
      refine kept.starts bound phase before (becomes after) off unsaved (new before) ?_
      intro _
      rfl
    | some t =>
      by_cases same : t = u
      · have unchanged : system.scheduler.currentThreads = sys.currentThreads := by
          rw [becomes after, ← same, ← before, Function.update_eq_self]
        have stays : exchange v core (some t) (some u) { sys with system } =
            { sys with
              system
              registers := Function.update sys.registers core
                (Outcome.registers v (sys.registers core) sys.data .continues) } := if_pos same
        rw [stays]
        exact (kept.continues phase before).congr unchanged
      · have changes : exchange v core (some t) (some u) { sys with system } =
            { sys with
              system
              data := Function.update sys.data t { sys.data t with sp := (sys.registers core).psp }
              registers := Function.update sys.registers core
                { sys.registers core with psp := (sys.data u).sp }
              phase := Function.update sys.phase core (.saving t u) } := if_neg same
        rw [changes]
        exact kept.switches phase before same (becomes after) off unsaved

theorem step_kept (kept : Kept v config sys) (careful : Careful i sys sys')
    (done : step v config i sys = .ok sys') : Kept v config sys' := by
  obtain ⟨core, action⟩ := i
  cases step_ok done with
  | code executes possible =>
    obtain ⟨phase, current⟩ := executing_some executes
    exact kept.code phase current possible
  | event other ran => exact event_kept kept careful other ran
  | sched phase ran => exact sched_kept kept phase careful ran
  | save phase => exact kept.save phase
  | load phase => exact kept.load phase

/-- The scheduler's part of a step. -/
theorem step_system (done : step v config i sys = .ok sys') :
    sys'.system = sys.system ∨ ∃ e, (i.2 = .event e ∨ i.2 = .sched ∧ e = .op .sched) ∧
      System.step config (i.1, e) sys.system = .ok sys'.system := by
  obtain ⟨core, action⟩ := i
  cases step_ok done with
  | code | save | load => exact Or.inl rfl
  | event other ran =>
    rw [setupNew_system]
    exact Or.inr ⟨_, Or.inl rfl, ran⟩
  | sched phase ran =>
    rw [exchange_system]
    exact Or.inr ⟨_, Or.inr ⟨rfl, rfl⟩, ran⟩

/-- Some core runs a thread once any thread has run. -/
def Booted (sys : Switching) : Prop :=
  ∀ t r, sys.own t = .ran r → ∃ c u, sys.currentThreads c = some u

theorem step_booted (kept : Kept v config sys) (booted : Booted sys)
    (done : step v config i sys = .ok sys') : Booted sys' := by
  obtain ⟨core, action⟩ := i
  cases step_ok done with
  | code executes possible => exact fun _ _ _ => ⟨core, _, (executing_some executes).2⟩
  | @event e system other ran =>
    have current : (setupNew e system sys).currentThreads = sys.currentThreads := by
      unfold currentThreads
      rw [setupNew_system]
      exact Event.run_currentThreads other (System.step_ok ran).2.2
    intro t r ran
    rw [current]
    unfold setupNew at ran
    split at ran
    · rename_i u _ _
      dsimp only at ran
      by_cases same : t = u
      · rw [same, Function.update_self] at ran
        cases ran
      · rw [Function.update_of_ne same] at ran
        exact booted t r ran
    · exact booted t r ran
  | @sched system phase ran =>
    intro t r ran'
    rw [exchange_currentThreads]
    rcases step_sched_currentThreads ran with same | ⟨u, changed⟩
    · have after : system.scheduler.currentThreads core = sys.currentThreads core :=
        congrFun same core
      have kept : ∀ b, (exchange v core b b { sys with system }).own = sys.own := by
        intro b
        cases b with
        | none => rfl
        | some w => simp [exchange]
      rw [after, kept] at ran'
      obtain ⟨c, u, own⟩ := booted t r ran'
      exact ⟨c, u, (congrFun same c).trans own⟩
    · exact ⟨core, u, by rw [currentThreads, changed, Function.update_self]⟩
  | save phase => exact booted
  | load phase => exact fun _ _ _ => ⟨core, _, (kept.arriving (congrArg Phase.next phase)).1⟩

section SingleCore

/-- No core of the chip still works with the slot. -/
def Unattached (config : Config) (sys : Switching) (t : Nat) : Prop :=
  ∀ c < config.coreCount, sys.currentThreads c ≠ some t ∧ (sys.phase c).current ≠ some t

/-- The runs in which threads are created in such slots only. -/
def CreatesUnattached (config : Config) (i : Nat × Action) (sys : Switching) : Prop :=
  match i.2 with
  | .event e => e.creates = true → ∀ t, sys.system.scheduler.getUnused = some t →
    Unattached config sys t
  | _ => True

theorem Kept.phase_onCore (kept : Kept v config sys) {c : Nat} (phase : sys.phase c = .saving t u) :
    c < config.coreCount :=
  kept.onCore (kept.arriving (congrArg Phase.next phase)).1

theorem Unattached.everywhere (unattached : Unattached config sys t) (kept : Kept v config sys) :
    (∀ c, sys.currentThreads c ≠ some t) ∧ ∀ c u, sys.phase c ≠ .saving t u := by
  refine ⟨fun c own => ?_, fun c u phase => ?_⟩
  · exact (unattached c (kept.onCore own)).1 own
  · exact (unattached c (kept.phase_onCore phase)).2 (congrArg Phase.current phase)

theorem Kept.creates_careful (kept : Kept v config sys) (allowed : CreatesUnattached config i sys)
    (e : Event) (event : i.2 = .event e) (creates : e.creates = true) (t : Nat)
    (unused : sys.system.scheduler.getUnused = some t) :
    (∀ c, sys.currentThreads c ≠ some t) ∧ ∀ c u, sys.phase c ≠ .saving t u := by
  have unattached : Unattached config sys t := by
    unfold CreatesUnattached at allowed
    rw [event] at allowed
    exact allowed creates t unused
  exact unattached.everywhere kept

theorem careful_singleCore (kept : Kept v .singleCore sys) (booted : Booted sys)
    (allowed : CreatesUnattached .singleCore i sys) (done : step v .singleCore i sys = .ok sys') :
    Careful i sys sys' where
  creates := kept.creates_careful allowed
  takes := by
    obtain ⟨core, action⟩ := i
    rintro rfl u after
    dsimp only at after ⊢
    obtain ⟨phase, bound⟩ : sys.phase core = .thread ∧ core < Config.singleCore.coreCount := by
      cases step_ok done with
      | sched phase ran => exact ⟨phase, (System.step_ok ran).1⟩
    have alone : ∀ c < Config.singleCore.coreCount, c = core := by
      simp only [Config.coreCount] at bound ⊢
      omega
    refine ⟨fun c other own => other (alone c (kept.onCore own)), fun c w here => ?_, ?_⟩
    · rw [alone c (kept.phase_onCore here), phase] at here
      cases here
    · intro idle r ran
      obtain ⟨c, w, own⟩ := booted u r ran
      rw [alone c (kept.onCore own), idle] at own
      cases own

theorem reaches_kept {registers : Nat → Registers}
    (reached : Reaches (step v .singleCore) (CreatesUnattached .singleCore)
      (new .singleCore registers) sys) : Kept v .singleCore sys := by
  have both : Kept v .singleCore sys ∧ Booted sys := by
    refine reached.invariant (fun sys => Kept v .singleCore sys ∧ Booted sys) ?_ ?_
    · exact ⟨kept_new registers, fun _ _ ran => by cases ran⟩
    · intro s i next ⟨kept, booted⟩ allowed done
      have careful := careful_singleCore kept booted allowed done
      exact ⟨step_kept kept careful done, step_booted kept booted done⟩
  exact both.1

/-- A thread that goes on finds its own registers. -/
theorem Kept.executing (kept : Kept v config sys) (executes : sys.executing config core = some t) :
    ∃ r, sys.own t = .ran r ∧ (sys.registers core).Same v r :=
  have ⟨phase, current⟩ := executing_some executes
  kept.running phase current

/-- Whenever the core executes the code of a thread, it has the registers with which that code was
    last interrupted. -/
theorem registers_kept {registers : Nat → Registers}
    (reached : Reaches (step v .singleCore) (CreatesUnattached .singleCore)
      (new .singleCore registers) sys) (executes : sys.executing .singleCore core = some t) :
    ∃ r, sys.own t = .ran r ∧ (sys.registers core).Same v r :=
  (reaches_kept reached).executing executes

section Samples

instance (sys : Switching) (t : Nat) : Decidable (Unattached config sys t) :=
  inferInstanceAs (Decidable (∀ c < config.coreCount,
    sys.currentThreads c ≠ some t ∧ (sys.phase c).current ≠ some t))

instance (config : Config) : (i : Nat × Action) → (sys : Switching) →
    Decidable (CreatesUnattached config i sys)
  | (_, .event _), sys =>
    have : Decidable (∀ t, sys.system.scheduler.getUnused = some t → Unattached config sys t) :=
      decidableForallSome _
    inferInstanceAs (Decidable (_ → _))
  | (_, .code _), _ | (_, .sched), _ | (_, .save), _ | (_, .load), _ => isTrue trivial

def zeroed (_ : Nat) : Registers := ⟨0, fun _ => 0, fun _ => 0, excReturnThreadNoFpu⟩

def used (psp excReturn : WordMemory.Word) : Registers := ⟨psp, fun _ => 7, fun _ => 8, excReturn⟩

def happens (core : Nat) (events : List Op) : List (Nat × Action) :=
  events.map fun o => (core, .event (.op o))

/-- The core enters PendSV and leaves it in another thread. -/
def changes (core : Nat) : List (Nat × Action) :=
  happens core [.enterPendsv] ++ [(core, .sched), (core, .save), (core, .load)]

/-- Thread 1 starts, uses the FPU and lets thread 0 run. -/
def firstTurns (turn : Op) : List (Nat × Action) :=
  happens 0 [.create 0 1024 1 none, .create 1024 1024 3 none, .startThreading, .enterPendsv] ++
    [(0, .sched), (0, .code (used 1900 0xFFFFFFED))] ++ happens 0 [turn] ++ changes 0 ++
    [(0, .code (zeroed 0))]

theorem registers_kept_sample : ∃ (sys : Switching) (r : Registers), sys.executing .singleCore 0 = some 1 ∧
    sys.own 1 = .ran r ∧ (sys.registers 0).Same .armv7mEabihf r := by
  have run : ∃ sys, Reaches (step .armv7mEabihf .singleCore) (CreatesUnattached .singleCore)
      (new .singleCore zeroed) sys ∧ (sys.executing .singleCore 0 == some 1) = true :=
    reaches_of_check (firstTurns .park ++ happens 0 [.unpark 1] ++ changes 0) (by decide +kernel)
  obtain ⟨sys, reached, checked⟩ := run
  have executes : sys.executing .singleCore 0 = some 1 := by simpa using checked
  obtain ⟨r, ran, same⟩ := registers_kept reached executes
  exact ⟨sys, r, executes, ran, same⟩

end Samples

end SingleCore

section MultiCore

open MultiCore

variable {chip : Chip} {affinity : Bool}

/-- A thread that any core may take. -/
def Available (chip : Chip) (s : Scheduler) (t : Nat) : Prop :=
  s.stateOf t = .running ∧ LeftCores chip s t

/-- The registers of the thread are in its `ThreadData`, as the core that takes it assumes. A core
    without a current thread assumes a thread that has never run. -/
def Settled (chip : Chip) (core : Nat) (sys : Switching) (t : Nat) : Prop :=
  (∀ c < chip.cores, (sys.phase c).current ≠ some t) ∧
    (sys.currentThreads core = none → (sys.own t).hasRun = false)

/-- The runs in which threads become ready and are created only when they have left their cores. -/
def WakesUnattached (chip : Chip) (affinity : Bool) (i : Nat × Action) (sys : Switching) : Prop :=
  CreatesUnattached (.multiCore chip affinity) i sys ∧
    match i.2 with
    | .event e => WakesOffCores chip affinity (i.1, e) sys.system
    | _ => True

/-- The runs of these in which cores run `sched` only while the threads that they may take are
    settled. -/
def TakesSettled (chip : Chip) (affinity : Bool) (i : Nat × Action) (sys : Switching) : Prop :=
  WakesUnattached chip affinity i sys ∧ (i.2 = .sched →
    ∀ t < threadCount, Available chip sys.system.scheduler t → Settled chip i.1 sys t)

theorem reaches_system {registers : Nat → Registers}
    (reached : Reaches (step v (.multiCore chip affinity)) (TakesSettled chip affinity)
      (new (.multiCore chip affinity) registers) sys) :
    Reaches (System.step (.multiCore chip affinity)) (WakesOffCores chip affinity)
      (.new (.multiCore chip affinity)) sys.system := by
  induction reached with
  | init => exact .init
  | next i _ allowed done ih =>
    rcases step_system done with same | ⟨e, event | ⟨-, rfl⟩, ran⟩
    · exact same ▸ ih
    · have permitted := allowed.1.2
      rw [event] at permitted
      exact ih.next (i.1, e) permitted ran
    · exact ih.next (i.1, .op .sched) trivial ran

theorem careful_multiCore (kept : Kept v (.multiCore chip affinity) sys)
    (reached : Reaches (System.step (.multiCore chip affinity)) (WakesOffCores chip affinity)
      (.new (.multiCore chip affinity)) sys.system)
    (allowed : TakesSettled chip affinity i sys)
    (done : step v (.multiCore chip affinity) i sys = .ok sys') : Careful i sys sys' where
  creates := kept.creates_careful allowed.1.1
  takes := by
    obtain ⟨core, action⟩ := i
    rintro rfl u after
    have settled := allowed.2 rfl
    dsimp only at after settled ⊢
    cases step_ok done with
    | sched phase ran =>
      rw [exchange_currentThreads] at after
      obtain ⟨named, L, apart⟩ := reaches_exclusive reached
      obtain ⟨s, scheduled, rfl⟩ := step_sched ran
      obtain ⟨-, r, n, -, ⟨q, member⟩, -, rfl⟩ :=
        sched_takes named apart.represents (fun c p _ here => apart.elsewhere p here) scheduled
      obtain rfl : n = u := by
        dsimp only [currentThreads] at after
        rw [Function.update_self] at after
        exact Option.some.inj after
      rcases mem_readded.mp member with queued | ⟨own, -⟩
      · have off : OffCore sys.system.scheduler n := apart.offCore queued
        have available : Available chip sys.system.scheduler n :=
          ⟨(apart.queued.mp queued).1, fun c _ => off c⟩
        obtain ⟨unsaved, new⟩ :=
          settled n (apart.represents.queues.thread_lt queued) available
        refine ⟨fun c _ => off c, fun c w here => ?_, fun idle r ran => ?_⟩
        · exact unsaved c (kept.phase_onCore here) (congrArg Phase.current here)
        · have fresh := new idle
          rw [ran] at fresh
          cases fresh
      · refine ⟨fun c other twice => other (kept.distinct twice own), fun c w here => ?_, ?_⟩
        · exact kept.away here core own
        · exact fun idle => absurd (own.symm.trans idle) (Option.some_ne_none n)

theorem reaches_kept_multiCore {registers : Nat → Registers}
    (reached : Reaches (step v (.multiCore chip affinity)) (TakesSettled chip affinity)
      (new (.multiCore chip affinity) registers) sys) : Kept v (.multiCore chip affinity) sys := by
  induction reached with
  | init => exact kept_new registers
  | next i before allowed done ih =>
    exact step_kept ih (careful_multiCore ih (reaches_system before) allowed done) done

section Samples

instance (sys : Switching) : Decidable (Available chip sys.system.scheduler t) :=
  inferInstanceAs (Decidable (_ ∧ _))

instance (sys : Switching) : Decidable (Settled chip core sys t) :=
  inferInstanceAs (Decidable ((∀ c < chip.cores, (sys.phase c).current ≠ some t) ∧
    (sys.currentThreads core = none → (sys.own t).hasRun = false)))

instance : (i : Nat × Action) → (sys : Switching) → Decidable (WakesUnattached chip affinity i sys)
  | (_, .event _), _ => inferInstanceAs (Decidable (CreatesUnattached .. ∧ WakesOffCores ..))
  | (_, .code _), _ | (_, .sched), _ | (_, .save), _ | (_, .load), _ => isTrue ⟨trivial, trivial⟩

instance : (i : Nat × Action) → (sys : Switching) → Decidable (TakesSettled chip affinity i sys)
  | (core, .sched), sys =>
    decidable_of_iff (∀ t < threadCount, Available chip sys.system.scheduler t →
      Settled chip core sys t)
      ⟨fun settled => ⟨⟨trivial, trivial⟩, fun _ => settled⟩, fun allowed => allowed.2 rfl⟩
  | (core, .event e), sys =>
    decidable_of_iff (WakesUnattached chip affinity (core, .event e) sys)
      ⟨fun allowed => ⟨allowed, fun same => by cases same⟩, fun allowed => allowed.1⟩
  | (_, .code _), _ | (_, .save), _ | (_, .load), _ =>
    isTrue ⟨⟨trivial, trivial⟩, fun same => by cases same⟩

/-- The idle threads 0 and 1 and two threads of the same priority are created, then core 0 starts
    with thread 2. -/
def coreZeroStarts : List (Nat × Action) :=
  [(0, .event (.setupIdleThread 0 512)), (0, .event (.setupIdleThread 512 512))] ++
    happens 0 [.create 1024 512 5 none, .create 2048 512 5 none, .startThreading, .enterPendsv] ++
    [(0, .sched), (0, .code (used 1500 excReturnThreadNoFpu))]

/-- Core 1 starts with thread 3. -/
def bothStart : List (Nat × Action) :=
  coreZeroStarts ++ happens 1 [.startThreading, .enterPendsv] ++
    [(1, .sched), (1, .code (used 2500 excReturnThreadNoFpu))]

/-- Core 1 executes thread 2 with registers other than its own ones. -/
def lost (sys : Switching) : Bool :=
  sys.executing rp2040 1 == some 2 && (sys.registers 1).high (Fin.last 7) == 0 &&
    match sys.own 2 with
    | .unused | .fresh .. => false
    | .ran r => r.high (Fin.last 7) == 7

theorem lost_registers (checked : lost sys = true) : ∃ r, sys.executing rp2040 1 = some 2 ∧
    sys.own 2 = .ran r ∧ ¬ (sys.registers 1).Same .armv6m r := by
  simp only [lost, Bool.and_eq_true, beq_iff_eq] at checked
  obtain ⟨⟨executes, zero⟩, seven⟩ := checked
  cases own : sys.own 2 with
  | ran r =>
    rw [own] at seven
    refine ⟨r, executes, rfl, fun same => ?_⟩
    have equal := congrFun same.high (Fin.last 7)
    rw [zero, beq_iff_eq.mp seven] at equal
    cases equal
  | unused | fresh => rw [own] at seven; cases seven

/-- Core 1 takes thread 2 between `sched` and the saving of its registers on core 0. -/
theorem taken_before_saved : ∃ (sys : Switching) (r : Registers),
    Reaches (step .armv6m rp2040) (WakesUnattached (Rp.chip .rp2040) false) (new rp2040 zeroed) sys ∧
      sys.executing rp2040 1 = some 2 ∧ sys.own 2 = .ran r ∧
      ¬ (sys.registers 1).Same .armv6m r := by
  have run : ∃ sys, Reaches (step .armv6m rp2040) (WakesUnattached (Rp.chip .rp2040) false)
      (new rp2040 zeroed) sys ∧ lost sys = true :=
    reaches_of_check (bothStart ++ happens 0 [.create 3072 512 5 none, .yieldSame, .enterPendsv] ++
      [(0, .sched)] ++ happens 1 [.yieldSame] ++ changes 1) (by decide +kernel)
  obtain ⟨sys, reached, checked⟩ := run
  obtain ⟨r, wrong⟩ := lost_registers checked
  exact ⟨sys, r, reached, wrong⟩

/-- Thread 2 has run on core 0 when core 1 takes its first thread. -/
theorem taken_first : ∃ (sys : Switching) (r : Registers),
    Reaches (step .armv6m rp2040) (WakesUnattached (Rp.chip .rp2040) false) (new rp2040 zeroed) sys ∧
      sys.executing rp2040 1 = some 2 ∧ sys.own 2 = .ran r ∧
      ¬ (sys.registers 1).Same .armv6m r := by
  have run : ∃ sys, Reaches (step .armv6m rp2040) (WakesUnattached (Rp.chip .rp2040) false)
      (new rp2040 zeroed) sys ∧ lost sys = true :=
    reaches_of_check (coreZeroStarts ++ happens 0 [.yieldSame] ++ changes 0 ++
      happens 1 [.startThreading, .enterPendsv] ++ [(1, .sched)]) (by decide +kernel)
  obtain ⟨sys, reached, checked⟩ := run
  obtain ⟨r, wrong⟩ := lost_registers checked
  exact ⟨sys, r, reached, wrong⟩

end Samples

end MultiCore

end ArielOS.CortexM.Switching
