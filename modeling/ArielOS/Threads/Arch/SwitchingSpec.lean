import ArielOS.Threads.Arch.Switching

namespace ArielOS.CortexM

open Machine Scheduler

variable {v : Variant} {config : Config} {sys sys' : Switching} {core t u : Nat}
  {r r' own : Registers} {d : ThreadData}

/-- The registers are the thread's own ones. Without an active floating-point context, it has no
    floating-point registers. -/
structure Registers.Same (v : Variant) (r own : Registers) : Prop where
  psp : r.psp = own.psp
  high : r.high = own.high
  excReturn : r.excReturn = own.excReturn
  float : savesFloat v own.excReturn → r.float = own.float

/-- The `ThreadData` holds the thread's own registers. -/
structure Stored (v : Variant) (d : ThreadData) (own : Registers) : Prop where
  sp : d.sp = own.psp
  highRegs : ∀ i, d.highRegs (slot v i) = own.high i
  excReturn : v.eabihf → d.excReturn = own.excReturn
  float : Registers.savesFloat v own.excReturn → d.highRegsFloat = own.float

theorem Registers.Same.refl (v : Variant) (r : Registers) : r.Same v r :=
  ⟨rfl, rfl, rfl, fun _ => rfl⟩

/-- Saving stores the thread's own registers, behind the stack pointer that `sched` stored. -/
theorem stored_save (high : r.high = own.high) (excReturn : r.excReturn = own.excReturn)
    (float : Registers.savesFloat v own.excReturn → r.float = own.float) (sp : d.sp = own.psp) :
    Stored v (r.save v d) own where
  sp := sp
  highRegs := by
    intro i
    show r.high (slot v (slot v i)) = own.high i
    rw [slot_slot, high]
  excReturn := by
    intro has
    show (if v.eabihf then r.excReturn else d.excReturn) = own.excReturn
    rw [if_pos has, excReturn]
  float := by
    intro saves
    show (if Registers.savesFloat v r.excReturn then r.float else d.highRegsFloat) = own.float
    rw [excReturn, if_pos saves, float saves]

/-- Restoring puts them back. -/
theorem restore_same (stored : Stored v d own) (psp : r.psp = d.sp) (possible : own.Possible v) :
    (r.restore v d).Same v own where
  psp := psp.trans stored.sp
  high := by
    funext i
    exact stored.highRegs i
  excReturn := by
    show (if v.eabihf then d.excReturn else excReturnThreadNoFpu) = own.excReturn
    by_cases has : v.eabihf = true
    · rw [if_pos has, stored.excReturn has]
    · rw [if_neg has, possible (Bool.eq_false_of_not_eq_true has)]
  float := by
    intro saves
    have has : v.eabihf = true := by
      unfold Registers.savesFloat at saves
      exact (Bool.and_eq_true ..).mp saves |>.1
    show (if Registers.savesFloat v d.excReturn then d.highRegsFloat else r.float) = own.float
    rw [stored.excReturn has, if_pos saves, stored.float saves]

namespace Switching

/-- No core holds registers of the thread. -/
structure Resting (sys : Switching) (t : Nat) : Prop where
  current : ∀ c, sys.currentThreads c = some t → sys.phase c ≠ .thread
  saved : ∀ c u, sys.phase c ≠ .saving t u

/-- Each thread's own registers are on the core that runs it, or in its `ThreadData`. -/
structure Kept (v : Variant) (config : Config) (sys : Switching) : Prop where
  onCore : ∀ {c t}, sys.currentThreads c = some t → c < config.coreCount
  distinct : ∀ {c d t}, sys.currentThreads c = some t → sys.currentThreads d = some t → c = d
  possible : ∀ {t r}, sys.own t = .ran r → r.Possible v
  running : ∀ {c t}, sys.phase c = .thread → sys.currentThreads c = some t →
    ∃ r, sys.own t = .ran r ∧ (sys.registers c).Same v r
  saving : ∀ {c t u}, sys.phase c = .saving t u → t ≠ u ∧ ∃ r, sys.own t = .ran r ∧
    { sys.registers c with psp := (sys.data t).sp }.Same v r
  away : ∀ {c t u}, sys.phase c = .saving t u → ∀ d, sys.currentThreads d ≠ some t
  single : ∀ {c d t u w}, sys.phase c = .saving t u → sys.phase d = .saving t w → c = d
  arriving : ∀ {c u}, (sys.phase c).next = some u →
    sys.currentThreads c = some u ∧ (sys.registers c).psp = (sys.data u).sp
  stored : ∀ {t r}, sys.own t = .ran r → sys.Resting t → Stored v (sys.data t) r
  fresh : ∀ {t lowest highest}, sys.own t = .fresh lowest highest →
    (sys.data t).sp = BitVec.ofNat 32 (highest - 32)
  left : v.eabihf → ∀ t, (sys.data t).excReturn = (sys.left t).getD excReturnThreadNoFpu

theorem kept_new (registers : Nat → Registers) : Kept v config (new config registers) where
  onCore := fun own => by cases own
  distinct := fun own => by cases own
  possible := fun ran => by cases ran
  running := fun _ own => by cases own
  saving := fun phase => by cases phase
  away := fun phase => by cases phase
  single := fun phase => by cases phase
  arriving := fun next => by cases next
  stored := fun ran => by cases ran
  fresh := fun fresh => by cases fresh
  left := fun _ _ => rfl

theorem started_ran (first : Registers) (own : Own) :
    ∃ r, own.started first = .ran r ∧ (own = .ran r ∨ r = first) := by
  cases own with
  | ran r => exact ⟨r, rfl, Or.inl rfl⟩
  | unused | fresh => exact ⟨first, rfl, Or.inr rfl⟩

namespace Kept

variable (kept : Kept v config sys)
include kept

theorem congr {system : System}
    (current : system.scheduler.currentThreads = sys.currentThreads) :
    Kept v config { sys with system } := by
  have same : ({ sys with system } : Switching).currentThreads = sys.currentThreads := current
  have resting : ∀ {t}, Resting { sys with system } t → sys.Resting t :=
    fun rests => ⟨same ▸ rests.current, rests.saved⟩
  exact ⟨same ▸ kept.onCore, same ▸ kept.distinct, kept.possible, same ▸ kept.running, kept.saving,
    same ▸ kept.away, kept.single, same ▸ kept.arriving,
    fun ran rests => kept.stored ran (resting rests), kept.fresh, kept.left⟩

/-- The code of the thread that runs on the core changes its registers. -/
theorem code (phase : sys.phase core = .thread) (current : sys.currentThreads core = some t)
    (possible : r.Possible v) :
    Kept v config { sys with
      registers := Function.update sys.registers core r
      own := Function.update sys.own t (.ran r) } where
  onCore := kept.onCore
  distinct := kept.distinct
  possible := by
    intro w r' ran
    dsimp only at ran
    by_cases same : w = t
    · rw [same, Function.update_self] at ran
      cases ran
      exact possible
    · rw [Function.update_of_ne same] at ran
      exact kept.possible ran
  running := by
    intro c w here own
    dsimp only at here ⊢
    by_cases same : c = core
    · obtain rfl : w = t := Option.some.inj ((same ▸ own).symm.trans current)
      refine ⟨r, Function.update_self .., ?_⟩
      rw [same, Function.update_self]
      exact .refl v r
    · have other : w ≠ t := fun equal => same (kept.distinct (equal ▸ own) current)
      rw [Function.update_of_ne same, Function.update_of_ne other]
      exact kept.running here own
  saving := by
    intro c w u here
    dsimp only at here ⊢
    have other : w ≠ t := fun equal => kept.away (equal ▸ here) core current
    have apart : c ≠ core := fun equal => by
      rw [equal, phase] at here
      cases here
    rw [Function.update_of_ne apart, Function.update_of_ne other]
    exact kept.saving here
  away := kept.away
  single := kept.single
  arriving := by
    intro c u next
    dsimp only at next ⊢
    have apart : c ≠ core := fun equal => by
      rw [equal, phase] at next
      cases next
    rw [Function.update_of_ne apart]
    exact kept.arriving next
  stored := by
    intro w r' ran rests
    dsimp only at ran
    have other : w ≠ t := fun equal => rests.current core (equal ▸ current) phase
    rw [Function.update_of_ne other] at ran
    exact kept.stored ran ⟨rests.current, rests.saved⟩
  fresh := by
    intro w lowest highest fresh
    dsimp only at fresh
    have other : w ≠ t := fun equal => by
      rw [equal, Function.update_self] at fresh
      cases fresh
    rw [Function.update_of_ne other] at fresh
    exact kept.fresh fresh
  left := kept.left

/-- `setup_stack` prepares the slot of a thread that no core knows. -/
theorem create (e : Event) {system : System} (unused : sys.system.scheduler.getUnused = some t)
    (off : ∀ c, sys.currentThreads c ≠ some t) (unsaved : ∀ c u, sys.phase c ≠ .saving t u)
    (current : system.scheduler.currentThreads = sys.currentThreads) (creates : e.creates = true) :
    Kept v config (setupNew e system sys) := by
  let thread := system.scheduler.threads t
  have made : setupNew e system sys = { sys with
      system
      data := Function.update sys.data t
        { sys.data t with sp := BitVec.ofNat 32 (thread.stackHighest - 32) }
      own := Function.update sys.own t (.fresh thread.stackLowest thread.stackHighest) } := by
    unfold setupNew
    rw [creates, unused]
  have same : (setupNew e system sys).currentThreads = sys.currentThreads := by
    rw [made]
    exact current
  have others : ∀ {w r}, (setupNew e system sys).own w = .ran r → w ≠ t := by
    intro w r ran equal
    rw [made, equal] at ran
    dsimp only at ran
    rw [Function.update_self] at ran
    cases ran
  rw [made] at same others ⊢
  constructor
  case onCore => exact same ▸ kept.onCore
  case distinct => exact same ▸ kept.distinct
  case possible =>
    intro w r ran
    have other := others ran
    dsimp only at ran
    rw [Function.update_of_ne other] at ran
    exact kept.possible ran
  case running =>
    intro c w here own
    rw [same] at own
    have other : w ≠ t := fun equal => off c (equal ▸ own)
    dsimp only
    rw [Function.update_of_ne other]
    exact kept.running here own
  case saving =>
    intro c w u here
    have other : w ≠ t := fun equal => unsaved c u (equal ▸ here)
    dsimp only
    rw [Function.update_of_ne other, Function.update_of_ne other]
    exact kept.saving here
  case away => exact same ▸ kept.away
  case single => exact kept.single
  case arriving =>
    intro c u next
    obtain ⟨own, psp⟩ := kept.arriving next
    have other : u ≠ t := fun equal => off c (equal ▸ own)
    rw [same]
    dsimp only
    rw [Function.update_of_ne other]
    exact ⟨own, psp⟩
  case stored =>
    intro w r ran rests
    have other := others ran
    dsimp only at ran ⊢
    rw [Function.update_of_ne other] at ran ⊢
    exact kept.stored ran ⟨same ▸ rests.current, rests.saved⟩
  case fresh =>
    intro w lowest highest fresh
    dsimp only at fresh ⊢
    by_cases equal : w = t
    · rw [equal, Function.update_self] at fresh ⊢
      cases fresh
      rfl
    · rw [Function.update_of_ne equal] at fresh ⊢
      exact kept.fresh fresh
  case left =>
    intro has w
    dsimp only
    by_cases equal : w = t
    · rw [equal, Function.update_self]
      exact kept.left has t
    · rw [Function.update_of_ne equal]
      exact kept.left has w

/-- The handler saves the registers of the thread that it switches from. -/
theorem save (phase : sys.phase core = .saving t u) :
    Kept v config { sys with
      data := Function.update sys.data t ((sys.registers core).save v (sys.data t))
      phase := Function.update sys.phase core (.loading u)
      left := Function.update sys.left t (some (sys.registers core).excReturn) } := by
  obtain ⟨other, r, ran, same⟩ := kept.saving phase
  have sp : ∀ w, (Function.update sys.data t ((sys.registers core).save v (sys.data t)) w).sp =
      (sys.data w).sp := by
    intro w
    by_cases equal : w = t
    · rw [equal, Function.update_self]
      rfl
    · rw [Function.update_of_ne equal]
  have still : ∀ {c w x}, Function.update sys.phase core (.loading u) c = .saving w x →
      c ≠ core ∧ sys.phase c = .saving w x := by
    intro c w x here
    by_cases equal : c = core
    · rw [equal, Function.update_self] at here
      cases here
    · rw [Function.update_of_ne equal] at here
      exact ⟨equal, here⟩
  constructor
  case onCore => exact kept.onCore
  case distinct => exact kept.distinct
  case possible => exact kept.possible
  case running =>
    intro c w here own
    dsimp only at here ⊢
    by_cases equal : c = core
    · rw [equal, Function.update_self] at here
      cases here
    · rw [Function.update_of_ne equal] at here
      exact kept.running here own
  case saving =>
    intro c w x here
    dsimp only
    rw [sp]
    exact kept.saving (still here).2
  case away => exact fun here => kept.away (still here).2
  case single => exact fun first second => kept.single (still first).2 (still second).2
  case arriving =>
    intro c w next
    dsimp only at next ⊢
    rw [sp]
    by_cases equal : c = core
    · rw [equal, Function.update_self] at next
      cases next
      rw [equal]
      exact kept.arriving (congrArg Phase.next phase)
    · rw [Function.update_of_ne equal] at next
      exact kept.arriving next
  case stored =>
    intro w r' ran' rests
    dsimp only at ran' ⊢
    by_cases equal : w = t
    · rw [equal] at ran' ⊢
      obtain rfl : r' = r := by
        rw [ran] at ran'
        cases ran'
        rfl
      rw [Function.update_self]
      exact stored_save same.high same.excReturn same.float same.psp
    · rw [Function.update_of_ne equal]
      refine kept.stored ran' ⟨fun c own => ?_, fun c x here => ?_⟩
      · intro here
        have apart : c ≠ core := fun same => by
          rw [same, phase] at here
          cases here
        exact rests.current c own ((Function.update_of_ne apart _ _).trans here)
      · have apart : c ≠ core := fun same => by
          rw [same, phase] at here
          cases here
          exact equal rfl
        exact rests.saved c x ((Function.update_of_ne apart _ _).trans here)
  case fresh =>
    intro w lowest highest fresh
    dsimp only
    rw [sp]
    exact kept.fresh fresh
  case left =>
    intro has w
    dsimp only
    by_cases equal : w = t
    · rw [equal, Function.update_self, Function.update_self]
      exact if_pos has
    · rw [Function.update_of_ne equal, Function.update_of_ne equal]
      exact kept.left has w

/-- The handler loads the registers of the thread that it switches to. -/
theorem load (phase : sys.phase core = .loading u) :
    Kept v config { sys with
      registers := Function.update sys.registers core ((sys.registers core).restore v (sys.data u))
      phase := Function.update sys.phase core .thread
      own := Function.update sys.own u
        ((sys.own u).started ((sys.registers core).restore v (sys.data u))) } := by
  let restored := (sys.registers core).restore v (sys.data u)
  obtain ⟨current, psp⟩ := kept.arriving (congrArg Phase.next phase)
  have rests : sys.Resting u := by
    refine ⟨fun c own here => ?_, fun c w here => kept.away here core current⟩
    rw [kept.distinct own current, phase] at here
    cases here
  have possible : restored.Possible v := by
    intro without
    show (if v.eabihf then (sys.data u).excReturn else excReturnThreadNoFpu) = _
    rw [without]
    rfl
  obtain ⟨r, started, source⟩ := started_ran restored (sys.own u)
  have begins : r.Possible v ∧ restored.Same v r := by
    rcases source with ran | same
    · exact ⟨kept.possible ran, restore_same (kept.stored ran rests) psp (kept.possible ran)⟩
    · rw [same]
      exact ⟨possible, .refl v restored⟩
  have still : ∀ {c w x}, Function.update sys.phase core .thread c = .saving w x →
      c ≠ core ∧ sys.phase c = .saving w x := by
    intro c w x here
    by_cases equal : c = core
    · rw [equal, Function.update_self] at here
      cases here
    · rw [Function.update_of_ne equal] at here
      exact ⟨equal, here⟩
  have before : ∀ {w r'}, Function.update sys.own u ((sys.own u).started restored) w = .ran r' →
      w = u ∧ r' = r ∨ w ≠ u ∧ sys.own w = .ran r' := by
    intro w r' ran
    by_cases equal : w = u
    · rw [equal, Function.update_self, started] at ran
      cases ran
      exact Or.inl ⟨equal, rfl⟩
    · rw [Function.update_of_ne equal] at ran
      exact Or.inr ⟨equal, ran⟩
  constructor
  case onCore => exact kept.onCore
  case distinct => exact kept.distinct
  case possible =>
    intro w r' ran
    rcases before ran with ⟨-, rfl⟩ | ⟨-, ran⟩
    · exact begins.1
    · exact kept.possible ran
  case running =>
    intro c w here own
    dsimp only at here ⊢
    by_cases equal : c = core
    · obtain rfl : w = u := Option.some.inj ((equal ▸ own).symm.trans current)
      refine ⟨r, (Function.update_self ..).trans started, ?_⟩
      rw [equal, Function.update_self]
      exact begins.2
    · have other : w ≠ u := fun same => equal (kept.distinct (same ▸ own) current)
      rw [Function.update_of_ne equal] at here ⊢
      rw [Function.update_of_ne other]
      exact kept.running here own
  case saving =>
    intro c w x here
    obtain ⟨apart, here⟩ := still here
    have other : w ≠ u := fun same => kept.away (same ▸ here) core current
    dsimp only
    rw [Function.update_of_ne apart, Function.update_of_ne other]
    exact kept.saving here
  case away => exact fun here => kept.away (still here).2
  case single => exact fun first second => kept.single (still first).2 (still second).2
  case arriving =>
    intro c w next
    dsimp only at next ⊢
    by_cases equal : c = core
    · rw [equal, Function.update_self] at next
      cases next
    · rw [Function.update_of_ne equal] at next ⊢
      exact kept.arriving next
  case stored =>
    intro w r' ran rests'
    rcases before ran with ⟨same, -⟩ | ⟨other, ran⟩
    · exact absurd (Function.update_self ..) (rests'.current core (same ▸ current))
    · refine kept.stored ran ⟨fun c own => ?_, fun c x here => ?_⟩
      · intro here
        have apart : c ≠ core := fun same => by
          rw [same, phase] at here
          cases here
        exact rests'.current c own ((Function.update_of_ne apart _ _).trans here)
      · have apart : c ≠ core := fun same => by
          rw [same, phase] at here
          cases here
        exact rests'.saved c x ((Function.update_of_ne apart _ _).trans here)
  case fresh =>
    intro w lowest highest fresh
    dsimp only at fresh
    have other : w ≠ u := fun same => by
      rw [same, Function.update_self, started] at fresh
      cases fresh
    rw [Function.update_of_ne other] at fresh
    exact kept.fresh fresh
  case left => exact kept.left

/-- `sched` leaves the thread on its core. -/
theorem continues (phase : sys.phase core = .thread) (current : sys.currentThreads core = some t) :
    Kept v config { sys with
      registers := Function.update sys.registers core
        (Outcome.registers v (sys.registers core) sys.data .continues) } := by
  obtain ⟨r, ran, same⟩ := kept.running phase current
  have unchanged : Outcome.registers v (sys.registers core) sys.data .continues =
      sys.registers core := by
    show (if v.eabihf then sys.registers core else (sys.registers core).start) = _
    by_cases has : v.eabihf = true
    · rw [if_pos has]
    · have const := same.excReturn.trans (kept.possible ran (Bool.eq_false_of_not_eq_true has))
      rw [if_neg has, Registers.start, ← const]
  rw [unchanged, Function.update_eq_self]
  exact kept

/-- `sched` gives its first thread to a core. -/
theorem starts {system : System} (bound : core < config.coreCount)
    (phase : sys.phase core = .thread) (idle : sys.currentThreads core = none)
    (current : system.scheduler.currentThreads =
      Function.update sys.currentThreads core (some u))
    (off : ∀ c ≠ core, sys.currentThreads c ≠ some u) (unsaved : ∀ c w, sys.phase c ≠ .saving u w)
    (new : ∀ r, sys.own u ≠ .ran r) {r : Registers} (possible : r.Possible v) :
    Kept v config { sys with
      system
      registers := Function.update sys.registers core r
      own := Function.update sys.own u ((sys.own u).started r) } := by
  have started : (sys.own u).started r = .ran r := by
    obtain ⟨r', started, ran | rfl⟩ := started_ran r (sys.own u)
    · exact absurd ran (new r')
    · exact started
  rw [started]
  have nowhere : ∀ c, sys.currentThreads c ≠ some u := by
    intro c own
    by_cases equal : c = core
    · rw [equal, idle] at own
      cases own
    · exact off c equal own
  have now : ∀ {c w}, system.scheduler.currentThreads c = some w →
      c = core ∧ w = u ∨ c ≠ core ∧ sys.currentThreads c = some w := by
    intro c w own
    rw [current] at own
    by_cases equal : c = core
    · rw [equal, Function.update_self] at own
      exact Or.inl ⟨equal, (Option.some.inj own).symm⟩
    · rw [Function.update_of_ne equal] at own
      exact Or.inr ⟨equal, own⟩
  have then_ : ∀ {c w}, sys.currentThreads c = some w →
      c ≠ core ∧ w ≠ u ∧ system.scheduler.currentThreads c = some w := by
    intro c w own
    have apart : c ≠ core := fun equal => by
      rw [equal, idle] at own
      cases own
    refine ⟨apart, fun equal => nowhere c (equal ▸ own), ?_⟩
    rw [current, Function.update_of_ne apart]
    exact own
  have before : ∀ {w r'}, Function.update sys.own u (.ran r) w = .ran r' →
      w = u ∧ r' = r ∨ w ≠ u ∧ sys.own w = .ran r' := by
    intro w r' ran
    by_cases equal : w = u
    · rw [equal, Function.update_self] at ran
      cases ran
      exact Or.inl ⟨equal, rfl⟩
    · rw [Function.update_of_ne equal] at ran
      exact Or.inr ⟨equal, ran⟩
  constructor
  case onCore =>
    intro c w own
    rcases now own with ⟨rfl, -⟩ | ⟨-, own⟩
    · exact bound
    · exact kept.onCore own
  case distinct =>
    intro c d w first second
    rcases now first with ⟨rfl, rfl⟩ | ⟨-, first₀⟩
    · rcases now second with ⟨rfl, -⟩ | ⟨-, second₀⟩
      · rfl
      · exact absurd second₀ (nowhere d)
    · rcases now second with ⟨-, rfl⟩ | ⟨-, second₀⟩
      · exact absurd first₀ (nowhere c)
      · exact kept.distinct first₀ second₀
  case possible =>
    intro w r' ran
    rcases before ran with ⟨-, rfl⟩ | ⟨-, ran⟩
    · exact possible
    · exact kept.possible ran
  case running =>
    intro c w here own
    dsimp only
    rcases now own with ⟨rfl, rfl⟩ | ⟨apart, own⟩
    · rw [Function.update_self, Function.update_self]
      exact ⟨r, rfl, .refl v r⟩
    · rw [Function.update_of_ne apart, Function.update_of_ne (then_ own).2.1]
      exact kept.running here own
  case saving =>
    intro c w x here
    have apart : c ≠ core := fun equal => by
      rw [equal] at here
      exact absurd (phase.symm.trans here) (by simp)
    have other : w ≠ u := fun equal => unsaved c x (equal ▸ here)
    dsimp only
    rw [Function.update_of_ne apart, Function.update_of_ne other]
    exact kept.saving here
  case away =>
    intro c w x here d own
    rcases now own with ⟨-, rfl⟩ | ⟨-, own⟩
    · exact unsaved c x here
    · exact kept.away here d own
  case single => exact kept.single
  case arriving =>
    intro c w next
    obtain ⟨own, psp⟩ := kept.arriving next
    obtain ⟨apart, -, own⟩ := then_ own
    dsimp only
    rw [Function.update_of_ne apart]
    exact ⟨own, psp⟩
  case stored =>
    intro w r' ran rests
    rcases before ran with ⟨rfl, -⟩ | ⟨-, ran⟩
    · have own : system.scheduler.currentThreads core = some w := by
        rw [current, Function.update_self]
      exact absurd phase (rests.current core own)
    · exact kept.stored ran ⟨fun c own => rests.current c (then_ own).2.2, rests.saved⟩
  case fresh =>
    intro w lowest highest fresh
    dsimp only at fresh
    have other : w ≠ u := fun equal => by
      rw [equal, Function.update_self] at fresh
      cases fresh
    rw [Function.update_of_ne other] at fresh
    exact kept.fresh fresh
  case left => exact kept.left

/-- `sched` changes the thread on a core, whose registers are still to be saved. -/
theorem switches {system : System} (phase : sys.phase core = .thread)
    (own : sys.currentThreads core = some t) (other : t ≠ u)
    (current : system.scheduler.currentThreads =
      Function.update sys.currentThreads core (some u))
    (off : ∀ c ≠ core, sys.currentThreads c ≠ some u)
    (unsaved : ∀ c w, sys.phase c ≠ .saving u w) :
    Kept v config { sys with
      system
      data := Function.update sys.data t { sys.data t with sp := (sys.registers core).psp }
      registers := Function.update sys.registers core
        { sys.registers core with psp := (sys.data u).sp }
      phase := Function.update sys.phase core (.saving t u) } := by
  obtain ⟨r, ran, same⟩ := kept.running phase own
  have nowhere : ∀ c, sys.currentThreads c ≠ some u := by
    intro c here
    by_cases equal : c = core
    · rw [equal, own] at here
      exact other (Option.some.inj here)
    · exact off c equal here
  have now : ∀ {c w}, system.scheduler.currentThreads c = some w →
      c = core ∧ w = u ∨ c ≠ core ∧ w ≠ t ∧ sys.currentThreads c = some w := by
    intro c w here
    rw [current] at here
    by_cases equal : c = core
    · rw [equal, Function.update_self] at here
      exact Or.inl ⟨equal, (Option.some.inj here).symm⟩
    · rw [Function.update_of_ne equal] at here
      exact Or.inr ⟨equal, fun stale => equal (kept.distinct (stale ▸ here) own), here⟩
  have then_ : ∀ {c w}, c ≠ core → sys.currentThreads c = some w →
      system.scheduler.currentThreads c = some w := by
    intro c w apart here
    rw [current, Function.update_of_ne apart]
    exact here
  have still : ∀ {c w x}, Function.update sys.phase core (.saving t u) c = .saving w x →
      c = core ∧ w = t ∧ x = u ∨ c ≠ core ∧ w ≠ t ∧ sys.phase c = .saving w x := by
    intro c w x here
    by_cases equal : c = core
    · rw [equal, Function.update_self] at here
      cases here
      exact Or.inl ⟨equal, rfl, rfl⟩
    · rw [Function.update_of_ne equal] at here
      exact Or.inr ⟨equal, fun stale => kept.away (stale ▸ here) core own, here⟩
  constructor
  case onCore =>
    intro c w here
    rcases now here with ⟨rfl, -⟩ | ⟨-, -, here⟩
    · exact kept.onCore own
    · exact kept.onCore here
  case distinct =>
    intro c d w first second
    rcases now first with ⟨rfl, rfl⟩ | ⟨-, -, first₀⟩
    · rcases now second with ⟨rfl, -⟩ | ⟨-, -, second₀⟩
      · rfl
      · exact absurd second₀ (nowhere d)
    · rcases now second with ⟨-, rfl⟩ | ⟨-, -, second₀⟩
      · exact absurd first₀ (nowhere c)
      · exact kept.distinct first₀ second₀
  case possible => exact kept.possible
  case running =>
    intro c w here own'
    dsimp only at here ⊢
    have apart : c ≠ core := fun equal => by
      rw [equal, Function.update_self] at here
      cases here
    rw [Function.update_of_ne apart] at here ⊢
    rcases now own' with ⟨equal, -⟩ | ⟨-, -, before⟩
    · exact absurd equal apart
    · exact kept.running here before
  case saving =>
    intro c w x here
    dsimp only
    rcases still here with ⟨rfl, rfl, rfl⟩ | ⟨apart, stale, here⟩
    · rw [Function.update_self, Function.update_self]
      exact ⟨other, r, ran, same.psp, same.high, same.excReturn, same.float⟩
    · rw [Function.update_of_ne apart, Function.update_of_ne stale]
      exact kept.saving here
  case away =>
    intro c w x here d own'
    rcases still here with ⟨rfl, rfl, rfl⟩ | ⟨-, -, here₀⟩
    · rcases now own' with ⟨-, equal⟩ | ⟨-, stale, -⟩
      · exact other equal
      · exact stale rfl
    · rcases now own' with ⟨-, rfl⟩ | ⟨-, -, before⟩
      · exact unsaved c x here₀
      · exact kept.away here₀ d before
  case single =>
    intro c d w x y first second
    rcases still first with ⟨rfl, rfl, -⟩ | ⟨-, stale, first₀⟩
    · rcases still second with ⟨rfl, -, -⟩ | ⟨-, stale, -⟩
      · rfl
      · exact absurd rfl stale
    · rcases still second with ⟨-, rfl, -⟩ | ⟨-, -, second₀⟩
      · exact absurd rfl stale
      · exact kept.single first₀ second₀
  case arriving =>
    intro c w next
    dsimp only at next ⊢
    by_cases equal : c = core
    · rw [equal, Function.update_self] at next ⊢
      obtain rfl : u = w := Option.some.inj next
      refine ⟨?_, ?_⟩
      · show system.scheduler.currentThreads core = some u
        rw [current, Function.update_self]
      · rw [Function.update_of_ne other.symm]
    · rw [Function.update_of_ne equal] at next ⊢
      obtain ⟨before, psp⟩ := kept.arriving next
      have stale : w ≠ t := fun same => equal (kept.distinct (same ▸ before) own)
      rw [Function.update_of_ne stale]
      exact ⟨then_ equal before, psp⟩
  case stored =>
    intro w r' ran' rests
    dsimp only
    have stale : w ≠ t := fun equal =>
      rests.saved core u ((Function.update_self ..).trans (by rw [equal]))
    rw [Function.update_of_ne stale]
    refine kept.stored ran' ⟨fun c before here => ?_, fun c x here => ?_⟩
    · have apart : c ≠ core := fun equal => by
        rw [equal, own] at before
        exact stale (Option.some.inj before).symm
      exact rests.current c (then_ apart before) ((Function.update_of_ne apart ..).trans here)
    · have apart : c ≠ core := fun equal => by
        rw [equal, phase] at here
        cases here
      exact rests.saved c x ((Function.update_of_ne apart ..).trans here)
  case fresh =>
    intro w lowest highest fresh
    have stale : w ≠ t := fun equal => by
      rw [equal] at fresh
      exact absurd (ran.symm.trans fresh) (by simp)
    dsimp only
    rw [Function.update_of_ne stale]
    exact kept.fresh fresh
  case left =>
    intro has w
    dsimp only
    by_cases equal : w = t
    · rw [equal, Function.update_self]
      exact kept.left has t
    · rw [Function.update_of_ne equal]
      exact kept.left has w

end Kept

end Switching

end ArielOS.CortexM
