import Mathlib.Logic.Function.Basic
import ArielOS.Lib.Run

namespace ArielOS.Native

open Machine

inductive SectionFault
  /-- `GLOBAL_GUARD` was read without a guard in it. -/
  | uninitialised
  /-- Not a fault of the code: the event cannot happen in this state. -/
  | disabled
  deriving DecidableEq

/-- Where a host thread is: in its own code, inside of `acquire`, in front of what it does with the
    mutex and with `GLOBAL_GUARD`, or inside of `release`, in front of what it does with
    `GLOBAL_GUARD`, the mutex and its flag. -/
inductive SectionPhase
  | idle
  | locking
  | writing
  | reading
  | dropping
  | clearing
  deriving DecidableEq

/-- The critical section of infini-core. `nested` is what the calls of `acquire` returned that a host
    thread has not released, the last one first. -/
structure StdCriticalSection where
  globalMutex : Option Nat
  globalGuard : Option Nat
  isLocked : Nat → Bool
  phase : Nat → SectionPhase
  nested : Nat → List Bool

inductive SectionEvent
  | acquire (h : Nat)
  | lock (h : Nat)
  | write (h : Nat)
  | release (h : Nat)
  | read (h : Nat)
  | drop (h : Nat)
  | clear (h : Nat)
  deriving DecidableEq

namespace StdCriticalSection

def new : StdCriticalSection := ⟨none, none, fun _ => false, fun _ => .idle, fun _ => []⟩

variable (sys : StdCriticalSection)

def moveTo (h : Nat) (phase : SectionPhase) : StdCriticalSection :=
  { sys with phase := Function.update sys.phase h phase }

def setNested (h : Nat) (nested : List Bool) : StdCriticalSection :=
  { sys with nested := Function.update sys.nested h nested }

def setLocked (h : Nat) (locked : Bool) : StdCriticalSection :=
  { sys with isLocked := Function.update sys.isLocked h locked }

def step (e : SectionEvent) (sys : StdCriticalSection) : Except SectionFault StdCriticalSection :=
  match e with
  | .acquire h =>
    if sys.phase h ≠ .idle then
      .error .disabled
    else if sys.isLocked h then
      .ok (sys.setNested h (true :: sys.nested h))
    else
      .ok ((sys.setLocked h true).moveTo h .locking)
  | .lock h =>
    if sys.phase h = .locking ∧ sys.globalMutex = none then
      .ok { sys.moveTo h .writing with globalMutex := some h }
    else
      .error .disabled
  | .write h =>
    if sys.phase h = .writing then
      .ok { (sys.moveTo h .idle).setNested h (false :: sys.nested h) with globalGuard := some h }
    else
      .error .disabled
  | .release h =>
    match sys.phase h, sys.nested h with
    | .idle, true :: outer => .ok (sys.setNested h outer)
    | .idle, false :: outer => .ok ((sys.setNested h outer).moveTo h .reading)
    | _, _ => .error .disabled
  | .read h =>
    if sys.phase h ≠ .reading then
      .error .disabled
    else if sys.globalGuard = none then
      .error .uninitialised
    else
      .ok { sys.moveTo h .dropping with globalGuard := none }
  | .drop h =>
    if sys.phase h = .dropping then
      .ok { sys.moveTo h .clearing with globalMutex := none }
    else
      .error .disabled
  | .clear h =>
    if sys.phase h = .clearing then .ok ((sys.setLocked h false).moveTo h .idle) else .error .disabled

/-- The host thread is inside of a critical section. -/
def Inside (h : Nat) : Prop := sys.nested h ≠ []

instance (h : Nat) : Decidable (sys.Inside h) := inferInstanceAs (Decidable (_ ≠ _))

end StdCriticalSection

namespace SectionPhase

variable (phase : SectionPhase) (inside : Prop)

/-- Where a host thread has the mutex, where its guard is in `GLOBAL_GUARD`, and where its flag is
    set. -/
def Owns : Prop :=
  match phase with
  | .idle => inside
  | .writing | .reading | .dropping => True
  | .locking | .clearing => False

def Guards : Prop :=
  match phase with
  | .idle => inside
  | .reading => True
  | .locking | .writing | .dropping | .clearing => False

def Flagged : Prop :=
  match phase with
  | .idle => inside
  | .locking | .writing | .reading | .dropping | .clearing => True

variable {phase inside}

theorem Guards.owns (guards : phase.Guards inside) : phase.Owns inside := by
  cases phase with
  | idle | reading => exact guards
  | _ => exact guards.elim

end SectionPhase

/-- Only the outermost call of `acquire` returns false. -/
inductive Nesting : List Bool → Prop
  | none : Nesting []
  | outer : Nesting [false]
  | inner {outer : List Bool} (nesting : Nesting outer) (inside : outer ≠ []) : Nesting (true :: outer)

namespace StdCriticalSection

variable {sys sys' : StdCriticalSection} {e : SectionEvent} {h : Nat}

structure Exclusive (sys : StdCriticalSection) : Prop where
  mutex : ∀ h, sys.globalMutex = some h ↔ (sys.phase h).Owns (sys.Inside h)
  guard : ∀ h, sys.globalGuard = some h ↔ (sys.phase h).Guards (sys.Inside h)
  flag : ∀ h, sys.isLocked h = true ↔ (sys.phase h).Flagged (sys.Inside h)
  nesting : ∀ h, Nesting (sys.nested h)
  idle : ∀ h, sys.Inside h → sys.phase h = .idle

/-- One host thread goes on, and nothing changes for the others. -/
theorem Exclusive.change (exclusive : Exclusive sys)
    (others : ∀ u, u ≠ h → sys'.phase u = sys.phase u ∧ sys'.nested u = sys.nested u ∧
      sys'.isLocked u = sys.isLocked u ∧ (sys'.globalMutex = some u ↔ sys.globalMutex = some u) ∧
      (sys'.globalGuard = some u ↔ sys.globalGuard = some u))
    (mutex : sys'.globalMutex = some h ↔ (sys'.phase h).Owns (sys'.Inside h))
    (guard : sys'.globalGuard = some h ↔ (sys'.phase h).Guards (sys'.Inside h))
    (flag : sys'.isLocked h = true ↔ (sys'.phase h).Flagged (sys'.Inside h))
    (nesting : Nesting (sys'.nested h)) (idle : sys'.Inside h → sys'.phase h = .idle) :
    Exclusive sys' := by
  have inside : ∀ u, u ≠ h → sys'.Inside u = sys.Inside u := by
    intro u other
    unfold Inside
    rw [(others u other).2.1]
  refine ⟨fun u => ?_, fun u => ?_, fun u => ?_, fun u => ?_, fun u => ?_⟩
  · by_cases own : u = h
    · exact own ▸ mutex
    · rw [(others u own).1, inside u own, (others u own).2.2.2.1]
      exact exclusive.mutex u
  · by_cases own : u = h
    · exact own ▸ guard
    · rw [(others u own).1, inside u own, (others u own).2.2.2.2]
      exact exclusive.guard u
  · by_cases own : u = h
    · exact own ▸ flag
    · rw [(others u own).1, inside u own, (others u own).2.2.1]
      exact exclusive.flag u
  · by_cases own : u = h
    · exact own ▸ nesting
    · rw [(others u own).2.1]
      exact exclusive.nesting u
  · by_cases own : u = h
    · exact own ▸ idle
    · rw [(others u own).1, inside u own]
      exact exclusive.idle u

theorem new_exclusive : Exclusive new where
  mutex _ := ⟨nofun, fun inside => absurd rfl inside⟩
  guard _ := ⟨nofun, fun inside => absurd rfl inside⟩
  flag _ := ⟨nofun, fun inside => absurd rfl inside⟩
  nesting _ := .none
  idle _ _ := rfl

theorem Exclusive.outside (exclusive : Exclusive sys) (busy : sys.phase h ≠ .idle) :
    ¬ sys.Inside h := fun inside => busy (exclusive.idle h inside)

/-- Whose guard is in `GLOBAL_GUARD` has the mutex. -/
theorem Exclusive.guard_owns (exclusive : Exclusive sys) (guards : sys.globalGuard = some h) :
    sys.globalMutex = some h :=
  (exclusive.mutex h).mpr ((exclusive.guard h).mp guards).owns

theorem step_exclusive (exclusive : Exclusive sys) (done : step e sys = .ok sys') :
    Exclusive sys' := by
  cases e with
  | acquire h =>
    simp only [step] at done
    have mutex := exclusive.mutex h
    have guard := exclusive.guard h
    have flag := exclusive.flag h
    have nesting := exclusive.nesting h
    split at done
    · cases done
    · rename_i idle
      rw [not_not] at idle
      rw [idle] at mutex guard flag
      split at done
      · rename_i locked
        cases done
        have inside : sys.Inside h := flag.mp locked
        refine exclusive.change (h := h) (fun u other => ?_) ?_ ?_ ?_ ?_ ?_
        · simp [setNested, other]
        · simpa [setNested, idle, SectionPhase.Owns, Inside, inside] using mutex.mpr inside
        · simpa [setNested, idle, SectionPhase.Guards, Inside, inside] using guard.mpr inside
        · simpa [setNested, idle, SectionPhase.Flagged, Inside] using locked
        · simpa [setNested] using Nesting.inner nesting inside
        · simp [setNested, idle]
      · rename_i unlocked
        cases done
        have outside : ¬ sys.Inside h := fun inside => unlocked (flag.mpr inside)
        refine exclusive.change (h := h) (fun u other => ?_) ?_ ?_ ?_ ?_ ?_
        · simp [setLocked, moveTo, other]
        · simpa [setLocked, moveTo, SectionPhase.Owns] using fun owns => outside (mutex.mp owns)
        · simpa [setLocked, moveTo, SectionPhase.Guards] using fun guards => outside (guard.mp guards)
        · simp [setLocked, moveTo, SectionPhase.Flagged]
        · exact nesting
        · exact fun inside => absurd inside outside
  | lock h =>
    simp only [step] at done
    split at done
    · rename_i ready
      cases done
      have outside : ¬ sys.Inside h := exclusive.outside (by rw [ready.1]; exact nofun)
      have guard := exclusive.guard h
      have flag := exclusive.flag h
      rw [ready.1] at guard flag
      refine exclusive.change (h := h) (fun u other => ?_) ?_ ?_ ?_ ?_ ?_
      · simp [moveTo, other, other.symm, ready.2]
      · simp [moveTo, SectionPhase.Owns]
      · simpa [moveTo, SectionPhase.Guards] using guard
      · simpa [moveTo, SectionPhase.Flagged] using flag
      · exact exclusive.nesting h
      · exact fun inside => absurd inside outside
    · cases done
  | write h =>
    simp only [step] at done
    split at done
    · rename_i writing
      cases done
      have outside : ¬ sys.Inside h := exclusive.outside (by rw [writing]; exact nofun)
      have empty : sys.nested h = [] := not_not.mp outside
      have mutex := exclusive.mutex h
      have flag := exclusive.flag h
      rw [writing] at mutex flag
      have owns : sys.globalMutex = some h := mutex.mpr trivial
      refine exclusive.change (h := h) (fun u other => ?_) ?_ ?_ ?_ ?_ ?_
      · have free : sys.globalGuard ≠ some u := by
          intro guards
          rw [exclusive.guard_owns guards] at owns
          exact other (Option.some.inj owns)
        simp [moveTo, setNested, other, other.symm, free]
      · simpa [moveTo, setNested, SectionPhase.Owns, Inside] using owns
      · simp [moveTo, setNested, SectionPhase.Guards, Inside]
      · simpa [moveTo, setNested, SectionPhase.Flagged, Inside] using flag
      · simpa [moveTo, setNested, empty] using Nesting.outer
      · simp [moveTo, setNested]
    · cases done
  | release h =>
    have mutex := exclusive.mutex h
    have guard := exclusive.guard h
    have flag := exclusive.flag h
    have nesting := exclusive.nesting h
    simp only [step] at done
    split at done
    · rename_i outer idle nested
      cases done
      rw [idle] at mutex guard flag
      rw [nested] at nesting
      have inside : sys.Inside h := by
        unfold Inside
        rw [nested]
        exact List.cons_ne_nil _ _
      cases nesting with
      | inner rest within =>
        refine exclusive.change (h := h) (fun u other => ?_) ?_ ?_ ?_ ?_ ?_
        · simp [setNested, other]
        · simpa [setNested, idle, SectionPhase.Owns, Inside, within] using mutex.mpr inside
        · simpa [setNested, idle, SectionPhase.Guards, Inside, within] using guard.mpr inside
        · simpa [setNested, idle, SectionPhase.Flagged, Inside, within] using flag.mpr inside
        · simpa [setNested] using rest
        · simp [setNested, idle]
    · rename_i outer idle nested
      cases done
      rw [idle] at mutex guard flag
      rw [nested] at nesting
      have inside : sys.Inside h := by
        unfold Inside
        rw [nested]
        exact List.cons_ne_nil _ _
      cases nesting
      refine exclusive.change (h := h) (fun u other => ?_) ?_ ?_ ?_ ?_ ?_
      · simp [setNested, moveTo, other]
      · simpa [setNested, moveTo, SectionPhase.Owns] using mutex.mpr inside
      · simpa [setNested, moveTo, SectionPhase.Guards] using guard.mpr inside
      · simpa [setNested, moveTo, SectionPhase.Flagged] using flag.mpr inside
      · simpa [setNested, moveTo] using Nesting.none
      · simp [setNested, moveTo, Inside]
    · cases done
  | read h =>
    simp only [step] at done
    split at done
    · cases done
    · rename_i reading
      rw [not_not] at reading
      split at done
      · cases done
      · cases done
        have outside : ¬ sys.Inside h := exclusive.outside (by rw [reading]; exact nofun)
        have mutex := exclusive.mutex h
        have guard := exclusive.guard h
        have flag := exclusive.flag h
        rw [reading] at mutex guard flag
        have guards : sys.globalGuard = some h := guard.mpr trivial
        refine exclusive.change (h := h) (fun u other => ?_) ?_ ?_ ?_ ?_ ?_
        · simp [moveTo, other, other.symm, guards]
        · simpa [moveTo, SectionPhase.Owns] using mutex
        · simp [moveTo, SectionPhase.Guards]
        · simpa [moveTo, SectionPhase.Flagged] using flag
        · exact exclusive.nesting h
        · exact fun inside => absurd inside outside
  | drop h =>
    simp only [step] at done
    split at done
    · rename_i dropping
      cases done
      have outside : ¬ sys.Inside h := exclusive.outside (by rw [dropping]; exact nofun)
      have mutex := exclusive.mutex h
      have guard := exclusive.guard h
      have flag := exclusive.flag h
      rw [dropping] at mutex guard flag
      have owns : sys.globalMutex = some h := mutex.mpr trivial
      refine exclusive.change (h := h) (fun u other => ?_) ?_ ?_ ?_ ?_ ?_
      · simp [moveTo, other, other.symm, owns]
      · simp [moveTo, SectionPhase.Owns]
      · simpa [moveTo, SectionPhase.Guards] using guard
      · simpa [moveTo, SectionPhase.Flagged] using flag
      · exact exclusive.nesting h
      · exact fun inside => absurd inside outside
    · cases done
  | clear h =>
    simp only [step] at done
    split at done
    · rename_i clearing
      cases done
      have outside : ¬ sys.Inside h := exclusive.outside (by rw [clearing]; exact nofun)
      have mutex := exclusive.mutex h
      have guard := exclusive.guard h
      rw [clearing] at mutex guard
      refine exclusive.change (h := h) (fun u other => ?_) ?_ ?_ ?_ ?_ ?_
      · simp [moveTo, setLocked, other]
      · simpa [moveTo, setLocked, SectionPhase.Owns, Inside] using mutex.trans ⟨False.elim, outside⟩
      · simpa [moveTo, setLocked, SectionPhase.Guards, Inside] using guard.trans ⟨False.elim, outside⟩
      · simpa [moveTo, setLocked, SectionPhase.Flagged, Inside] using outside
      · exact exclusive.nesting h
      · exact fun inside => absurd inside outside
    · cases done

/-- At most one host thread is inside of critical sections, it enters further ones at once, and
    `GLOBAL_GUARD` is read only with a guard in it. Who waits for the mutex waits for a thread that is
    inside or goes on. -/
theorem sections_exclusive (reached : Reachable step new sys) :
    (∀ h u, sys.Inside h → sys.Inside u → h = u) ∧
      (∀ h, sys.Inside h →
        step (.acquire h) sys = .ok (sys.setNested h (true :: sys.nested h))) ∧
      (∀ h, step (.read h) sys ≠ .error .uninitialised) ∧
      ∀ h, sys.phase h = .locking → (∃ sys', step (.lock h) sys = .ok sys') ∨
        ∃ u, u ≠ h ∧ (sys.Inside u ∨ ∃ e ∈ [.write u, .read u, .drop u], ∃ sys', step e sys = .ok sys') := by
  have exclusive := reached.invariant Exclusive new_exclusive
    fun _ _ _ exclusive _ done => step_exclusive exclusive done
  have owns : ∀ h, sys.Inside h → sys.globalMutex = some h := by
    intro h inside
    rw [exclusive.mutex h, exclusive.idle h inside]
    exact inside
  refine ⟨fun h u first second => ?_, fun h inside => ?_, fun h failed => ?_, fun h locking => ?_⟩
  · exact Option.some.inj ((owns h first).symm.trans (owns u second))
  · have idle := exclusive.idle h inside
    have locked : sys.isLocked h = true := by
      rw [exclusive.flag h, idle]
      exact inside
    simp [step, idle, locked]
  · simp only [step] at failed
    split at failed
    · cases failed
    · rename_i reading
      rw [not_not] at reading
      split at failed
      · rename_i empty
        have guards := exclusive.guard h
        rw [reading, empty] at guards
        cases guards.mpr trivial
      · cases failed
  · cases owned : sys.globalMutex with
    | none => exact Or.inl ⟨_, if_pos ⟨locking, owned⟩⟩
    | some u =>
      have holds := (exclusive.mutex u).mp owned
      have other : u ≠ h := by
        rintro rfl
        rw [locking] at holds
        exact holds
      refine Or.inr ⟨u, other, ?_⟩
      cases phase : sys.phase u with
      | idle =>
        rw [phase] at holds
        exact Or.inl holds
      | writing => exact Or.inr ⟨.write u, by simp, _, if_pos phase⟩
      | reading =>
        have guards := exclusive.guard u
        rw [phase] at guards
        refine Or.inr ⟨.read u, by simp, ?_⟩
        simp [step, phase, guards.mpr trivial]
      | dropping => exact Or.inr ⟨.drop u, by simp, _, if_pos phase⟩
      | locking | clearing =>
        rw [phase] at holds
        exact holds.elim

/-- Host thread 1 is inside of two nested sections, and host thread 2 waits for the mutex. -/
theorem sections_exclusive_sample : ∃ sys, Reachable step new sys ∧ sys.nested 1 = [true, false] ∧
    sys.phase 2 = .locking ∧ ¬ sys.Inside 2 := by
  have run : ∃ sys, Reachable step new sys ∧
      (sys.nested 1 == [true, false] && sys.phase 2 == .locking) = true :=
    reaches_of_check [.acquire 1, .acquire 2, .lock 1, .write 1, .acquire 1] (by decide +kernel)
  obtain ⟨sys, reached, checked⟩ := run
  simp only [Bool.and_eq_true, beq_iff_eq] at checked
  refine ⟨sys, reached, checked.1, checked.2, fun second => ?_⟩
  have first : sys.Inside 1 := by
    unfold Inside
    rw [checked.1]
    exact List.cons_ne_nil _ _
  exact absurd ((sections_exclusive reached).1 1 2 first second) (by decide)

end StdCriticalSection

end ArielOS.Native
