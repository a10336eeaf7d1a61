import ArielOS.Sensors.Freshness

namespace ArielOS.Sensors

open Machine

/-- Where a call is between its accesses to what it shares with the others. Each access is a step. -/
inductive SharedCall
  | triggerMeasurement
  | triggerGet
  | triggerSet
  | triggerSignal
  | waitForReading
  | waitSet
  | setMode (mode : Mode)
  | exchange (mode : Mode) (prev : State)
  deriving DecidableEq

/-- A driver with the calls that its users are inside of. `mode` is the one that was set last; it is
    not part of the program's state. -/
structure SharedStts22h where
  driver : Stts22h
  calls : List SharedCall
  mode : Option Mode

namespace SharedCall

/-- The calls begin with these. -/
def begins : SharedCall → Bool
  | .triggerMeasurement | .waitForReading | .setMode _ => true
  | .triggerGet | .triggerSet | .triggerSignal | .waitSet | .exchange .. => false

/-- The call has read the state and is about to write one that depends on it. -/
def writesBack : SharedCall → Bool
  | .triggerSet | .waitSet => true
  | .triggerMeasurement | .triggerGet | .triggerSignal | .waitForReading | .setMode _
  | .exchange .. => false

/-- The mode that the next access sets. An exchange can fail for no reason. -/
def sets (spurious : Bool) (state : State) : SharedCall → Option Mode
  | .exchange mode prev =>
    if prev ≠ .uninitialized ∧ state = prev ∧ spurious = false then some mode else none
  | .triggerMeasurement | .triggerGet | .triggerSet | .triggerSignal | .waitForReading | .waitSet
  | .setMode _ => none

/-- The driver after the next access, and what remains of the call. -/
def next (spurious : Bool) (driver : Stts22h) : SharedCall → Stts22h × Option SharedCall
  | .triggerMeasurement => ({ driver with reading := driver.reading.clear }, some .triggerGet)
  | .triggerGet =>
    match driver.state with
    | .measuring => (driver, some .triggerSignal)
    | .enabled => (driver, some .triggerSet)
    | .uninitialized | .disabled | .sleeping => (driver, none)
  | .triggerSet => ({ driver with state := .measuring }, some .triggerSignal)
  | .triggerSignal =>
    ({ driver with signaling := true, triggers := driver.triggers + 1 }, none)
  | .waitForReading =>
    match driver.state.waitForReading.2 with
    | .waiter => (driver, some .waitSet)
    | future => ({ driver with waiters := driver.waiters ++ [⟨future, driver.triggers⟩] }, none)
  | .waitSet =>
    ({ driver with
      state := .enabled
      waiters := driver.waiters ++ [⟨.waiter, driver.triggers⟩] }, none)
  | .setMode mode => (driver, some (.exchange mode driver.state))
  | .exchange mode prev =>
    if prev = .uninitialized then
      (driver, none)
    else if driver.state = prev ∧ spurious = false then
      ({ driver with state := .ofMode mode }, none)
    else
      (driver, some (.exchange mode driver.state))

/-- The driver after a call that nothing interrupts. -/
def alone : Nat → SharedCall → Stts22h → Stts22h
  | 0, _, driver => driver
  | fuel + 1, call, driver =>
    match call.next false driver with
    | (driver, none) => driver
    | (driver, some call) => alone fuel call driver

end SharedCall

namespace SharedStts22h

/-- `other` is what neither the trigger nor the waiting nor the mode is about. -/
inductive Event
  | call (call : SharedCall)
  | advance (i : Nat) (spurious : Bool)
  | other (e : Stts22h.Event)
  deriving DecidableEq

def initialized : SharedStts22h := ⟨.initialized, [], none⟩

def step (e : Event) (sys : SharedStts22h) : Except Fault SharedStts22h :=
  match e with
  | .call call =>
    if call.begins then .ok { sys with calls := sys.calls ++ [call] } else .error .disabled
  | .advance i spurious =>
    match sys.calls[i]? with
    | none => .error .disabled
    | some call =>
      let (driver, rest) := call.next spurious sys.driver
      .ok {
        driver
        calls :=
          match rest with
          | some rest => sys.calls.set i rest
          | none => sys.calls.eraseIdx i
        mode := (call.sets spurious sys.driver.state).or sys.mode }
  | .other e =>
    match e with
    | .triggerMeasurement | .waitForReading | .setMode _ => .error .disabled
    | .run _ | .poll .. | .drop _ => do return { sys with driver := ← Stts22h.step e sys.driver }

end SharedStts22h

namespace SharedCall

theorem trigger_alone (driver : Stts22h) :
    alone 4 .triggerMeasurement driver = driver.triggerMeasurement.1 := by
  cases here : driver.state with
  | uninitialized | disabled | sleeping | enabled | measuring =>
    simp [alone, next, Stts22h.triggerMeasurement, here]

theorem wait_alone (driver : Stts22h) : alone 2 .waitForReading driver = driver.waitForReading := by
  cases here : driver.state with
  | uninitialized | disabled | sleeping | enabled | measuring =>
    simp [alone, next, Stts22h.waitForReading, State.waitForReading, here]

theorem setMode_alone (mode : Mode) (driver : Stts22h) :
    alone 2 (.setMode mode) driver = (driver.setMode mode).1 := by
  by_cases unset : driver.state = .uninitialized
  · have same : ({ driver with state := .uninitialized } : Stts22h) = driver := by rw [← unset]
    simp [alone, next, Stts22h.setMode, State.setMode, unset, same]
  · simp [alone, next, Stts22h.setMode, State.setMode, unset]

variable {call : SharedCall} {spurious : Bool} {driver : Stts22h} {mode : Mode}

theorem sets_some (sets : call.sets spurious driver.state = some mode) :
    ∃ prev, call = .exchange mode prev ∧
      call.next spurious driver = ({ driver with state := .ofMode mode }, none) := by
  cases call with
  | exchange mode' prev =>
    dsimp only [SharedCall.sets] at sets
    split at sets
    · rename_i taken
      cases sets
      exact ⟨prev, rfl, by simp [next, taken]⟩
    · cases sets
  | _ => cases sets

theorem next_exchange {prev : State} (sets : (exchange mode prev).sets spurious driver.state = none) :
    (exchange mode prev).next spurious driver = (driver, none) ∨
      (exchange mode prev).next spurious driver = (driver, some (.exchange mode driver.state)) := by
  dsimp only [SharedCall.sets] at sets
  dsimp only [next]
  split
  · exact Or.inl rfl
  · rename_i initialized
    split
    · rename_i taken
      rw [if_pos ⟨initialized, taken⟩] at sets
      cases sets
    · exact Or.inr rfl

/-- A call that neither writes back nor sets the mode leaves a driver that is not enabled as it is, and
    will not write back either. -/
theorem next_inactive (inactive : driver.state = .disabled ∨ driver.state = .sleeping)
    (reads : call.writesBack = false) (sets : call.sets spurious driver.state = none) :
    (call.next spurious driver).1.state = driver.state ∧
      ∀ rest, (call.next spurious driver).2 = some rest → rest.writesBack = false := by
  cases call with
  | triggerSet | waitSet => cases reads
  | triggerMeasurement | setMode => exact ⟨rfl, fun rest remains => by cases remains; rfl⟩
  | triggerSignal => exact ⟨rfl, fun rest remains => by cases remains⟩
  | triggerGet => rcases inactive with state | state <;> simp [next, state]
  | waitForReading => rcases inactive with state | state <;> simp [next, state, State.waitForReading]
  | exchange mode prev =>
    rcases next_exchange sets with ended | again
    · rw [ended]
      exact ⟨rfl, fun rest remains => by cases remains⟩
    · rw [again]
      exact ⟨rfl, fun rest remains => by cases remains; rfl⟩

/-- A call that writes back makes the driver one that is enabled. -/
theorem writesBack_active (spurious : Bool) (driver : Stts22h) (writes : call.writesBack = true) :
    ((call.next spurious driver).1.state = .measuring ∨ (call.next spurious driver).1.state = .enabled) ∧
      call.sets spurious driver.state = none := by
  cases call with
  | triggerSet => exact ⟨Or.inl rfl, rfl⟩
  | waitSet => exact ⟨Or.inr rfl, rfl⟩
  | _ => cases writes

end SharedCall

namespace SharedStts22h

variable {sys sys' : SharedStts22h} {e : Event} {call : SharedCall}

/-- A driver that was last set to be disabled or sleeping is. -/
def Kept (sys : SharedStts22h) : Prop :=
  ∀ mode, sys.mode = some mode → mode ≠ .enabled → sys.driver.state = .ofMode mode

/-- No call is about to write back when the driver is set to be disabled or sleeping. -/
def NotOvertaken (e : Event) (sys : SharedStts22h) : Prop :=
  match e with
  | .advance i spurious =>
    ∀ call ∈ sys.calls[i]?, ∀ mode ∈ call.sets spurious sys.driver.state, mode ≠ .enabled →
      ∀ other ∈ sys.calls, other.writesBack = false
  | .call _ | .other _ => True

instance : ∀ (e : Event) (sys : SharedStts22h), Decidable (NotOvertaken e sys)
  | .advance i spurious, sys =>
    inferInstanceAs (Decidable (∀ call ∈ sys.calls[i]?, ∀ mode ∈ call.sets spurious sys.driver.state,
      mode ≠ .enabled → ∀ other ∈ sys.calls, other.writesBack = false))
  | .call _, _ | .other _, _ => inferInstanceAs (Decidable True)

/-- What keeps the mode: no call will write back before it is set again. -/
structure Settled (sys : SharedStts22h) : Prop where
  kept : Kept sys
  reads : ∀ mode, sys.mode = some mode → mode ≠ .enabled → ∀ call ∈ sys.calls, call.writesBack = false

theorem other_state {e : Stts22h.Event} (done : step (.other e) sys = .ok sys') :
    sys'.driver.state = sys.driver.state ∧ sys'.calls = sys.calls ∧ sys'.mode = sys.mode := by
  cases e with
  | triggerMeasurement | waitForReading | setMode => cases done
  | run answer =>
    cases done
    obtain ⟨task, reading, signaling, ran, -⟩ := Stts22h.run_effect sys.driver answer
    have state := congrArg Stts22h.state ran
    exact ⟨state, rfl, rfl⟩
  | drop waiter =>
    cases done
    exact ⟨rfl, rfl, rfl⟩
  | poll waiter waker =>
    obtain ⟨driver, polled, rest⟩ := bind_ok_iff.mp done
    cases rest
    refine ⟨?_, rfl, rfl⟩
    change sys.driver.poll waiter waker = .ok driver at polled
    unfold Stts22h.poll at polled
    split at polled
    · cases polled
    · obtain ⟨_, -, rest⟩ := bind_ok_iff.mp polled
      cases rest
      rfl

theorem advance_ok {i : Nat} {spurious : Bool} (done : step (.advance i spurious) sys = .ok sys') :
    ∃ call, sys.calls[i]? = some call ∧ sys'.driver = (call.next spurious sys.driver).1 ∧
      sys'.mode = (call.sets spurious sys.driver.state).or sys.mode ∧
      ∀ other ∈ sys'.calls, other ∈ sys.calls ∨ (call.next spurious sys.driver).2 = some other := by
  dsimp only [step] at done
  cases here : sys.calls[i]? with
  | none =>
    rw [here] at done
    cases done
  | some call =>
    rw [here] at done
    cases done
    refine ⟨call, rfl, rfl, rfl, fun other member => ?_⟩
    cases remains : (call.next spurious sys.driver).2 with
    | none =>
      simp only [remains] at member
      exact Or.inl (List.mem_of_mem_eraseIdx member)
    | some rest =>
      simp only [remains] at member
      rcases List.mem_or_eq_of_mem_set member with earlier | rfl
      · exact Or.inl earlier
      · exact Or.inr rfl

theorem inactive_of_mode {mode : Mode} (other : mode ≠ .enabled) :
    State.ofMode mode = .disabled ∨ State.ofMode mode = .sleeping := by
  cases mode with
  | disabled => exact Or.inl rfl
  | sleeping => exact Or.inr rfl
  | enabled => exact absurd rfl other

theorem advance_settled {i : Nat} {spurious : Bool} (settled : Settled sys)
    (allowed : NotOvertaken (.advance i spurious) sys)
    (done : step (.advance i spurious) sys = .ok sys') : Settled sys' := by
  obtain ⟨call, here, driver, mode, calls⟩ := advance_ok done
  cases sets : call.sets spurious sys.driver.state with
  | some newMode =>
    obtain ⟨prev, -, taken⟩ := SharedCall.sets_some sets
    rw [taken] at driver calls
    rw [sets, Option.some_or] at mode
    refine ⟨fun last now _ => ?_, fun last now inactive other member => ?_⟩
    · rw [mode] at now
      cases now
      rw [driver]
    · rw [mode] at now
      cases now
      rcases calls other member with earlier | remains
      · exact allowed call here newMode sets inactive other earlier
      · cases remains
  | none =>
    rw [sets, Option.none_or] at mode
    have quiet : ∀ last, sys'.mode = some last → last ≠ .enabled →
        sys.driver.state = .ofMode last ∧ (call.next spurious sys.driver).1.state = sys.driver.state ∧
          ∀ rest, (call.next spurious sys.driver).2 = some rest → rest.writesBack = false := by
      intro last now inactive
      rw [mode] at now
      have state := settled.kept last now inactive
      refine ⟨state, SharedCall.next_inactive ?_ ?_ sets⟩
      · rw [state]
        exact inactive_of_mode inactive
      · exact settled.reads last now inactive call (List.mem_of_getElem? here)
    refine ⟨fun last now inactive => ?_, fun last now inactive other member => ?_⟩
    · obtain ⟨state, same, -⟩ := quiet last now inactive
      rw [driver, same, state]
    · obtain ⟨-, -, reads⟩ := quiet last now inactive
      rcases calls other member with earlier | remains
      · exact settled.reads last (mode ▸ now) inactive other earlier
      · exact reads other remains

theorem step_settled (settled : Settled sys) (allowed : NotOvertaken e sys)
    (done : step e sys = .ok sys') : Settled sys' := by
  cases e with
  | advance i spurious => exact advance_settled settled allowed done
  | other e =>
    obtain ⟨state, calls, mode⟩ := other_state done
    refine ⟨fun last now inactive => ?_, fun last now inactive => ?_⟩
    · rw [state]
      exact settled.kept last (mode ▸ now) inactive
    · rw [calls]
      exact settled.reads last (mode ▸ now) inactive
  | call call =>
    dsimp only [step] at done
    split at done
    · rename_i begins
      cases done
      refine ⟨settled.kept, fun last now inactive other member => ?_⟩
      rcases List.mem_append.mp member with earlier | made
      · exact settled.reads last now inactive other earlier
      · rw [List.mem_singleton.mp made]
        cases call with
        | triggerSet | waitSet => cases begins
        | _ => rfl
    · cases done

theorem initialized_settled : Settled initialized where
  kept _ now := by cases now
  reads _ now := by cases now

/-- A mode that is set while a call is about to write back can be lost. -/
theorem overtaken_lost {i : Nat} {spurious : Bool} {mode : Mode} {other : SharedCall}
    (here : sys.calls[i]? = some call) (sets : call.sets spurious sys.driver.state = some mode)
    (inactive : mode ≠ .enabled) (member : other ∈ sys.calls) (writes : other.writesBack = true)
    (done : step (.advance i spurious) sys = .ok sys') :
    ∃ lost, Reachable step sys' lost ∧ ¬ Kept lost := by
  have ended : (call.next spurious sys.driver).2 = none ∧ call.writesBack = false := by
    obtain ⟨prev, rfl, taken⟩ := SharedCall.sets_some sets
    exact ⟨congrArg Prod.snd taken, rfl⟩
  have same : sys'.calls = sys.calls.eraseIdx i ∧ sys'.mode = some mode := by
    simp only [step, here, sets, ended, Option.some_or] at done
    cases done
    exact ⟨rfl, rfl⟩
  have remains : other ∈ sys'.calls := by
    obtain ⟨j, at_j⟩ := List.mem_iff_getElem?.mp member
    have apart : j ≠ i := by
      intro same
      rw [same, here] at at_j
      cases at_j
      rw [ended.2] at writes
      cases writes
    rw [same.1]
    exact List.mem_eraseIdx_iff_getElem?.mpr ⟨j, apart, at_j⟩
  obtain ⟨j, at_j⟩ := List.mem_iff_getElem?.mp remains
  have active := SharedCall.writesBack_active false sys'.driver writes
  have advanced : ∃ lost, step (.advance j false) sys' = .ok lost := by
    simp only [step, at_j]
    exact ⟨_, rfl⟩
  obtain ⟨lost, advanced⟩ := advanced
  refine ⟨lost, Reaches.next _ .init trivial advanced, fun kept => ?_⟩
  obtain ⟨call', at_j', driver, last, -⟩ := advance_ok advanced
  rw [at_j] at at_j'
  cases at_j'
  rw [active.2, Option.none_or, same.2] at last
  have state := kept mode last inactive
  rw [driver] at state
  rcases inactive_of_mode inactive with is | is <;> rcases active.1 with now | now <;>
    rw [is, now] at state <;> cases state

/-- A driver that is set to be disabled or sleeping stays so until another mode is set, as long as no
    call is about to write back when it is set; and otherwise this can fail later. -/
theorem mode_kept (reached : Reaches step NotOvertaken initialized sys) :
    Kept sys ∧ ∀ e sys', step e sys = .ok sys' → ¬ NotOvertaken e sys →
      ∃ lost, Reachable step sys' lost ∧ ¬ Kept lost := by
  have settled := reached.invariant Settled initialized_settled
    fun _ _ _ settled allowed done => step_settled settled allowed done
  refine ⟨settled.kept, fun e sys' done overtaken => ?_⟩
  cases e with
  | call call => exact absurd trivial overtaken
  | other e => exact absurd trivial overtaken
  | advance i spurious =>
    dsimp only [NotOvertaken] at overtaken
    push Not at overtaken
    obtain ⟨call, here, mode, sets, inactive, other, member, writes⟩ := overtaken
    exact overtaken_lost here sets inactive member (by simpa using writes) done

/-- A measurement is triggered, waited for by one task and triggered again by another, and then the
    sensor is disabled before the wait has read the state. -/
def disabledFirst : List Event :=
  [.call (.setMode .enabled), .advance 0 false, .advance 0 false,
    .call .triggerMeasurement, .advance 0 false, .advance 0 false, .advance 0 false, .advance 0 false,
    .call .waitForReading, .call .triggerMeasurement, .advance 1 false, .call (.setMode .disabled),
    .advance 2 false, .advance 2 true, .advance 2 false, .advance 1 false, .advance 0 false]

theorem mode_kept_sample :
    ∃ sys, sys.mode = some .disabled ∧ sys.driver.state = .disabled ∧ Kept sys := by
  have run : ∃ sys, Reaches step NotOvertaken initialized sys ∧
      decide (sys.mode = some .disabled ∧ sys.driver.state = .disabled) = true :=
    reaches_of_check disabledFirst (by decide +kernel)
  obtain ⟨sys, reached, here⟩ := run
  obtain ⟨mode, state⟩ := of_decide_eq_true here
  exact ⟨sys, mode, state, (mode_kept reached).1⟩

/-- Another task disables the sensor after a trigger has seen it enabled. -/
def disabledBetween : List Event :=
  [.call (.setMode .enabled), .advance 0 false, .advance 0 false,
    .call .triggerMeasurement, .advance 0 false, .advance 0 false,
    .call (.setMode .disabled), .advance 1 false, .advance 1 false, .advance 0 false]

theorem disabled_is_measuring :
    ∃ sys, Reachable step initialized sys ∧ sys.mode = some .disabled ∧ sys.driver.state = .measuring ∧
      ¬ Kept sys := by
  have run : ∃ sys, Reachable step initialized sys ∧
      decide (sys.mode = some .disabled ∧ sys.driver.state = .measuring) = true :=
    reaches_of_check disabledBetween (by decide +kernel)
  obtain ⟨sys, reached, here⟩ := run
  obtain ⟨mode, state⟩ := of_decide_eq_true here
  refine ⟨sys, reached, mode, state, fun kept => ?_⟩
  have disabled := kept .disabled mode (by decide)
  rw [state] at disabled
  cases disabled

end SharedStts22h

end ArielOS.Sensors
