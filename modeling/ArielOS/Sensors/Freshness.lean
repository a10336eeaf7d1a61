import ArielOS.Sensors.Stts22h

namespace ArielOS.Sensors

open Machine

/-- The trigger after which the measurement in flight was started: from the access that starts it
    until its samples are signalled. -/
def Task.inFlight : Task → Option Nat
  | .readStatus startedAfter | .sleep startedAfter | .readTemperature startedAfter => some startedAfter
  | .signal (.ok measured) => some measured.startedAfter
  | .wait | .startMeasurement | .signal (.error _) => none

namespace Stts22h

variable {driver driver' : Stts22h} {e : Event} {answer : Answer} {mode : Mode} {i : Nat} {waker : Waker}

/-- The measurement of each resolved reading was started after the latest successful trigger before
    the call that made the waiter. -/
def Fresh (driver : Stts22h) : Prop :=
  ∀ r ∈ driver.resolutions, ∀ measured, r.result = .ok measured →
    r.createdAfter ≤ measured.startedAfter

/-- No trigger succeeds while a measurement is in flight. -/
def TriggersApart (e : Event) (driver : Stts22h) : Prop :=
  e = .triggerMeasurement → driver.state = .enabled ∨ driver.state = .measuring →
    driver.task.inFlight = none

instance : ∀ e driver, Decidable (TriggersApart e driver) := fun _ _ =>
  inferInstanceAs (Decidable (_ = Event.triggerMeasurement → _))

/-- No reading in the driver is older than the latest trigger. -/
structure UpToDate (driver : Stts22h) : Prop where
  inFlight : ∀ startedAfter, driver.task.inFlight = some startedAfter → startedAfter = driver.triggers
  stored : ∀ measured, driver.reading = .ready (.ok measured) →
    measured.startedAfter = driver.triggers
  created : ∀ w ∈ driver.waiters, w.createdAfter ≤ driver.triggers
  resolved : Fresh driver

theorem run_effect (driver : Stts22h) (answer : Answer) : ∃ task reading signaling,
    driver.run answer = { driver with task, reading, signaling } ∧
      (task.inFlight = none ∨ task.inFlight = driver.task.inFlight ∨
        task.inFlight = some driver.triggers) ∧
      ∀ measured, reading = .ready (.ok measured) →
        driver.reading = reading ∨ driver.task.inFlight = some measured.startedAfter := by
  unfold run
  cases here : driver.task with
  | wait =>
    dsimp only
    split
    · exact ⟨_, _, _, rfl, Or.inl rfl, fun _ _ => Or.inl rfl⟩
    · exact ⟨driver.task, _, _, rfl, Or.inl (by rw [here]; rfl), fun _ _ => Or.inl rfl⟩
  | startMeasurement =>
    cases answer with
    | none => exact ⟨_, _, _, rfl, Or.inl rfl, fun _ _ => Or.inl rfl⟩
    | some buf => exact ⟨_, _, _, rfl, Or.inr (Or.inr rfl), fun _ _ => Or.inl rfl⟩
  | readStatus startedAfter =>
    cases answer with
    | none => exact ⟨_, _, _, rfl, Or.inl rfl, fun _ _ => Or.inl rfl⟩
    | some buf =>
      dsimp only
      split
      · exact ⟨_, _, _, rfl, Or.inr (Or.inl rfl), fun _ _ => Or.inl rfl⟩
      · exact ⟨_, _, _, rfl, Or.inr (Or.inl rfl), fun _ _ => Or.inl rfl⟩
  | sleep startedAfter => exact ⟨_, _, _, rfl, Or.inr (Or.inl rfl), fun _ _ => Or.inl rfl⟩
  | readTemperature startedAfter =>
    cases answer with
    | none => exact ⟨_, _, _, rfl, Or.inl rfl, fun _ _ => Or.inl rfl⟩
    | some buf => exact ⟨_, _, _, rfl, Or.inr (Or.inl rfl), fun _ _ => Or.inl rfl⟩
  | signal result =>
    refine ⟨.wait, (driver.reading.signal result).1, _, rfl, Or.inl rfl, fun measured ready => Or.inr ?_⟩
    rw [SignalState.signal_fst, SignalState.ready.injEq] at ready
    subst ready
    rfl

theorem run_upToDate (upToDate : UpToDate driver) : UpToDate (driver.run answer) := by
  obtain ⟨task, reading, signaling, done, flight, stored⟩ := run_effect driver answer
  rw [done]
  refine ⟨fun startedAfter now => ?_, fun measured ready => ?_, upToDate.created, upToDate.resolved⟩
  · rcases flight with none | same | started
    · rw [none] at now
      cases now
    · exact upToDate.inFlight startedAfter (same.symm.trans now)
    · exact (Option.some.inj (started.symm.trans now)).symm
  · rcases stored measured ready with same | ended
    · exact upToDate.stored measured (same.trans ready)
    · exact upToDate.inFlight _ ended

theorem triggerMeasurement_upToDate (upToDate : UpToDate driver)
    (apart : TriggersApart .triggerMeasurement driver) : UpToDate driver.triggerMeasurement.1 := by
  have idle := apart rfl
  unfold triggerMeasurement
  dsimp only
  split
  · rename_i measuring
    refine ⟨fun startedAfter now => ?_, fun measured ready => ?_, fun w member => ?_,
      upToDate.resolved⟩
    · rw [idle (Or.inr measuring)] at now
      cases now
    · exact absurd ready (SignalState.clear_ne_ready _ _)
    · exact Nat.le_succ_of_le (upToDate.created w member)
  · rename_i enabled
    refine ⟨fun startedAfter now => ?_, fun measured ready => ?_, fun w member => ?_,
      upToDate.resolved⟩
    · rw [idle (Or.inl enabled)] at now
      cases now
    · exact absurd ready (SignalState.clear_ne_ready _ _)
    · exact Nat.le_succ_of_le (upToDate.created w member)
  all_goals
    exact ⟨upToDate.inFlight, fun _ ready => absurd ready (SignalState.clear_ne_ready _ _),
      upToDate.created, upToDate.resolved⟩

theorem waitForReading_upToDate (upToDate : UpToDate driver) : UpToDate driver.waitForReading := by
  refine ⟨upToDate.inFlight, upToDate.stored, fun w member => ?_, upToDate.resolved⟩
  rcases List.mem_append.mp member with earlier | made
  · exact upToDate.created w earlier
  · rw [List.mem_singleton.mp made]
    exact Nat.le_refl _

theorem poll_upToDate (upToDate : UpToDate driver) (done : driver.poll i waker = .ok driver') :
    UpToDate driver' := by
  unfold poll at done
  split at done
  · cases done
  rename_i waiter found
  obtain ⟨⟨future, reading, result⟩, polled, done⟩ := bind_ok_iff.mp done
  cases done
  have created := upToDate.created waiter (List.mem_of_getElem? found)
  refine ⟨upToDate.inFlight, fun measured ready => ?_, fun w member => ?_, ?_⟩
  · exact upToDate.stored measured ((ReadingWaiter.poll_ok polled).1 ready)
  · rcases List.mem_or_eq_of_mem_set member with earlier | rfl
    · exact upToDate.created w earlier
    · exact created
  · intro r member measured ok
    rcases List.mem_append.mp member with new | earlier
    · rw [Option.mem_toList, Option.map_eq_some_iff] at new
      obtain ⟨given, resolved, rfl⟩ := new
      dsimp only at ok ⊢
      subst ok
      rw [upToDate.stored measured ((ReadingWaiter.poll_ok polled).2 resolved)]
      exact created
    · exact upToDate.resolved r earlier measured ok

theorem step_upToDate (upToDate : UpToDate driver) (apart : TriggersApart e driver)
    (done : step e driver = .ok driver') : UpToDate driver' := by
  cases e with
  | run answer => cases done; exact run_upToDate upToDate
  | triggerMeasurement => cases done; exact triggerMeasurement_upToDate upToDate apart
  | waitForReading => cases done; exact waitForReading_upToDate upToDate
  | setMode mode =>
    cases done
    exact ⟨upToDate.inFlight, upToDate.stored, upToDate.created, upToDate.resolved⟩
  | poll i waker => exact poll_upToDate upToDate done
  | drop i =>
    cases done
    exact ⟨upToDate.inFlight, upToDate.stored,
      fun w member => upToDate.created w (List.mem_of_mem_eraseIdx member), upToDate.resolved⟩

theorem initialized_upToDate : UpToDate initialized where
  inFlight _ now := by cases now
  stored _ ready := by cases ready
  created _ member := by cases member
  resolved _ member := by cases member

section Ending

variable {startedAfter : Nat}

/-- The driver when a measurement has ended with the reading. -/
def ended (measured : Measured) (driver : Stts22h) : Stts22h :=
  { driver with task := .wait, reading := .ready (.ok measured) }

theorem signal_ends {measured : Measured} (here : driver.task = .signal (.ok measured)) :
    Reachable step driver (ended measured driver) := by
  refine .next (.run none) .init trivial ?_
  simp [step, run, here, ended]

theorem readTemperature_ends (here : driver.task = .readTemperature startedAfter) :
    Reachable step driver (ended ⟨samples (0, 0), startedAfter⟩ driver) := by
  have taken : Reachable step driver
      { driver with task := .signal (.ok ⟨samples (0, 0), startedAfter⟩) } :=
    .next (.run (some (0, 0))) .init trivial (by simp [step, run, here])
  exact taken.trans (signal_ends rfl)

theorem readStatus_ends (here : driver.task = .readStatus startedAfter) :
    Reachable step driver (ended ⟨samples (0, 0), startedAfter⟩ driver) := by
  have taken : Reachable step driver { driver with task := .readTemperature startedAfter } :=
    .next (.run (some (0, 0))) .init trivial (by simp [step, run, here])
  exact taken.trans (readTemperature_ends rfl)

theorem inFlight_ends (flight : driver.task.inFlight = some startedAfter) :
    ∃ samples, Reachable step driver (ended ⟨samples, startedAfter⟩ driver) := by
  cases here : driver.task with
  | wait => rw [here] at flight; cases flight
  | startMeasurement => rw [here] at flight; cases flight
  | readStatus => rw [here] at flight; cases flight; exact ⟨_, readStatus_ends here⟩
  | readTemperature => rw [here] at flight; cases flight; exact ⟨_, readTemperature_ends here⟩
  | sleep =>
    rw [here] at flight
    cases flight
    have taken : Reachable step driver { driver with task := .readStatus startedAfter } :=
      .next (.run none) .init trivial (by simp [step, run, here])
    exact ⟨_, taken.trans (readStatus_ends rfl)⟩
  | signal result =>
    rw [here] at flight
    cases result with
    | error error => cases flight
    | ok measured => cases flight; exact ⟨_, signal_ends here⟩

theorem poll_stored {result : ReadingResult Measured} {createdAfter : Nat} (waker : Nat)
    (found : driver.waiters[i]? = some ⟨.waiter, createdAfter⟩)
    (stored : driver.reading = .ready result) :
    ∃ driver', driver.poll i waker = .ok driver' ∧ ⟨result, createdAfter⟩ ∈ driver'.resolutions := by
  unfold poll
  rw [found, stored]
  exact ⟨_, rfl, List.mem_cons_self⟩

theorem stored_resolves {result : ReadingResult Measured} (measuring : driver.state = .measuring)
    (stored : driver.reading = .ready result) :
    ∃ driver', Reachable step driver driver' ∧ ⟨result, driver.triggers⟩ ∈ driver'.resolutions := by
  have made : driver.waitForReading.waiters[driver.waiters.length]? =
      some ⟨.waiter, driver.triggers⟩ := by
    simp [waitForReading, measuring, State.waitForReading]
  obtain ⟨driver', polled, member⟩ := poll_stored 0 made stored
  have waited : Reachable step driver driver.waitForReading :=
    .next .waitForReading .init trivial rfl
  exact ⟨driver', waited.next (.poll driver.waiters.length 0) trivial polled, member⟩

end Ending

/-- Every reading that a waiter resolves to is fresh, as long as no trigger succeeds while a
    measurement is in flight. If one does, a later reading need not be. -/
theorem readings_fresh (reached : Reaches step TriggersApart initialized driver) :
    Fresh driver ∧ ((driver.state = .enabled ∨ driver.state = .measuring) →
      driver.task.inFlight ≠ none →
      ∃ stale, Reachable step driver.triggerMeasurement.1 stale ∧ ¬ Fresh stale) := by
  have upToDate := reached.invariant UpToDate initialized_upToDate fun _ _ _ upToDate apart done =>
    step_upToDate upToDate apart done
  refine ⟨upToDate.resolved, fun active flying => ?_⟩
  obtain ⟨startedAfter, flight⟩ := Option.ne_none_iff_exists'.mp flying
  have triggered : driver.triggerMeasurement.1.state = .measuring ∧
      driver.triggerMeasurement.1.triggers = driver.triggers + 1 ∧
      driver.triggerMeasurement.1.task = driver.task := by
    unfold triggerMeasurement
    rcases active with active | active <;> simp [active]
  obtain ⟨measuring, triggers, task⟩ := triggered
  generalize driver.triggerMeasurement.1 = driver' at measuring triggers task ⊢
  obtain ⟨samples, measured⟩ := inFlight_ends (by rw [task]; exact flight)
  have waiting : (ended ⟨samples, startedAfter⟩ driver').state = .measuring := measuring
  obtain ⟨stale, resolves, member⟩ := stored_resolves waiting rfl
  refine ⟨stale, measured.trans resolves, fun fresh => ?_⟩
  have older := fresh _ member _ rfl
  change driver'.triggers ≤ startedAfter at older
  rw [triggers, upToDate.inFlight startedAfter flight] at older
  exact Nat.not_succ_le_self _ older

section Samples

/-- A trigger, its measurement, and the reading; then a second trigger and a waiter. -/
def measureOnce : List Event :=
  [.triggerMeasurement, .run none, .run (some (0, 0)), .run (some (0, 0)), .run (some (196, 9)),
    .run none, .waitForReading, .poll 0 0, .triggerMeasurement, .waitForReading]

/-- The driver has resolved one waiter, to 25.00 degrees. -/
def resolvedOnce (driver : Stts22h) : Bool :=
  driver.resolutions = [⟨.ok ⟨[⟨2500, .symmetricalError 50 0 (-2)⟩], 1⟩, 1⟩]

theorem readings_fresh_sample : ∃ driver : Stts22h,
    driver.resolutions = [⟨.ok ⟨[⟨2500, .symmetricalError 50 0 (-2)⟩], 1⟩, 1⟩] ∧ Fresh driver := by
  have run : ∃ driver, Reaches step TriggersApart initialized driver ∧ resolvedOnce driver = true :=
    reaches_of_check measureOnce (by decide +kernel)
  obtain ⟨driver, reached, resolved⟩ := run
  exact ⟨driver, of_decide_eq_true resolved, (readings_fresh reached).1⟩

/-- Triggers once more while the measurement is in flight. The waiter gets this measurement. -/
def triggerInFlight : List Event :=
  [.triggerMeasurement, .run none, .run (some (0, 0)), .triggerMeasurement, .waitForReading,
    .run (some (0, 0)), .run (some (196, 9)), .run none, .poll 0 0]

theorem stale_reading : ∃ driver, Reachable step initialized driver ∧ ¬ Fresh driver := by
  have run : ∃ driver, Reachable step initialized driver ∧
      decide (driver.resolutions = [⟨.ok ⟨[⟨2500, .symmetricalError 50 0 (-2)⟩], 1⟩, 2⟩]) = true :=
    reaches_of_check triggerInFlight (by decide +kernel)
  obtain ⟨driver, reached, resolved⟩ := run
  refine ⟨driver, reached, fun fresh => ?_⟩
  have older := fresh ⟨.ok ⟨[⟨2500, .symmetricalError 50 0 (-2)⟩], 1⟩, 2⟩
    (by rw [of_decide_eq_true resolved]; exact List.mem_singleton_self _) _ rfl
  exact absurd older (by decide)

end Samples

end Stts22h

end ArielOS.Sensors
