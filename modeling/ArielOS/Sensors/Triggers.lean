import ArielOS.Sensors.Nrf91Gnss

namespace ArielOS.Sensors

open Machine

namespace Nrf91Gnss

variable {Data Samples : Type} {convertToSamples : Data → Samples}
  {driver driver' : Nrf91Gnss Data Samples} {e : GnssEvent Data} {input : Input Data} {i : Nat}
  {waker : Waker} {latestData : Option Data} {shouldSendUpdate : Bool}

/-- An accepted trigger without an answer is pending, or a fix is on its way, or a result is stored. -/
def Answerable (driver : Nrf91Gnss Data Samples) : Prop :=
  driver.unanswered = true → driver.commandChannel = some .trigger ∨ driver.task.fixing = true ∨
    driver.resultSignal.isReady = true

/-- The driver was never disabled, put to sleep or stopped. -/
structure Active (driver : Nrf91Gnss Data Samples) : Prop where
  state : driver.state = .enabled ∨ driver.state = .measuring
  noStop : driver.commandChannel ≠ some .stop

/-- The step keeps a trigger: an accepted one finds room in the channel or is covered by another one
    or by a fix, and `run` does not take one for another command than `Start`, unless its result is
    stored. -/
def TriggerKept : GnssEvent Data → Nrf91Gnss Data Samples → Prop
  | .triggerMeasurement, driver => driver.commandChannel = some .trigger ∨ driver.task.fixing = true ∨
      driver.state = .enabled ∧ driver.commandChannel = none
  | .run _, driver => driver.task.awaitsStart = true → driver.commandChannel = some .trigger →
      driver.unanswered = true → driver.resultSignal.isReady = true
  | .waitForReading, _ | .enable, _ | .poll _ _, _ | .drop _, _ => True

instance : ∀ e (driver : Nrf91Gnss Data Samples), Decidable (TriggerKept e driver)
  | .triggerMeasurement, _ => inferInstanceAs (Decidable (_ ∨ _))
  | .run _, _ => inferInstanceAs (Decidable (_ → _))
  | .waitForReading, _ | .enable, _ | .poll _ _, _ | .drop _, _ => inferInstanceAs (Decidable True)

theorem trySend_active {command : Command} (other : command ≠ .stop) (active : Active driver) :
    Active (driver.trySend command) := by
  unfold trySend
  split
  · exact ⟨active.state, fun same => other (Option.some.inj same)⟩
  · exact active

/-- What a part of `run` does, in the single shot mode, to commands and results. -/
structure RunEffect (driver driver' : Nrf91Gnss Data Samples) : Prop where
  state : driver'.state = driver.state
  unanswered : driver'.unanswered = driver.unanswered
  noStop : driver.commandChannel ≠ some .stop → driver'.commandChannel ≠ some .stop

/-- It answers a trigger or keeps what there was to answer it. -/
structure Keeps (driver driver' : Nrf91Gnss Data Samples) : Prop where
  command : driver.commandChannel = some .trigger →
    driver'.commandChannel = some .trigger ∨ driver'.task.fixing = true
  fix : driver.task.fixing = true → driver'.task.fixing = true ∨ driver'.resultSignal.isReady = true
  result : driver.resultSignal.isReady = true → driver'.resultSignal.isReady = true

/-- It drops a trigger. -/
structure Drops (driver driver' : Nrf91Gnss Data Samples) : Prop where
  awaits : driver.task.awaitsStart = true
  command : driver.commandChannel = some .trigger
  dropped : driver'.commandChannel = none
  noFix : driver'.task.fixing = false
  result : driver'.resultSignal = driver.resultSignal

theorem Keeps.answerable (keeps : Keeps driver driver') (effect : RunEffect driver driver')
    (answerable : Answerable driver) : Answerable driver' := by
  intro unanswered
  rw [effect.unanswered] at unanswered
  rcases answerable unanswered with command | fix | result
  · rcases keeps.command command with command | fix
    · exact Or.inl command
    · exact Or.inr (Or.inl fix)
  · exact Or.inr (keeps.fix fix)
  · exact Or.inr (Or.inr (keeps.result result))

theorem Drops.answerable_iff (drops : Drops driver driver') (effect : RunEffect driver driver') :
    Answerable driver' ↔ TriggerKept (.run input) driver := by
  unfold Answerable TriggerKept
  rw [drops.dropped, drops.noFix, drops.result, effect.unanswered]
  simp [drops.awaits, drops.command]

theorem keeps_of_task {task : GnssTask Data} (fix : driver.task.fixing = true → task.fixing = true) :
    Keeps driver { driver with task } :=
  ⟨Or.inl, fun fixing => Or.inl (fix fixing), id⟩

theorem handleItem_effect {item : StreamItem Data} :
    RunEffect driver
      (driver.handleItem .singleShot convertToSamples latestData shouldSendUpdate item) := by
  cases item with
  | ended => cases latestData <;> exact ⟨rfl, rfl, id⟩
  | positionVelocityTime pos => cases shouldSendUpdate <;> exact ⟨rfl, rfl, id⟩
  | nmea => exact ⟨rfl, rfl, id⟩
  | agps => exact ⟨rfl, rfl, id⟩
  | error => exact ⟨rfl, rfl, id⟩

/-- An item of the stream keeps the fix going, unless it stores the result. -/
theorem handleItem_keeps {item : StreamItem Data} :
    Keeps driver (driver.handleItem .singleShot convertToSamples latestData shouldSendUpdate item) := by
  have stored : ∀ (driver : Nrf91Gnss Data Samples) result,
      (driver.signalResult result).resultSignal.isReady = true := by
    intro driver result
    simp [signalResult, SignalState.isReady]
  cases item with
  | ended =>
    cases latestData with
    | none => exact ⟨Or.inl, fun _ => Or.inr (stored _ _), fun _ => stored _ _⟩
    | some data => exact ⟨Or.inl, fun _ => Or.inr (stored _ _), fun _ => stored _ _⟩
  | positionVelocityTime pos =>
    cases shouldSendUpdate with
    | true => exact ⟨Or.inl, fun _ => Or.inl rfl, fun _ => stored _ _⟩
    | false => exact keeps_of_task fun _ => rfl
  | nmea => exact keeps_of_task fun _ => rfl
  | agps => exact keeps_of_task fun _ => rfl
  | error => exact keeps_of_task fun _ => rfl

theorem run_effect (active : Active driver) :
    RunEffect driver (driver.run .singleShot convertToSamples input) ∧
      ((driver.task.awaitsStart = true → driver.commandChannel ≠ some .trigger) ∧
          Keeps driver (driver.run .singleShot convertToSamples input) ∨
        Drops driver (driver.run .singleShot convertToSamples input)) := by
  have idle : ∀ {task : GnssTask Data}, driver.task = task → task.awaitsStart = false →
      driver.task.awaitsStart = true → driver.commandChannel ≠ some .trigger := by
    intro task here other awaits
    rw [here, other] at awaits
    cases awaits
  have noFix : ∀ {task next : GnssTask Data}, driver.task = task → task.fixing = false →
      driver.task.fixing = true → next.fixing = true := by
    intro task next here other fix
    rw [here, other] at fix
    cases fix
  unfold run
  split
  case h_1 here =>
    split <;> exact ⟨⟨rfl, rfl, id⟩, Or.inl ⟨idle here rfl, keeps_of_task (noFix here rfl)⟩⟩
  case h_2 command here full =>
    -- Only here a command is taken for one that was not sent.
    cases command with
    | start =>
      refine ⟨⟨rfl, rfl, fun _ => nofun⟩, Or.inl ⟨fun _ => by simp [full], ?_⟩⟩
      exact ⟨fun same => by simp [full] at same, fun fix => by simp [here, GnssTask.fixing] at fix, id⟩
    | stop => exact absurd full active.noStop
    | trigger =>
      exact ⟨⟨rfl, rfl, fun _ => nofun⟩, Or.inr ⟨by rw [here]; rfl, full, rfl, rfl, rfl⟩⟩
  case h_3 here empty =>
    exact ⟨⟨rfl, rfl, id⟩, Or.inl ⟨fun _ => by simp [empty], Or.inl, Or.inl, id⟩⟩
  case h_4 here full =>
    exact ⟨⟨rfl, rfl, fun _ => nofun⟩,
      Or.inl ⟨idle here rfl, fun _ => Or.inr rfl, fun _ => Or.inl rfl, id⟩⟩
  case h_5 here full => exact absurd full active.noStop
  case h_6 here full =>
    refine ⟨⟨rfl, rfl, fun _ => nofun⟩, Or.inl ⟨idle here rfl, ?_⟩⟩
    exact ⟨fun same => by simp [full] at same, fun fix => by simp [here, GnssTask.fixing] at fix, id⟩
  case h_7 here empty => exact ⟨⟨rfl, rfl, id⟩, Or.inl ⟨idle here rfl, Or.inl, Or.inl, id⟩⟩
  case h_8 here => exact ⟨⟨rfl, rfl, id⟩, Or.inl ⟨idle here rfl, keeps_of_task fun _ => rfl⟩⟩
  case h_9 here =>
    rw [if_neg (not_not.mpr active.state)]
    exact ⟨⟨rfl, rfl, id⟩, Or.inl ⟨idle here rfl, keeps_of_task fun _ => rfl⟩⟩
  case h_10 _ here => exact ⟨handleItem_effect, Or.inl ⟨idle here rfl, handleItem_keeps⟩⟩
  case h_11 latestData shouldSendUpdate command here full =>
    refine ⟨⟨rfl, rfl, fun _ => nofun⟩, Or.inl ⟨idle here rfl, ?_⟩⟩
    have goesOn : (handleCommand .singleShot latestData shouldSendUpdate command).fixing = true := by
      cases command with
      | start => rfl
      | stop => exact absurd full active.noStop
      | trigger => simp [handleCommand, GnssTask.fixing]
    exact ⟨fun _ => Or.inr goesOn, fun _ => Or.inl goesOn, id⟩
  case h_12 here empty => exact ⟨⟨rfl, rfl, id⟩, Or.inl ⟨idle here rfl, Or.inl, Or.inl, id⟩⟩
  case h_13 here =>
    exact ⟨⟨rfl, rfl, id⟩, Or.inl ⟨idle here rfl, keeps_of_task (noFix here rfl)⟩⟩

theorem run_active (active : Active driver) :
    Active (driver.run .singleShot convertToSamples input) := by
  have effect : RunEffect driver (driver.run .singleShot convertToSamples input) :=
    (run_effect active).1
  exact ⟨by rw [effect.state]; exact active.state, effect.noStop active.noStop⟩

theorem run_answerable_iff (active : Active driver) (answerable : Answerable driver) :
    Answerable (driver.run .singleShot convertToSamples input) ↔ TriggerKept (.run input) driver := by
  obtain ⟨effect, ⟨idle, keeps⟩ | drops⟩ :
      RunEffect driver (driver.run .singleShot convertToSamples input) ∧ _ := run_effect active
  · refine iff_of_true (keeps.answerable effect answerable) fun awaits command => ?_
    exact absurd command (idle awaits)
  · exact drops.answerable_iff effect

theorem triggerMeasurement_active (active : Active driver) : Active driver.triggerMeasurement.1 := by
  unfold triggerMeasurement
  dsimp only
  split
  · exact ⟨active.state, active.noStop⟩
  · have ready : Active { driver with
        resultSignal := driver.resultSignal.clear
        state := .measuring } := ⟨Or.inr rfl, active.noStop⟩
    have other : Command.trigger ≠ .stop := by decide
    have sent := trySend_active other ready
    exact ⟨sent.state, sent.noStop⟩
  all_goals exact ⟨active.state, active.noStop⟩

theorem triggerMeasurement_answerable_iff (active : Active driver) :
    Answerable driver.triggerMeasurement.1 ↔ TriggerKept .triggerMeasurement driver := by
  unfold Answerable TriggerKept triggerMeasurement
  rcases active.state with enabled | measuring
  · simp only [enabled, trySend, true_and]
    cases driver.commandChannel <;> simp
  · simp [measuring]

theorem enable_effect (active : Active driver) :
    (driver.setMode .enabled).1 = { driver with state := .enabled }.trySend .start := by
  unfold setMode State.setMode
  rcases active.state with same | same <;> rw [same] <;> rfl

theorem enable_active (active : Active driver) : Active (driver.setMode .enabled).1 := by
  rw [enable_effect active]
  exact trySend_active (by decide) ⟨Or.inl rfl, active.noStop⟩

theorem enable_answerable (active : Active driver) (answerable : Answerable driver) :
    Answerable (driver.setMode .enabled).1 := by
  rw [enable_effect active]
  intro unanswered
  unfold trySend at unanswered ⊢
  cases full : driver.commandChannel with
  | none =>
    simp only [full] at unanswered ⊢
    rcases answerable unanswered with command | other
    · rw [full] at command
      cases command
    · exact Or.inr other
  | some command =>
    simp only [full] at unanswered ⊢
    rw [← full]
    exact answerable unanswered

theorem poll_effect (done : driver.poll i waker = .ok driver') :
    driver'.state = driver.state ∧ driver'.commandChannel = driver.commandChannel ∧
      driver'.task = driver.task ∧ (driver'.unanswered = true → driver.unanswered = true ∧
        (driver.resultSignal.isReady = true → driver'.resultSignal.isReady = true)) := by
  unfold poll at done
  split at done
  · cases done
  rename_i future found
  obtain ⟨⟨future', resultSignal, result⟩, polled, done⟩ := bind_ok_iff.mp done
  cases done
  refine ⟨rfl, rfl, rfl, fun unanswered => ?_⟩
  dsimp only at unanswered ⊢
  rw [Bool.and_eq_true] at unanswered
  refine ⟨unanswered.1, fun ready => ?_⟩
  cases future with
  | waiter =>
    -- A waiter that finds a result takes it, which is the answer.
    cases here : driver.resultSignal with
    | none => rw [here] at ready; cases ready
    | waiting prevWaker => rw [here] at ready; cases ready
    | ready res =>
      rw [here] at polled
      cases polled
      cases unanswered.2
  | err error =>
    cases polled
    exact ready
  | resolved => cases polled

theorem step_active (active : Active driver)
    (done : step .singleShot convertToSamples e driver = .ok driver') : Active driver' := by
  cases e with
  | run input => cases done; exact run_active active
  | triggerMeasurement => cases done; exact triggerMeasurement_active active
  | waitForReading =>
    cases done
    refine ⟨?_, active.noStop⟩
    unfold waitForReading
    rcases active.state with same | same <;> rw [same] <;> exact Or.inl rfl
  | enable => cases done; exact enable_active active
  | poll i waker =>
    obtain ⟨state, channel, -⟩ := poll_effect done
    exact ⟨by rw [state]; exact active.state, by rw [channel]; exact active.noStop⟩
  | drop i => cases done; exact ⟨active.state, active.noStop⟩

/-- A step keeps triggers answerable exactly if it drops none. -/
theorem step_answerable_iff (active : Active driver) (answerable : Answerable driver)
    (done : step .singleShot convertToSamples e driver = .ok driver') :
    Answerable driver' ↔ TriggerKept e driver := by
  cases e with
  | run input => cases done; exact run_answerable_iff active answerable
  | triggerMeasurement => cases done; exact triggerMeasurement_answerable_iff active
  | waitForReading => cases done; exact iff_of_true answerable trivial
  | enable => cases done; exact iff_of_true (enable_answerable active answerable) trivial
  | poll i waker =>
    obtain ⟨-, channel, task, answer⟩ := poll_effect done
    refine iff_of_true (fun unanswered => ?_) trivial
    obtain ⟨before, result⟩ := answer unanswered
    rw [channel, task]
    exact (answerable before).imp_right (Or.imp_right result)
  | drop i => cases done; exact iff_of_true answerable trivial

/-- In the single shot mode, no accepted trigger is lost as long as each step keeps it, and a step that
    does not keep it loses one. -/
theorem triggers_answerable
    (reached : Reaches (step .singleShot convertToSamples) TriggerKept initialized driver) :
    Answerable driver ∧ ∀ (e : GnssEvent Data) (driver' : Nrf91Gnss Data Samples),
      step .singleShot convertToSamples e driver = .ok driver' →
        (Answerable driver' ↔ TriggerKept e driver) := by
  have both : Active driver ∧ Answerable driver := by
    refine reached.invariant (fun driver => Active driver ∧ Answerable driver) ?_ ?_
    · exact ⟨⟨Or.inl rfl, nofun⟩, nofun⟩
    · intro driver e driver' both kept done
      exact ⟨step_active both.1 done, (step_answerable_iff both.1 both.2 done).mpr kept⟩
  exact ⟨both.2, fun e driver' done => step_answerable_iff both.1 both.2 done⟩

section Samples

/-- A first fix, without the waiter of its result. -/
def firstFix : List (GnssEvent Unit) :=
  [.run .ready, .triggerMeasurement, .run .ready, .run .ready, .run .ready,
    .run (.item (.positionVelocityTime ())), .run .ready, .run (.item .ended)]

def pending (driver : Nrf91Gnss Unit Unit) : Bool :=
  driver.unanswered && driver.commandChannel = some .trigger

/-- The waiter takes the result while the stream is deactivated, and the second trigger is sent when
    `run` awaits one. -/
theorem triggers_answerable_sample : ∃ driver : Nrf91Gnss Unit Unit,
    driver.unanswered = true ∧ driver.commandChannel = some .trigger ∧ Answerable driver := by
  have run : ∃ driver, Reaches (step .singleShot id) TriggerKept initialized driver ∧
      pending driver = true :=
    reaches_of_check (firstFix ++ [.waitForReading, .poll 0 0, .run .ready, .run .ready,
      .triggerMeasurement]) (by decide +kernel)
  obtain ⟨driver, reached, here⟩ := run
  obtain ⟨unanswered, full⟩ := Bool.and_eq_true_iff.mp here
  exact ⟨driver, unanswered, of_decide_eq_true full, (triggers_answerable reached).1⟩

def lost (driver : Nrf91Gnss Unit Unit) : Bool :=
  driver.unanswered && driver.commandChannel = none && !driver.task.fixing &&
    !driver.resultSignal.isReady

/-- The result is waited for only when `run` has found the driver measuring: it takes the second
    trigger for another command than `Start`, and drops it. -/
theorem trigger_lost : ∃ driver : Nrf91Gnss Unit Unit,
    Reachable (step .singleShot id) initialized driver ∧ ¬ Answerable driver := by
  have run : ∃ driver, Reachable (step .singleShot id) initialized driver ∧ lost driver = true :=
    reaches_of_check (firstFix ++ [.run .ready, .run .ready, .waitForReading, .poll 0 0,
      .triggerMeasurement, .run .ready]) (by decide +kernel)
  obtain ⟨driver, reached, here⟩ := run
  refine ⟨driver, reached, fun answerable => ?_⟩
  simp only [lost, Bool.and_eq_true, Bool.not_eq_true', decide_eq_true_eq] at here
  obtain ⟨⟨⟨unanswered, empty⟩, noFix⟩, noResult⟩ := here
  have answer := answerable unanswered
  rw [empty, noFix, noResult] at answer
  simp at answer

end Samples

end Nrf91Gnss

end ArielOS.Sensors
