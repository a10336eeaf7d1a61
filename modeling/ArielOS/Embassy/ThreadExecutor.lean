import ArielOS.Sync.FlagAccount

namespace ArielOS

open Machine Scheduler

def threadFlagWakeup : ThreadFlags := 1

namespace FlagEvent

variable (cpu : Cpu) (sys : FlagSystem)

/-- The thread that does this in its own code. -/
def doneBy : FlagEvent → Option Nat
  | .op o => if o.blocking then sys.caller cpu else none
  | .set .. => none
  | .wait .. => sys.caller cpu
  | .waitAgain => sys.scheduler.executing cpu
  | .clear _ => sys.scheduler.currentTid cpu

/-- The flags that the thread may lose. -/
def asksFor : FlagEvent → ThreadFlags
  | .op _ | .set .. => 0
  | .wait _ mask | .clear mask => mask
  | .waitAgain =>
    match (sys.scheduler.executing cpu).bind sys.waits with
    | some (_, mask) => mask
    | none => 0

/-- It is one iteration of a wait of the thread. -/
def waitsAs (t : Nat) : FlagEvent → Prop
  | .wait .. => sys.caller cpu = some t
  | .waitAgain => sys.scheduler.executing cpu = some t
  | .op _ | .set .. | .clear _ => False

def exits : FlagEvent → Bool
  | .op .exit => true
  | _ => false

end FlagEvent

/-- The tasks are numbered. -/
abbrev TaskId := Nat

/-- Where the thread is in `Executor::run`, with the tasks that are still to be polled. `outside` is
    before the call. -/
inductive RunPlace
  | outside
  | init
  | poll
  | polling (batch : List TaskId)
  | inTask (task : TaskId) (batch : List TaskId)
  | waiting
  deriving DecidableEq

namespace RunPlace

/-- The thread executes `init` or a task. -/
def inClosure : RunPlace → Bool
  | .init | .inTask .. => true
  | .outside | .poll | .polling _ | .waiting => false

def isInTask : RunPlace → Bool
  | .inTask .. => true
  | .outside | .init | .poll | .polling _ | .waiting => false

/-- The queue has been taken, and not yet waited for again. -/
def pastPoll : RunPlace → Bool
  | .polling _ | .inTask .. | .waiting => true
  | .outside | .init | .poll => false

end RunPlace

/-- The executor of a thread. `queue` has the tasks that were woken since the last poll, and `blockOns`
    counts the calls of `block_on` that the thread is inside of, one in the future of the other. -/
structure ThreadExecutor where
  flags : FlagSystem
  queue : List TaskId
  place : RunPlace
  blockOns : Nat

/-- `waitAgain` continues the wait of `run`, and `pendingAgain` that of `block_on`. -/
inductive ExecutorEvent
  | threads (e : FlagEvent)
  | wake (task : TaskId)
  | run
  | initReturns
  | poll
  | pollTask
  | taskReturns
  | wait
  | waitAgain
  | blockOn
  | pending
  | pendingAgain
  | ready

namespace ThreadExecutor

def new (config : Config) : ThreadExecutor := ⟨.new config, [], .outside, 0⟩

variable (config : Config) (thread core : Nat) (sys : ThreadExecutor)

/-- Inside of `run`, what the thread does besides is done by `init` or a task, and neither takes the
    flag nor ends the thread. -/
def Permits (e : FlagEvent) : Prop :=
  sys.place = .outside ∨ (e.doneBy ⟨config, core⟩ sys.flags = some thread →
    sys.place.inClosure = true ∧ e.exits = false ∧
      (e.asksFor ⟨config, core⟩ sys.flags).getLsbD 0 = false)

instance (e : FlagEvent) : Decidable (sys.Permits config thread core e) :=
  inferInstanceAs (Decidable (_ ∨ (_ → _ ∧ _ ∧ _)))

/-- `__pender` sets the flag of the thread, from any context. -/
def pender : Except Fault FlagSystem :=
  sys.flags.step config (core, .set thread threadFlagWakeup)

/-- A task that is in the queue stays there once. -/
def enqueue (task : TaskId) : Except Fault ThreadExecutor :=
  let queued := { sys with queue := sys.queue ++ [task] }
  if task ∈ sys.queue then
    .ok sys
  else if sys.queue = [] then do
    return { queued with flags := ← sys.pender config thread core }
  else
    .ok queued

/-- The thread executes its own code, and waits for nothing. -/
def Runs : Prop := core < config.coreCount ∧ sys.flags.caller ⟨config, core⟩ = some thread

instance : Decidable (sys.Runs config thread core) := inferInstanceAs (Decidable (_ ∧ _))

/-- The thread goes on waiting. -/
def Waits : Prop := sys.flags.scheduler.executing ⟨config, core⟩ = some thread

instance : Decidable (sys.Waits config thread core) := inferInstanceAs (Decidable (_ = _))

/-- One iteration of the `wait_any` of `run`. -/
def waitAny (e : FlagEvent) : Except Fault ThreadExecutor := do
  let flags ← sys.flags.step config (core, e)
  return { sys with flags, place := if (flags.waits thread).isNone then .poll else .waiting }

def step (e : Nat × ExecutorEvent) (sys : ThreadExecutor) : Except Fault ThreadExecutor :=
  match e.2 with
  | .threads e' =>
    if sys.Permits config thread e.1 e' then do
      return { sys with flags := ← sys.flags.step config (e.1, e') }
    else
      .error .disabled
  | .wake task =>
    if sys.place = .outside then .error .disabled else sys.enqueue config thread e.1 task
  | .run =>
    if sys.Runs config thread e.1 ∧ sys.place = .outside then
      .ok { sys with place := .init, blockOns := 0 }
    else
      .error .disabled
  | .initReturns =>
    if sys.Runs config thread e.1 ∧ sys.place = .init ∧ sys.blockOns = 0 then
      .ok { sys with place := .poll }
    else
      .error .disabled
  | .poll =>
    if sys.Runs config thread e.1 ∧ sys.place = .poll then
      .ok { sys with queue := [], place := .polling sys.queue }
    else
      .error .disabled
  | .pollTask =>
    match sys.place with
    | .polling (task :: batch) =>
      if sys.Runs config thread e.1 then .ok { sys with place := .inTask task batch }
      else .error .disabled
    | _ => .error .disabled
  | .taskReturns =>
    match sys.place with
    | .inTask _ batch =>
      if sys.Runs config thread e.1 ∧ sys.blockOns = 0 then .ok { sys with place := .polling batch }
      else .error .disabled
    | _ => .error .disabled
  | .wait =>
    if sys.Runs config thread e.1 ∧ sys.place = .polling [] then
      sys.waitAny config thread e.1 (.wait .any threadFlagWakeup)
    else
      .error .disabled
  | .waitAgain =>
    if sys.Waits config thread e.1 ∧ sys.place = .waiting then
      sys.waitAny config thread e.1 .waitAgain
    else
      .error .disabled
  | .blockOn =>
    if sys.Runs config thread e.1 ∧ sys.place.inClosure then
      .ok { sys with blockOns := sys.blockOns + 1 }
    else
      .error .disabled
  | .pending =>
    if sys.Runs config thread e.1 ∧ sys.place.inClosure ∧ 0 < sys.blockOns then do
      return { sys with flags := ← sys.flags.step config (e.1, .wait .any threadFlagWaker) }
    else
      .error .disabled
  | .pendingAgain =>
    if sys.Waits config thread e.1 ∧ sys.place.inClosure then do
      return { sys with flags := ← sys.flags.step config (e.1, .waitAgain) }
    else
      .error .disabled
  | .ready =>
    if sys.Runs config thread e.1 ∧ sys.place.inClosure ∧ 0 < sys.blockOns then
      .ok { sys with blockOns := sys.blockOns - 1 }
    else
      .error .disabled

end ThreadExecutor

namespace FlagSystem

variable {config : Config} {cpu : Cpu} {core t u i : Nat} {sys sys' : FlagSystem} {wait : FlagWait}
  {mask : ThreadFlags} {e : FlagEvent}

/-- A wait goes on and leaves all flags, or returns with some of its own. -/
theorem iterate_outcome (own : sys.scheduler.currentTid cpu = some t)
    (done : sys.iterate cpu t wait mask = .ok sys') :
    (sys'.scheduler.flagsOf = sys.scheduler.flagsOf ∧
        sys'.waits = Function.update sys.waits t (some (wait, mask))) ∨
      ∃ taken, wait.Takes mask (sys.scheduler.flagsOf t) taken ∧
        sys'.scheduler.flagsOf =
          Function.update sys.scheduler.flagsOf t (sys.scheduler.flagsOf t &&& ~~~taken) ∧
        sys'.waits = Function.update sys.waits t none := by
  obtain ⟨⟨s, result⟩, once, rest⟩ := bind_ok_iff.mp done
  obtain ⟨-, ⟨rfl, flags⟩ | ⟨taken, rfl, takes, flags⟩⟩ := wait.once_flags own once
  · cases rest
    exact Or.inl ⟨flags, rfl⟩
  · cases rest
    exact Or.inr ⟨taken, takes, flags, rfl⟩

theorem iterate_keeps_bit (own : sys.scheduler.currentTid cpu = some u)
    (set : (sys.scheduler.flagsOf t).getLsbD i = true) (spares : u = t → mask.getLsbD i = false)
    (done : sys.iterate cpu u wait mask = .ok sys') :
    (sys'.scheduler.flagsOf t).getLsbD i = true := by
  rcases iterate_outcome own done with ⟨flags, -⟩ | ⟨taken, takes, flags, -⟩
  · rw [flags]
    exact set
  · rw [flags]
    refine takenBit_iff.mpr ⟨fun lost => ?_, set⟩
    have asked := (takes.subset lost.2).1
    rw [spares lost.1] at asked
    cases asked

/-- A thread keeps a flag that it does not ask for. -/
theorem step_keeps_bit (done : step config (core, e) sys = .ok sys')
    (set : (sys.scheduler.flagsOf t).getLsbD i = true)
    (spares : e.doneBy ⟨config, core⟩ sys = some t → (e.asksFor ⟨config, core⟩ sys).getLsbD i = false) :
    (sys'.scheduler.flagsOf t).getLsbD i = true := by
  simp only [step] at done
  split at done
  · cases e with
    | op o =>
      dsimp only at done
      split at done
      · cases done
      · rename_i guard
        obtain ⟨s', ran, rest⟩ := bind_ok_iff.mp done
        cases rest
        have flags := (op_flags (by by_contra touches; exact guard (Or.inl touches)) ran).2
        dsimp only
        rw [flags]
        exact set
    | set u mask =>
      obtain ⟨s', marked, rest⟩ := bind_ok_iff.mp done
      cases rest
      dsimp only
      rw [(flagSet_flags marked).2]
      exact setBit_iff.mpr (Or.inr set)
    | wait wait mask =>
      dsimp only at done
      split at done
      · cases done
      · rename_i u called
        exact iterate_keeps_bit (caller_own called) set (fun same => spares (same ▸ called)) done
    | waitAgain =>
      dsimp only at done
      split at done
      · cases done
      · rename_i u executes
        split at done
        · cases done
        · rename_i wait mask here
          refine iterate_keeps_bit (executing_own executes) set (fun same => ?_) done
          have spared := spares (same ▸ executes)
          simpa only [FlagEvent.asksFor, executes, Option.bind_some, here] using spared
    | clear mask =>
      dsimp only at done
      split at done
      · cases done
      · rename_i u own
        obtain ⟨⟨s', flags⟩, cleared, rest⟩ := bind_ok_iff.mp done
        cases rest
        dsimp only
        rw [(flagClear_flags own cleared).2]
        refine takenBit_iff.mpr ⟨fun lost => ?_, set⟩
        have spared := spares (lost.1 ▸ own)
        have asked : mask.getLsbD i = false := spared
        rw [lost.2] at asked
        cases asked
  · cases done

theorem set_sets_bit (asked : mask.getLsbD i = true)
    (done : step config (core, .set t mask) sys = .ok sys') :
    (sys'.scheduler.flagsOf t).getLsbD i = true := by
  simp only [step] at done
  split at done
  · obtain ⟨s', marked, rest⟩ := bind_ok_iff.mp done
    cases rest
    dsimp only
    rw [(flagSet_flags marked).2]
    exact setBit_iff.mpr (Or.inl ⟨rfl, asked⟩)
  · cases done

/-- A wait of the thread goes on and leaves the flags, or returns. -/
theorem wait_outcome (waits : e.waitsAs ⟨config, core⟩ sys t)
    (done : step config (core, e) sys = .ok sys') :
    sys'.scheduler.flagsOf = sys.scheduler.flagsOf ∨ sys'.waits t = none := by
  have outcome : ∀ {wait mask}, sys.scheduler.currentTid ⟨config, core⟩ = some t →
      sys.iterate ⟨config, core⟩ t wait mask = .ok sys' →
      sys'.scheduler.flagsOf = sys.scheduler.flagsOf ∨ sys'.waits t = none := by
    intro wait mask own iterated
    rcases iterate_outcome own iterated with ⟨flags, -⟩ | ⟨taken, -, -, returned⟩
    · exact Or.inl flags
    · exact Or.inr (by rw [returned, Function.update_self])
  simp only [step] at done
  split at done
  · cases e with
    | wait wait mask =>
      have called : sys.caller ⟨config, core⟩ = some t := waits
      rw [called] at done
      exact outcome (caller_own called) done
    | waitAgain =>
      have executes : sys.scheduler.executing ⟨config, core⟩ = some t := waits
      simp only [executes] at done
      split at done
      · cases done
      · exact outcome (executing_own executes) done
    | op | set | clear => cases waits
  · cases done

end FlagSystem

namespace ThreadExecutor

variable {config : Config} {thread core : Nat} {sys sys' : ThreadExecutor} {e : Nat × ExecutorEvent}

/-- The flag by which `__pender` wakes the thread. -/
def isWoken (thread : Nat) (sys : ThreadExecutor) : Bool :=
  (sys.flags.scheduler.flagsOf thread).getLsbD 0

/-- A task does not take the flag in `block_on` while another one is in the queue. -/
def NotSwallowed (thread : Nat) (e : Nat × ExecutorEvent) (sys : ThreadExecutor) : Prop :=
  match e.2 with
  | .pending | .pendingAgain =>
    sys.place.isInTask = true → sys.queue = [] ∨ sys.isWoken thread = false
  | .threads _ | .wake _ | .run | .initReturns | .poll | .pollTask | .taskReturns | .wait | .waitAgain
  | .blockOn | .ready => True

instance (thread : Nat) : ∀ (e : Nat × ExecutorEvent) (sys : ThreadExecutor),
    Decidable (NotSwallowed thread e sys)
  | (_, .pending), sys | (_, .pendingAgain), sys =>
    inferInstanceAs (Decidable (sys.place.isInTask = true → sys.queue = [] ∨ sys.isWoken thread = false))
  | (_, .threads _), _ | (_, .wake _), _ | (_, .run), _ | (_, .initReturns), _ | (_, .poll), _
  | (_, .pollTask), _ | (_, .taskReturns), _ | (_, .wait), _ | (_, .waitAgain), _ | (_, .blockOn), _
  | (_, .ready), _ => inferInstanceAs (Decidable True)

/-- The thread was told of what is in the queue since it took the queue. -/
structure Signalled (thread : Nat) (sys : ThreadExecutor) : Prop where
  accounted : sys.flags.Accounted
  told : sys.place.pastPoll = true → sys.queue ≠ [] → sys.isWoken thread = true

theorem new_signalled (config : Config) (thread : Nat) : Signalled thread (new config) where
  accounted := FlagSystem.new_accounted config
  told past := by cases past

/-- What neither changes the flags nor adds to the queue. -/
theorem Signalled.moves (signalled : Signalled thread sys) (flags : sys'.flags = sys.flags)
    (queue : sys'.queue = [] ∨ sys'.queue = sys.queue)
    (place : sys'.place.pastPoll = true → sys'.queue = [] ∨ sys.place.pastPoll = true) :
    Signalled thread sys' := by
  refine ⟨flags ▸ signalled.accounted, fun past queued => ?_⟩
  rw [isWoken, flags]
  apply signalled.told ((place past).resolve_left queued)
  rw [← queue.resolve_left queued]
  exact queued

theorem threads_signalled {e : FlagEvent} (signalled : Signalled thread sys)
    (permitted : sys.Permits config thread core e) {flags : FlagSystem}
    (done : sys.flags.step config (core, e) = .ok flags) : Signalled thread { sys with flags } := by
  refine ⟨(FlagSystem.step_ok signalled.accounted done).1, fun past queued => ?_⟩
  apply FlagSystem.step_keeps_bit done (signalled.told past queued)
  intro own
  rcases permitted with before | spares
  · dsimp only at past
    rw [before] at past
    cases past
  · exact (spares own).2.2

theorem enqueue_signalled {task : TaskId} (signalled : Signalled thread sys)
    (done : sys.enqueue config thread core task = .ok sys') : Signalled thread sys' := by
  dsimp only [enqueue] at done
  split at done
  · cases done
    exact signalled
  · split at done
    · obtain ⟨flags, pended, rest⟩ := bind_ok_iff.mp done
      cases rest
      refine ⟨(FlagSystem.step_ok signalled.accounted pended).1, fun _ _ => ?_⟩
      exact FlagSystem.set_sets_bit rfl pended
    · rename_i queued
      cases done
      exact ⟨signalled.accounted, fun past _ => signalled.told past queued⟩

/-- The wait of `run` ends, or goes on and leaves the flags. -/
theorem waitAny_ok {e : FlagEvent} (waits : e.waitsAs ⟨config, core⟩ sys.flags thread)
    (done : sys.waitAny config thread core e = .ok sys') :
    sys.flags.step config (core, e) = .ok sys'.flags ∧ sys'.queue = sys.queue ∧
      (sys'.place = .poll ∨ sys'.isWoken thread = sys.isWoken thread) := by
  obtain ⟨flags, stepped, rest⟩ := bind_ok_iff.mp done
  cases rest
  refine ⟨stepped, rfl, ?_⟩
  rcases FlagSystem.wait_outcome waits stepped with same | returned
  · exact Or.inr (congrArg (fun flags : Nat → ThreadFlags => (flags thread).getLsbD 0) same)
  · left
    dsimp only
    rw [returned]
    rfl

theorem waitAny_signalled {e : FlagEvent} (signalled : Signalled thread sys)
    (past : sys.place.pastPoll = true) (waits : e.waitsAs ⟨config, core⟩ sys.flags thread)
    (done : sys.waitAny config thread core e = .ok sys') : Signalled thread sys' := by
  obtain ⟨stepped, queue, outcome⟩ := waitAny_ok waits done
  refine ⟨(FlagSystem.step_ok signalled.accounted stepped).1, fun past' queued => ?_⟩
  rcases outcome with polls | same
  · rw [polls] at past'
    cases past'
  · rw [same]
    apply signalled.told past
    rw [← queue]
    exact queued

/-- A wait of `block_on` leaves the invariant when no task is in the queue, or there is nothing to take. -/
theorem pending_signalled {e : FlagEvent} {flags : FlagSystem} (signalled : Signalled thread sys)
    (closure : sys.place.inClosure = true)
    (allowed : sys.place.isInTask = true → sys.queue = [] ∨ sys.isWoken thread = false)
    (done : sys.flags.step config (core, e) = .ok flags) : Signalled thread { sys with flags } := by
  refine ⟨(FlagSystem.step_ok signalled.accounted done).1, fun past queued => ?_⟩
  have woken := signalled.told past queued
  cases here : sys.place with
  | inTask =>
    rcases allowed (by rw [here]; rfl) with empty | unset
    · exact absurd empty queued
    · rw [unset] at woken
      cases woken
  | init =>
    dsimp only at past
    rw [here] at past
    cases past
  | _ =>
    rw [here] at closure
    cases closure

theorem step_signalled (signalled : Signalled thread sys) (allowed : NotSwallowed thread e sys)
    (done : step config thread e sys = .ok sys') : Signalled thread sys' := by
  obtain ⟨core, e⟩ := e
  cases e with
  | threads e =>
    dsimp only [step] at done
    split at done
    · rename_i permitted
      obtain ⟨flags, stepped, rest⟩ := bind_ok_iff.mp done
      cases rest
      exact threads_signalled signalled permitted stepped
    · cases done
  | wake task =>
    dsimp only [step] at done
    split at done
    · cases done
    · exact enqueue_signalled signalled done
  | run =>
    dsimp only [step] at done
    split at done
    · cases done
      exact signalled.moves rfl (Or.inr rfl) fun past => by cases past
    · cases done
  | initReturns =>
    dsimp only [step] at done
    split at done
    · cases done
      exact signalled.moves rfl (Or.inr rfl) fun past => by cases past
    · cases done
  | poll =>
    dsimp only [step] at done
    split at done
    · cases done
      exact signalled.moves rfl (Or.inl rfl) fun _ => Or.inl rfl
    · cases done
  | pollTask =>
    dsimp only [step] at done
    split at done
    · rename_i here
      split at done
      · cases done
        exact signalled.moves rfl (Or.inr rfl) fun _ => Or.inr (by rw [here]; rfl)
      · cases done
    · cases done
  | taskReturns =>
    dsimp only [step] at done
    split at done
    · rename_i here
      split at done
      · cases done
        exact signalled.moves rfl (Or.inr rfl) fun _ => Or.inr (by rw [here]; rfl)
      · cases done
    · cases done
  | wait =>
    dsimp only [step] at done
    split at done
    · rename_i guard
      obtain ⟨⟨-, called⟩, here⟩ := guard
      have waits : (FlagEvent.wait .any threadFlagWakeup).waitsAs ⟨config, core⟩ sys.flags thread := called
      exact waitAny_signalled signalled (by rw [here]; rfl) waits done
    · cases done
  | waitAgain =>
    dsimp only [step] at done
    split at done
    · rename_i guard
      obtain ⟨executes, here⟩ := guard
      have waits : FlagEvent.waitAgain.waitsAs ⟨config, core⟩ sys.flags thread := executes
      exact waitAny_signalled signalled (by rw [here]; rfl) waits done
    · cases done
  | blockOn =>
    dsimp only [step] at done
    split at done
    · cases done
      exact signalled.moves rfl (Or.inr rfl) Or.inr
    · cases done
  | ready =>
    dsimp only [step] at done
    split at done
    · cases done
      exact signalled.moves rfl (Or.inr rfl) Or.inr
    · cases done
  | pending =>
    dsimp only [step] at done
    split at done
    · rename_i guard
      obtain ⟨flags, stepped, rest⟩ := bind_ok_iff.mp done
      cases rest
      exact pending_signalled signalled guard.2.1 allowed stepped
    · cases done
  | pendingAgain =>
    dsimp only [step] at done
    split at done
    · rename_i guard
      obtain ⟨flags, stepped, rest⟩ := bind_ok_iff.mp done
      cases rest
      exact pending_signalled signalled guard.2 allowed stepped
    · cases done

/-- Thread 0 runs an executor with task 1, and this happens. -/
def taskPolled (events : List ExecutorEvent) : List (Nat × ExecutorEvent) :=
  let start : List ExecutorEvent :=
    [.threads (.op (.create 0 512 1 none)), .threads (.op .startThreading), .threads (.op .enterPendsv),
      .threads (.op .sched), .run, .wake 1, .initReturns, .poll, .pollTask]
  (start ++ events).map fun e => (0, e)

def isAsleep (sys : ThreadExecutor) : Bool :=
  decide (sys.place = .waiting ∧
    sys.flags.scheduler.stateOf 0 = .flagBlocked (.any threadFlagWakeup))

end ThreadExecutor

end ArielOS
