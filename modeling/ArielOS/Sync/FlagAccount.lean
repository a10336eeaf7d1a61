import ArielOS.Sync.FlagUse
import ArielOS.Threads.FlagWaits
import ArielOS.Threads.ThreadListSpec

namespace ArielOS

open Machine Scheduler

/-- The bits that each user of the flags may change. -/
def FlagUser.uses (i : Nat) : FlagUser → Bool
  | .application => true
  | .blockOn => i == 0
  | .timeout => i == 1

namespace FlagRecord

/-- The flags that are set or taken. -/
def mask : FlagRecord → ThreadFlags
  | .set _ mask | .cleared _ mask => mask
  | .returned _ _ _ flags => flags

def apply (flags : Nat → ThreadFlags) : FlagRecord → Nat → ThreadFlags
  | .set t mask => Function.update flags t (flags t ||| mask)
  | .returned t _ _ taken => Function.update flags t (flags t &&& ~~~taken)
  | .cleared t mask => Function.update flags t (flags t &&& ~~~mask)

end FlagRecord

/-- What the records, the last of which comes first, make of the flags. -/
def replay (log : List (FlagUser × FlagRecord)) (flags : Nat → ThreadFlags) : Nat → ThreadFlags :=
  log.foldr (fun record flags => record.2.apply flags) flags

@[simp] theorem replay_cons (record : FlagUser × FlagRecord) (log : List (FlagUser × FlagRecord))
    (flags : Nat → ThreadFlags) :
    replay (record :: log) flags = record.2.apply (replay log flags) := rfl

theorem replay_append (later log : List (FlagUser × FlagRecord)) (flags : Nat → ThreadFlags) :
    replay (later ++ log) flags = replay later (replay log flags) :=
  List.foldr_append

section Bits

variable {log : List (FlagUser × FlagRecord)} {flags : Nat → ThreadFlags} {t u i : Nat}
  {mask : ThreadFlags}

/-- A flag is set after the records if it was set since it was last taken. -/
theorem replay_bit : ((replay log fun _ => 0) t).getLsbD i = true ↔
    FlagSystem.SetSince t i (log.map Prod.snd) := by
  induction log with
  | nil => simp [replay, FlagSystem.SetSince]
  | cons record log ih =>
    obtain ⟨user, record⟩ := record
    rw [replay_cons, List.map_cons]
    cases record with
    | set u mask => exact setBit_iff.trans (or_congr_right ih)
    | returned u wait mask taken => exact takenBit_iff.trans (and_congr_right fun _ => ih)
    | cleared u mask => exact takenBit_iff.trans (and_congr_right fun _ => ih)

theorem setSince_filter
    (proper : ∀ record ∈ log, record.2.mask.getLsbD i = true → record.1.uses i = true) :
    FlagSystem.SetSince t i (log.map Prod.snd) ↔
      FlagSystem.SetSince t i ((log.filter fun record => record.1.uses i).map Prod.snd) := by
  induction log with
  | nil => exact Iff.rfl
  | cons record log ih =>
    have rest := ih fun record member => proper record (List.mem_cons_of_mem _ member)
    have own := proper record (List.mem_cons_self ..)
    obtain ⟨user, record⟩ := record
    dsimp only at own
    cases uses : user.uses i with
    | true =>
      rw [List.filter_cons_of_pos (p := fun record => record.1.uses i) (a := (user, record)) uses,
        List.map_cons, List.map_cons]
      cases record with
      | set u mask => exact or_congr_right rest
      | returned u wait mask taken => exact and_congr_right fun _ => rest
      | cleared u mask => exact and_congr_right fun _ => rest
    | false =>
      have other : ¬ record.mask.getLsbD i = true := fun set => by simp [own set] at uses
      rw [List.filter_cons_of_neg (p := fun record => record.1.uses i) (a := (user, record))
        (by simp [uses]), List.map_cons, ← rest]
      cases record with
      | set u mask => exact or_iff_right fun here => other here.2
      | returned u wait mask taken => exact and_iff_right fun here => other here.2
      | cleared u mask => exact and_iff_right fun here => other here.2

end Bits

/-- What changes the flags is in the records, and each user changes its own flags only. -/
structure Recorded (records : List (FlagUser × FlagRecord)) (s s' : Scheduler) : Prop where
  flags : s'.flagsOf = replay records s.flagsOf
  proper : ∀ record ∈ records, ∀ i, record.2.mask.getLsbD i = true → record.1.uses i = true

namespace Recorded

variable {cpu : Cpu} {s s' s₁ : Scheduler} {t : Nat} {later records : List (FlagUser × FlagRecord)}
  {expired : List (Nat × Nat)}

theorem same (flags : s'.flagsOf = s.flagsOf) : Recorded [] s s' := ⟨flags, nofun⟩

theorem trans (first : Recorded records s s₁) (second : Recorded later s₁ s') :
    Recorded (later ++ records) s s' where
  flags := by rw [second.flags, first.flags, replay_append]
  proper := fun record member =>
    (List.mem_append.mp member).elim (second.proper record) (first.proper record)

theorem keep (first : Recorded records s s₁) (flags : s'.flagsOf = s₁.flagsOf) :
    Recorded records s s' :=
  first.trans (same flags)

theorem single (record : FlagUser × FlagRecord) (flags : s'.flagsOf = record.2.apply s.flagsOf)
    (proper : ∀ i, record.2.mask.getLsbD i = true → record.1.uses i = true) :
    Recorded [record] s s' where
  flags := flags
  proper := fun other member => by
    rw [List.mem_singleton.mp member]
    exact proper

end Recorded

section Timeouts

variable {cpu : Cpu} {s s' : Scheduler} {t now deadline : Nat} {expired : List (Nat × Nat)}

theorem threadFlagTimeout_uses {i : Nat} (set : threadFlagTimeout.getLsbD i = true) :
    FlagUser.uses i .timeout = true := by
  have single : threadFlagTimeout = BitVec.twoPow 16 1 := by decide
  exact beq_iff_eq.mpr (bit_of_twoPow (single ▸ set)).symm

theorem threadFlagWaker_uses {i : Nat} (set : threadFlagWaker.getLsbD i = true) :
    FlagUser.uses i .blockOn = true := by
  have single : threadFlagWaker = BitVec.twoPow 16 0 := by decide
  exact beq_iff_eq.mpr (bit_of_twoPow (single ▸ set)).symm

theorem wake_recorded (done : s.wake cpu t now = .ok s') :
    Recorded (if s.timerDue t now then [(.timeout, .set t threadFlagTimeout)] else []) s s' := by
  unfold Scheduler.wake at done
  obtain ⟨thread, read, rest⟩ := bind_ok_iff.mp done
  obtain ⟨-, rfl⟩ := getUnchecked_ok.mp read
  cases due : s.timerDue t now with
  | false =>
    simp only [due, Bool.false_eq_true, ↓reduceIte] at rest
    cases rest
    exact .same rfl
  | true =>
    simp only [due, ↓reduceIte] at rest
    obtain ⟨s₁, set, rest⟩ := bind_ok_iff.mp rest
    have cleared : (s.withoutDeadline t).flagsOf = s.flagsOf :=
      (setThread_flagsOf ..).trans (Function.update_eq_self t s.flagsOf)
    have flags := (flagSet_flags set).2
    have same : s'.flagsOf = s₁.flagsOf := by
      split at rest
      · cases rest
        rfl
      · obtain ⟨⟨s₂, old⟩, awake, rest⟩ := bind_ok_iff.mp rest
        cases rest
        exact setState_flagsOf awake
    rw [if_pos rfl]
    refine .single _ ?_ fun i => threadFlagTimeout_uses
    rw [same, flags]
    exact congrArg (FlagRecord.apply · (.set t threadFlagTimeout)) cleared

theorem wakeAll_recorded (done : wakeAll cpu expired s = .ok s') :
    Recorded (timerRecords cpu expired s) s s' := by
  induction expired generalizing s with
  | nil =>
    cases done
    exact .same rfl
  | cons first expired ih =>
    obtain ⟨s₁, woken, rest⟩ := bind_ok_iff.mp done
    rw [timerRecords, woken]
    exact (wake_recorded woken).trans (ih rest)

theorem armDeadline_recorded (own : s.currentTid cpu = some t)
    (done : s.armDeadline cpu deadline = .ok s') :
    Recorded [(.timeout, .cleared t threadFlagTimeout)] s s' := by
  unfold armDeadline at done
  obtain ⟨thread, read, rest⟩ := bind_ok_iff.mp done
  obtain ⟨u, own', rfl⟩ := expectCurrent_ok read
  obtain rfl : t = u := Option.some.inj (own.symm.trans own')
  cases rest
  rw [setCurrent_eq own]
  exact .single _ (setThread_flagsOf ..) fun i => threadFlagTimeout_uses

theorem setDeadline_recorded {inFuture : Bool} (own : s.currentTid cpu = some t)
    (done : s.setDeadline cpu deadline expired = .ok (s', inFuture)) :
    Recorded (s.setDeadlineRecords cpu t deadline expired) s s' := by
  obtain ⟨s₁, armed, woken⟩ := setDeadline_ok done
  rw [setDeadlineRecords, armed]
  exact (armDeadline_recorded own armed).trans (wakeAll_recorded woken)

theorem clearDeadline_recorded {cleared : Bool} (own : s.currentTid cpu = some t)
    (done : s.clearDeadline cpu expired = .ok (s', cleared)) :
    Recorded (s.clearDeadlineRecords cpu t expired) s s' := by
  obtain ⟨u, s₁, own', set, rfl, outcome⟩ := clearDeadline_ok done
  obtain rfl : t = u := Option.some.inj (own.symm.trans own')
  have same : (s.withoutDeadline t).flagsOf = s.flagsOf :=
    (setThread_flagsOf ..).trans (Function.update_eq_self t s.flagsOf)
  have here : (s.threads t).deadline.isSome = cleared := set.symm
  rw [clearDeadlineRecords, here]
  rcases outcome with ⟨rfl, woken⟩ | ⟨rfl, rfl⟩
  · have records := (Recorded.same same).trans (wakeAll_recorded woken)
    rw [List.append_nil] at records
    exact records
  · exact .same same

theorem park_flagsOf (done : s.park cpu = .ok s') : s'.flagsOf = s.flagsOf :=
  (op_flags (o := .park) rfl done).2

theorem sleepUntil_recorded (own : s.currentTid cpu = some t)
    (done : s.sleepUntil cpu deadline expired = .ok s') :
    Recorded (s.setDeadlineRecords cpu t deadline expired) s s' := by
  unfold Scheduler.sleepUntil at done
  obtain ⟨⟨s₁, inFuture⟩, set, rest⟩ := bind_ok_iff.mp done
  have recorded := setDeadline_recorded own set
  dsimp only at rest
  split at rest
  · exact recorded.keep (park_flagsOf rest)
  · cases rest
    exact recorded

end Timeouts

namespace WaitQueue

variable {cpu : Cpu} {s s' : Scheduler} {t deadline : Nat} {waiters waiters' : ThreadList}
  {expired : List (Nat × Nat)}

theorem pop_flagsOf {popped : Option (Nat × ThreadState)}
    (done : waiters.pop cpu s = .ok (waiters', s', popped)) : s'.flagsOf = s.flagsOf :=
  ThreadList.pop_view (fun _ _ _ => rfl) setState_flagsOf done

theorem wait_flagsOf (done : wait cpu waiters s = .ok (waiters', s')) : s'.flagsOf = s.flagsOf := by
  obtain ⟨⟨list, s₁, inherit⟩, put, rest⟩ := bind_ok_iff.mp done
  cases rest
  exact ThreadList.putCurrent_view (fun _ _ _ => rfl) setState_flagsOf put

theorem notifyOne_flagsOf (done : notifyOne cpu waiters s = .ok (waiters', s')) :
    s'.flagsOf = s.flagsOf := by
  obtain ⟨⟨list, s₁, popped⟩, took, rest⟩ := bind_ok_iff.mp done
  cases rest
  exact pop_flagsOf took

theorem notifyAll_flagsOf (done : notifyAll cpu waiters s = .ok (waiters', s')) :
    s'.flagsOf = s.flagsOf :=
  (ThreadList.popAll_keeps (P := fun _ s' => s'.flagsOf = s.flagsOf)
    (fun kept took => (pop_flagsOf took).trans kept) rfl done).1

theorem waitUntilWithCheck_recorded {check waits : Bool} (own : s.currentTid cpu = some t)
    (done : waitUntilWithCheck cpu waiters s check deadline expired = .ok (waiters', s', waits)) :
    Recorded (if check then [] else s.setDeadlineRecords cpu t deadline expired) s s' := by
  cases check with
  | true =>
    cases done
    exact .same rfl
  | false =>
    have done : waitUntil cpu waiters s deadline expired = .ok (waiters', s', waits) := done
    obtain ⟨⟨s₁, inFuture⟩, set, rest⟩ := bind_ok_iff.mp done
    have recorded := setDeadline_recorded own set
    cases inFuture with
    | true =>
      obtain ⟨⟨list, s₂, inherit⟩, put, rest⟩ := bind_ok_iff.mp rest
      cases rest
      exact recorded.keep (ThreadList.putCurrent_view (fun _ _ _ => rfl) setState_flagsOf put)
    | false =>
      cases rest
      exact recorded

theorem waitUntilResume_recorded {result : Bool} (own : s.currentTid cpu = some t)
    (done : waitUntilResume cpu waiters s expired = .ok (waiters', s', result)) :
    Recorded (s.clearDeadlineRecords cpu t expired) s s' := by
  obtain ⟨⟨s₁, cleared⟩, set, rest⟩ := bind_ok_iff.mp done
  have recorded := clearDeadline_recorded own set
  cases cleared with
  | true =>
    cases rest
    exact recorded
  | false =>
    obtain ⟨⟨list, s₂, removed⟩, took, rest⟩ := bind_ok_iff.mp rest
    cases rest
    exact recorded.keep (ThreadList.removeCurrent_view (fun _ _ _ => rfl) setState_flagsOf took)

end WaitQueue

namespace FlagUseSystem

variable {config : Config} {cpu : Cpu} {sys sys' : FlagUseSystem} {t : Nat} {user : FlagUser}
  {wait : FlagWait} {mask : ThreadFlags} {records : List (FlagUser × FlagRecord)}

/-- The log accounts for all flags, and waits ask for flags of their user. -/
structure Accounted (config : Config) (sys : FlagUseSystem) : Prop where
  recorded : Recorded sys.log (Scheduler.new config) sys.scheduler
  waits : ∀ t user wait mask, sys.calls t = some (.wait user wait mask) →
    ∀ i, mask.getLsbD i = true → user.uses i = true

theorem new_accounted (config : Config) : Accounted config (new config) where
  recorded := .same rfl
  waits := fun _ _ _ _ => nofun

theorem Accounted.step (accounted : Accounted config sys)
    (recorded : Recorded records sys.scheduler sys'.scheduler) (log : sys'.log = records ++ sys.log)
    (calls : sys'.calls = sys.calls) : Accounted config sys' where
  recorded := by
    rw [log]
    exact accounted.recorded.trans recorded
  waits := by
    rw [calls]
    exact accounted.waits

theorem Accounted.setCall {call : Option FlagCall} (accounted : Accounted config sys)
    (proper : ∀ user wait mask, call = some (.wait user wait mask) →
      ∀ i, mask.getLsbD i = true → user.uses i = true) : Accounted config (sys.setCall t call) where
  recorded := accounted.recorded
  waits := by
    intro u user wait mask here
    change Function.update sys.calls t call u = _ at here
    by_cases own : u = t
    · rw [own, Function.update_self] at here
      exact proper user wait mask here
    · rw [Function.update_of_ne own] at here
      exact accounted.waits u user wait mask here

theorem iterate_accounted (accounted : Accounted config sys)
    (own : sys.scheduler.currentTid cpu = some t)
    (proper : ∀ i, mask.getLsbD i = true → user.uses i = true)
    (done : sys.iterate cpu t user wait mask = .ok sys') : Accounted config sys' := by
  obtain ⟨⟨s, result⟩, once, rest⟩ := bind_ok_iff.mp done
  obtain ⟨-, ⟨rfl, flags⟩ | ⟨taken, rfl, takes, flags⟩⟩ := wait.once_flags own once
  · cases rest
    have waiting : Accounted config (sys.setCall t (some (.wait user wait mask))) :=
      accounted.setCall fun user wait mask same => by cases same; exact proper
    exact waiting.step (.same flags) rfl rfl
  · cases rest
    have returned : Accounted config (sys.setCall t none) := accounted.setCall fun _ _ _ => nofun
    refine returned.step (.single (user, .returned t wait mask taken) flags ?_) rfl rfl
    exact fun i set => proper i (takes.subset set).1

theorem onQueue_accounted {self : Nat}
    {run : Cpu → ThreadList → Scheduler → Except Fault (ThreadList × Scheduler)}
    (accounted : Accounted config sys)
    (flags : ∀ {waiters waiters' s s'}, run cpu waiters s = .ok (waiters', s') →
      s'.flagsOf = s.flagsOf)
    (done : sys.onQueue cpu self run = .ok sys') : Accounted config sys' := by
  obtain ⟨⟨waiters, s⟩, ran, rest⟩ := bind_ok_iff.mp done
  cases rest
  exact accounted.step (.same (flags ran)) rfl rfl

theorem caller_own (called : sys.caller cpu = some t) : sys.scheduler.currentTid cpu = some t :=
  executing_own (Option.filter_eq_some_iff.mp called).1

theorem set_recorded {s s' : Scheduler} (proper : ∀ i, mask.getLsbD i = true → user.uses i = true)
    (done : s.flagSet cpu t mask = .ok s') : Recorded [(user, .set t mask)] s s' :=
  .single _ (flagSet_flags done).2 proper

theorem step_accounted {e : Nat × FlagUseEvent} (accounted : Accounted config sys)
    (done : step config e sys = .ok sys') : Accounted config sys' := by
  obtain ⟨core, e⟩ := e
  simp only [step] at done
  split at done
  · cases e with
    | op o =>
      dsimp only at done
      split at done
      · cases done
      · rename_i guard
        obtain ⟨s', ran, rest⟩ := bind_ok_iff.mp done
        cases rest
        have spares : o.sparesFlags = true := by
          by_contra touches
          exact guard (Or.inl touches)
        exact accounted.step (.same (op_flags spares ran).2) rfl rfl
    | set tid mask =>
      obtain ⟨s', set, rest⟩ := bind_ok_iff.mp done
      cases rest
      exact accounted.step (set_recorded (fun _ _ => rfl) set) rfl rfl
    | wait wait mask =>
      dsimp only at done
      split at done
      · cases done
      · rename_i t called
        exact iterate_accounted accounted (caller_own called) (fun _ _ => rfl) done
    | waitAgain =>
      dsimp only at done
      split at done
      · cases done
      · rename_i t executes
        split at done
        · rename_i user wait mask here
          exact iterate_accounted accounted (executing_own executes)
            (accounted.waits t user wait mask here) done
        · cases done
    | clear mask =>
      dsimp only at done
      split at done
      · cases done
      · rename_i t called
        obtain ⟨⟨s', flags⟩, cleared, rest⟩ := bind_ok_iff.mp done
        cases rest
        have flags := (flagClear_flags (caller_own called) cleared).2
        exact accounted.step (.single (.application, .cleared t mask) flags
          fun _ _ => rfl) rfl rfl
    | sleepUntil deadline expired =>
      dsimp only at done
      split at done
      · cases done
      · rename_i t called
        obtain ⟨s', slept, rest⟩ := bind_ok_iff.mp done
        cases rest
        exact accounted.step (sleepUntil_recorded (caller_own called) slept) rfl rfl
    | queueWait self =>
      dsimp only at done
      split at done
      · cases done
      · exact onQueue_accounted accounted WaitQueue.wait_flagsOf done
    | waitUntilWithCheck self check deadline expired =>
      dsimp only at done
      split at done
      · cases done
      · rename_i t called
        obtain ⟨⟨waiters, s', waits⟩, waited, rest⟩ := bind_ok_iff.mp done
        cases rest
        have recorded := WaitQueue.waitUntilWithCheck_recorded (caller_own called) waited
        have inside : Accounted config
            (sys.setCall t (if waits then some (.timedWait self) else none)) :=
          accounted.setCall fun _ _ _ same => by cases waits <;> cases same
        refine inside.step recorded ?_ rfl
        cases check <;> rfl
    | resume expired =>
      dsimp only at done
      split at done
      · cases done
      · rename_i t executes
        split at done
        · obtain ⟨⟨waiters, s', result⟩, resumed, rest⟩ := bind_ok_iff.mp done
          cases rest
          have recorded := WaitQueue.waitUntilResume_recorded (executing_own executes) resumed
          have outside : Accounted config (sys.setCall t none) := accounted.setCall fun _ _ _ => nofun
          exact outside.step recorded rfl rfl
        · cases done
    | notifyOne self => exact onQueue_accounted accounted WaitQueue.notifyOne_flagsOf done
    | notifyAll self => exact onQueue_accounted accounted WaitQueue.notifyAll_flagsOf done
    | timer tid now =>
      obtain ⟨s', woken, rest⟩ := bind_ok_iff.mp done
      cases rest
      have woken : wakeAll ⟨config, core⟩ [(tid, now)] sys.scheduler = .ok s' :=
        bind_ok_iff.mpr ⟨s', woken, rfl⟩
      exact accounted.step (wakeAll_recorded woken) rfl rfl
    | blockOn =>
      dsimp only at done
      split at done
      · cases done
      · cases done
        exact accounted.step (.same rfl) rfl rfl
    | pending =>
      dsimp only at done
      split at done
      · cases done
      · rename_i t called
        split at done
        · exact iterate_accounted accounted (caller_own called) (fun _ => threadFlagWaker_uses) done
        · cases done
    | ready =>
      dsimp only at done
      split at done
      · cases done
      · split at done
        · cases done
          exact accounted.step (.same rfl) rfl rfl
        · cases done
    | wakeBlocked tid =>
      dsimp only at done
      split at done
      · obtain ⟨s', set, rest⟩ := bind_ok_iff.mp done
        cases rest
        exact accounted.step (set_recorded (fun _ => threadFlagWaker_uses) set) rfl rfl
      · cases done
  · cases done

/-- What the users of a flag did to the flags, beginning with what happened last. -/
def logFor (sys : FlagUseSystem) (i : Nat) : List FlagRecord :=
  (sys.log.filter fun record => record.1.uses i).map Prod.snd

/-- What the application did to the flags. -/
def applicationLog (sys : FlagUseSystem) : List FlagRecord :=
  (sys.log.filter fun record => record.1 = .application).map Prod.snd

section Samples

/-- Thread 0 runs and does this. -/
def oneThread (events : List FlagUseEvent) : List (Nat × FlagUseEvent) :=
  let start : List FlagUseEvent :=
    [.op (.create 0 512 1 none), .op .startThreading, .op .enterPendsv, .op .sched]
  (start ++ events).map fun e => (0, e)

/-- What the application did, and flag `i` of thread 0. -/
def shows (log : List FlagRecord) (i : Nat) (flag : Bool) (sys : FlagUseSystem) : Bool :=
  decide (sys.applicationLog = log ∧ (sys.scheduler.flagsOf 0).getLsbD i = flag)

theorem reached_of_shows (log : List FlagRecord) (i : Nat) (flag : Bool)
    (events : List FlagUseEvent)
    (shown : (runAll (step .singleCore) (fun _ _ => True) (oneThread events)
      (new .singleCore)).any (shows log i flag) = true) :
    ∃ sys, Reachable (step .singleCore) (new .singleCore) sys ∧ sys.applicationLog = log ∧
      (sys.scheduler.flagsOf 0).getLsbD i = flag := by
  obtain ⟨sys, reached, here⟩ := reaches_of_check (oneThread events) shown
  exact ⟨sys, reached, of_decide_eq_true here⟩

end Samples

end FlagUseSystem

end ArielOS
