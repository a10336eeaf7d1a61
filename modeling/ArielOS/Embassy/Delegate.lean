import Mathlib.Data.Bool.Basic
import ArielOS.Lib.Run
import ArielOS.Sensors.Signal

namespace ArielOS

open Machine Sensors

/-- What the cell holds can be had on the executor that it was made on. -/
structure SameExecutorCell (T : Type) where
  executorId : Nat
  inner : T
  deriving DecidableEq

def SameExecutorCell.get {T : Type} (cell : SameExecutorCell T) (spawner : Nat) : Option T :=
  if spawner = cell.executorId then some cell.inner else none

inductive LendFuture
  | called
  | waiting
  | completed
  | dropped
  deriving DecidableEq

/-- `running` is inside of the closure that was passed. -/
inductive WithFuture (Ref : Type)
  | called
  | waiting
  | running (something : Ref)
  | returned
  | panicked
  | dropped
  deriving DecidableEq

/-- `Ref` is what a reference to the lent object is. -/
structure Delegate (Ref : Type) where
  send : SignalState (SameExecutorCell Ref)
  reply : SignalState Unit
  wasExercised : Bool

namespace Delegate

variable {Ref : Type}

def new : Delegate Ref := ⟨.none, .none, false⟩

def waitReply (waker : Waker) (delegate : Delegate Ref) : Delegate Ref × LendFuture :=
  let outcome := delegate.reply.pollWait waker
  ({ delegate with reply := outcome.1 }, if outcome.2.2.isSome then .completed else .waiting)

/-- One poll of the future, unless it has ended. -/
def lend (something : Ref) (spawner : Nat) (waker : Waker) (delegate : Delegate Ref) :
    LendFuture → Option (Delegate Ref × LendFuture)
  | .called =>
    let send := (delegate.send.signal ⟨spawner, something⟩).1
    some (waitReply waker { delegate with send })
  | .waiting => some (delegate.waitReply waker)
  | .completed | .dropped => none

def waitSend (spawner : Nat) (waker : Waker) (delegate : Delegate Ref) :
    Delegate Ref × WithFuture Ref :=
  let outcome := delegate.send.pollWait waker
  let future :=
    match outcome.2.2 with
    | none => .waiting
    | some data =>
      match data.get spawner with
      | none => .panicked
      | some something => .running something
  ({ delegate with send := outcome.1 }, future)

/-- One poll of the future up to where it calls the closure, unless it has ended or is there. -/
def withPoll (spawner : Nat) (waker : Waker) (delegate : Delegate Ref) :
    WithFuture Ref → Option (Delegate Ref × WithFuture Ref)
  | .called =>
    let exercised := { delegate with wasExercised := true }
    if delegate.wasExercised then
      some (exercised, .panicked)
    else
      some (exercised.waitSend spawner waker)
  | .waiting => some (delegate.waitSend spawner waker)
  | .running _ | .returned | .panicked | .dropped => none

/-- What is left of the poll once the closure has returned. -/
def withReply (delegate : Delegate Ref) : Delegate Ref :=
  { delegate with reply := (delegate.reply.signal ()).1 }

end Delegate

/-- A delegate with the one future of `lend` and those of `with`. `runs` is how often a closure was
    called, which no part of the program stores. -/
structure Lending (Ref : Type) where
  delegate : Delegate Ref
  something : Ref
  lend : LendFuture
  withs : List (WithFuture Ref)
  runs : Nat

namespace Lending

variable {Ref : Type}

/-- Other tasks may be anywhere while a closure runs, and the closure itself may end what it owns. -/
inductive Event
  | pollLend (spawner : Nat) (waker : Waker)
  | dropLend
  | callWith
  | pollWith (i spawner : Nat) (waker : Waker)
  | dropWith (i : Nat)
  | closureReturns (i : Nat)
  | closurePanics (i : Nat)
  deriving DecidableEq

def init (something : Ref) : Lending Ref := ⟨.new, something, .called, [], 0⟩

def step (e : Event) (sys : Lending Ref) : Except Fault (Lending Ref) :=
  match e with
  | .pollLend spawner waker =>
    match sys.delegate.lend sys.something spawner waker sys.lend with
    | none => .error .disabled
    | some (delegate, lend) => .ok { sys with delegate, lend }
  | .dropLend =>
    match sys.lend with
    | .called | .waiting => .ok { sys with lend := .dropped }
    | .completed | .dropped => .error .disabled
  | .callWith => .ok { sys with withs := sys.withs ++ [.called] }
  | .pollWith i spawner waker =>
    match sys.withs[i]?.bind (sys.delegate.withPoll spawner waker) with
    | none => .error .disabled
    | some (delegate, future) =>
      .ok {
        sys with
        delegate
        withs := sys.withs.set i future
        runs :=
          match future with
          | .running _ => sys.runs + 1
          | .called | .waiting | .returned | .panicked | .dropped => sys.runs }
  | .dropWith i =>
    match sys.withs[i]? with
    | some .called | some .waiting => .ok { sys with withs := sys.withs.set i .dropped }
    | _ => .error .disabled
  | .closureReturns i =>
    match sys.withs[i]? with
    | some (.running _) =>
      .ok { sys with delegate := sys.delegate.withReply, withs := sys.withs.set i .returned }
    | _ => .error .disabled
  | .closurePanics i =>
    match sys.withs[i]? with
    | some (.running _) => .ok { sys with withs := sys.withs.set i .panicked }
    | _ => .error .disabled

end Lending

namespace Delegate

variable {Ref : Type} {something : Ref} {spawner : Nat} {waker : Waker}
  {delegate delegate' : Delegate Ref} {future future' : WithFuture Ref}

/-- The wait for the reply ends only with the reply, and leaves none. -/
theorem waitReply_spec (waker : Waker) (delegate : Delegate Ref) :
    (waitReply waker delegate).1.reply.isReady = false ∧
      ((waitReply waker delegate).2 = .waiting ∨
        (waitReply waker delegate).2 = .completed ∧ delegate.reply.isReady = true) := by
  dsimp only [waitReply]
  cases here : delegate.reply with
  | none => exact ⟨rfl, Or.inl rfl⟩
  | ready => exact ⟨rfl, Or.inr ⟨rfl, rfl⟩⟩
  | waiting prevWaker =>
    dsimp only [SignalState.pollWait]
    split <;> exact ⟨rfl, Or.inl rfl⟩

/-- The wait for the reference takes what was sent. -/
theorem waitSend_spec (spawner : Nat) (waker : Waker) (delegate : Delegate Ref) :
    (waitSend spawner waker delegate).1.send.isReady = false ∧
      ((waitSend spawner waker delegate).2 = .waiting ∧ delegate.send.isReady = false ∨
        ∃ cell, delegate.send = .ready cell ∧
          ((waitSend spawner waker delegate).2 = .panicked ∨
            (waitSend spawner waker delegate).2 = .running cell.inner)) := by
  dsimp only [waitSend]
  cases here : delegate.send with
  | none => exact ⟨rfl, Or.inl ⟨rfl, rfl⟩⟩
  | ready cell =>
    refine ⟨rfl, Or.inr ⟨cell, rfl, ?_⟩⟩
    dsimp only [SignalState.pollWait, SameExecutorCell.get]
    by_cases same : spawner = cell.executorId <;> simp [same]
  | waiting prevWaker =>
    dsimp only [SignalState.pollWait]
    split <;> exact ⟨rfl, Or.inl ⟨rfl, rfl⟩⟩

/-- A first poll panics when another one came before, and otherwise a poll waits for the reference. -/
theorem withPoll_cases
    (polled : delegate.withPoll spawner waker future = some (delegate', future')) :
    (future = .called ∧ delegate.wasExercised = true ∧ future' = .panicked ∧ delegate' = delegate) ∨
      (future = .waiting ∨ future = .called ∧ delegate.wasExercised = false) ∧
        delegate'.reply = delegate.reply ∧ delegate'.send.isReady = false ∧
          (future' = .waiting ∧ delegate.send.isReady = false ∨
            ∃ cell, delegate.send = .ready cell ∧
              (future' = .panicked ∨ future' = .running cell.inner)) := by
  cases future with
  | running | returned | panicked | dropped => cases polled
  | waiting =>
    cases polled
    exact Or.inr ⟨Or.inl rfl, rfl, waitSend_spec spawner waker delegate⟩
  | called =>
    dsimp only [withPoll] at polled
    split at polled
    · rename_i exercised
      cases polled
      refine Or.inl ⟨rfl, exercised, rfl, ?_⟩
      rw [← exercised]
    · rename_i fresh
      cases polled
      exact Or.inr ⟨Or.inr ⟨rfl, by simpa using fresh⟩, rfl, waitSend_spec spawner waker _⟩

end Delegate

namespace WithFuture

variable {Ref : Type}

def isRunning : WithFuture Ref → Bool
  | .running _ => true
  | .called | .waiting | .returned | .panicked | .dropped => false

def isReturned : WithFuture Ref → Bool
  | .returned => true
  | .called | .waiting | .running _ | .panicked | .dropped => false

theorem countP_set {withs : List (WithFuture Ref)} {i : Nat} {future : WithFuture Ref}
    (here : withs[i]? = some future) (p : WithFuture Ref → Bool) (future' : WithFuture Ref) :
    (withs.set i future').countP p + (p future).toNat = withs.countP p + (p future').toNat := by
  obtain ⟨inside, at_i⟩ := List.getElem?_eq_some_iff.mp here
  have counted : (p future).toNat ≤ withs.countP p := by
    cases satisfied : p future with
    | false => exact Nat.zero_le _
    | true => exact List.countP_pos_iff.mpr ⟨future, List.mem_of_getElem? here, satisfied⟩
  have exact := List.countP_set (p := p) (l := withs) (a := future') inside
  rw [at_i] at exact
  cases satisfied : p future <;> cases satisfied' : p future' <;>
    simp only [satisfied, satisfied', Bool.toNat_false, Bool.toNat_true, Bool.false_eq_true, if_true,
      if_false] at exact counted ⊢ <;> omega

theorem mem_of_mem_set {withs : List (WithFuture Ref)} {i : Nat} {future future' : WithFuture Ref}
    (member : future ∈ withs.set i future') (other : future ≠ future') : future ∈ withs := by
  rcases List.mem_or_eq_of_mem_set member with earlier | same
  · exact earlier
  · exact absurd same other

end WithFuture

namespace Lending

open WithFuture (isRunning isReturned mem_of_mem_set)

variable {Ref : Type} {sys sys' : Lending Ref} {e : Event}

/-- The reference is sent once, taken by one future at most, and given back when that returns. -/
structure Accounted (sys : Lending Ref) : Prop where
  once : sys.runs ≤ 1
  uncalled : sys.lend = .called → sys.runs = 0 ∧ sys.delegate.send.isReady = false
  sent : ∀ cell, sys.delegate.send = .ready cell → sys.runs = 0 ∧ cell.inner = sys.something
  ran : sys.withs.countP isRunning + sys.withs.countP isReturned ≤ sys.runs
  replied : sys.delegate.reply.isReady = true ∨ sys.lend = .completed →
    0 < sys.withs.countP isReturned

/-- A closure runs with the reference that is lent, while the future of `lend` still waits. -/
def Borrowed (sys : Lending Ref) : Prop :=
  ∀ something, .running something ∈ sys.withs → something = sys.something ∧ sys.lend = .waiting

/-- A future of `with` would take what is sent. -/
def Takeable (sys : Lending Ref) : Prop :=
  sys.delegate.wasExercised = false ∨ .waiting ∈ sys.withs

/-- The future of `lend` is not dropped while a closure runs, or while the reference is sent and would
    be taken. -/
def NotWithdrawn (e : Event) (sys : Lending Ref) : Prop :=
  match e with
  | .dropLend =>
    (∀ future ∈ sys.withs, future.isRunning = false) ∧
      ¬ (sys.delegate.send.isReady = true ∧ Takeable sys)
  | .pollLend .. | .callWith | .pollWith .. | .dropWith _ | .closureReturns _ | .closurePanics _ => True

instance (sys : Lending Ref) [DecidableEq Ref] : Decidable (Takeable sys) :=
  inferInstanceAs (Decidable (_ ∨ _))

instance [DecidableEq Ref] : ∀ (e : Event) (sys : Lending Ref), Decidable (NotWithdrawn e sys)
  | .dropLend, sys =>
    inferInstanceAs (Decidable ((∀ future ∈ sys.withs, future.isRunning = false) ∧
      ¬ (sys.delegate.send.isReady = true ∧ Takeable sys)))
  | .pollLend .., _ | .callWith, _ | .pollWith .., _ | .dropWith _, _ | .closureReturns _, _
  | .closurePanics _, _ => inferInstanceAs (Decidable True)

structure Guarded (sys : Lending Ref) : Prop extends Accounted sys where
  borrowed : Borrowed sys
  offered : sys.delegate.send.isReady = true → Takeable sys → sys.lend = .waiting

theorem Accounted.no_running (account : Accounted sys) (unused : sys.runs = 0 ∨ 0 < sys.withs.countP isReturned)
    (something : Ref) : .running something ∉ sys.withs := by
  intro member
  have running : 0 < sys.withs.countP isRunning := List.countP_pos_iff.mpr ⟨_, member, rfl⟩
  have := account.ran
  have := account.once
  omega

theorem Accounted.not_sent (account : Accounted sys) (ran : 0 < sys.withs.countP isReturned) :
    sys.delegate.send.isReady = false := by
  have := account.ran
  cases here : sys.delegate.send with
  | none | waiting => rfl
  | ready cell =>
    have := (account.sent cell here).1
    omega

theorem pollLend_ok {spawner : Nat} {waker : Waker}
    (done : step (.pollLend spawner waker) sys = .ok sys') :
    (sys.lend = .called ∧ sys'.delegate.send = .ready ⟨spawner, sys.something⟩ ∨
        sys.lend = .waiting ∧ sys'.delegate.send = sys.delegate.send) ∧
      sys'.delegate.wasExercised = sys.delegate.wasExercised ∧
      sys'.delegate.reply.isReady = false ∧
      (sys'.lend = .waiting ∨ sys'.lend = .completed ∧ sys.delegate.reply.isReady = true) ∧
      sys'.something = sys.something ∧ sys'.withs = sys.withs ∧ sys'.runs = sys.runs := by
  dsimp only [step] at done
  cases here : sys.lend with
  | completed | dropped =>
    rw [here] at done
    cases done
  | waiting =>
    rw [here] at done
    cases done
    obtain ⟨taken, outcome⟩ := Delegate.waitReply_spec waker sys.delegate
    exact ⟨Or.inr ⟨rfl, rfl⟩, rfl, taken, outcome, rfl, rfl, rfl⟩
  | called =>
    rw [here] at done
    cases done
    obtain ⟨taken, outcome⟩ := Delegate.waitReply_spec waker
      { sys.delegate with send := (sys.delegate.send.signal ⟨spawner, sys.something⟩).1 }
    refine ⟨Or.inl ⟨rfl, ?_⟩, rfl, taken, outcome, rfl, rfl, rfl⟩
    exact SignalState.signal_fst _ _

theorem pollWith_ok {i spawner : Nat} {waker : Waker}
    (done : step (.pollWith i spawner waker) sys = .ok sys') :
    ∃ future future', sys.withs[i]? = some future ∧
      sys.delegate.withPoll spawner waker future = some (sys'.delegate, future') ∧
      sys'.withs = sys.withs.set i future' ∧ sys'.runs = sys.runs + future'.isRunning.toNat ∧
      sys'.something = sys.something ∧ sys'.lend = sys.lend := by
  dsimp only [step] at done
  cases here : sys.withs[i]? with
  | none =>
    rw [here] at done
    cases done
  | some future =>
    rw [here, Option.bind_some] at done
    cases polled : sys.delegate.withPoll spawner waker future with
    | none =>
      rw [polled] at done
      cases done
    | some outcome =>
      rw [polled] at done
      cases done
      refine ⟨future, outcome.2, rfl, polled, rfl, ?_, rfl, rfl⟩
      cases outcome.2 <;> rfl

theorem init_guarded (something : Ref) : Guarded (init something) where
  once := Nat.zero_le _
  uncalled _ := ⟨rfl, rfl⟩
  sent _ sent := by cases sent
  ran := Nat.le_refl _
  replied replied := by rcases replied with ready | completed <;> contradiction
  borrowed _ member := by cases member
  offered ready := by cases ready

theorem pollLend_accounted {spawner : Nat} {waker : Waker} (account : Accounted sys)
    (done : step (.pollLend spawner waker) sys = .ok sys') : Accounted sys' := by
  obtain ⟨sent, -, taken, lend, something, withs, runs⟩ := pollLend_ok done
  refine ⟨?_, fun uncalled => ?_, fun cell ready => ?_, ?_, fun replied => ?_⟩
  · rw [runs]
    exact account.once
  · rcases lend with waits | ⟨ended, -⟩
    · rw [waits] at uncalled
      cases uncalled
    · rw [ended] at uncalled
      cases uncalled
  · rw [runs, something]
    rcases sent with ⟨called, new⟩ | ⟨-, same⟩
    · rw [new] at ready
      cases ready
      exact ⟨(account.uncalled called).1, rfl⟩
    · exact account.sent cell (same ▸ ready)
  · rw [withs, runs]
    exact account.ran
  · rw [withs]
    rcases replied with ready | completed
    · rw [taken] at ready
      cases ready
    · rcases lend with waits | ⟨-, ready⟩
      · rw [waits] at completed
        cases completed
      · exact account.replied (Or.inl ready)

/-- While the reference is with `lend` or on its way, the future of `lend` goes on waiting. -/
theorem pollLend_guarded {spawner : Nat} {waker : Waker} (guarded : Guarded sys)
    (done : step (.pollLend spawner waker) sys = .ok sys') : Guarded sys' := by
  have account := pollLend_accounted guarded.toAccounted done
  obtain ⟨sent, exercised, -, lend, something, withs, runs⟩ := pollLend_ok done
  rcases lend with waits | ⟨completed, ready⟩
  · refine ⟨account, fun ref member => ⟨?_, waits⟩, fun _ _ => waits⟩
    rw [withs] at member
    rw [something]
    exact (guarded.borrowed ref member).1
  · have returned := account.replied (Or.inr completed)
    refine ⟨account, fun ref member => ?_, fun ready => ?_⟩
    · exact absurd member (account.no_running (Or.inr returned) ref)
    · rw [account.not_sent returned] at ready
      cases ready

theorem pollWith_accounted {i spawner : Nat} {waker : Waker} (account : Accounted sys)
    (done : step (.pollWith i spawner waker) sys = .ok sys') : Accounted sys' := by
  obtain ⟨future, future', here, polled, withs, runs, something, lend⟩ := pollWith_ok done
  have running := WithFuture.countP_set here isRunning future'
  have returned := WithFuture.countP_set here isReturned future'
  rw [← withs] at running returned
  have once := account.once
  have ran := account.ran
  rcases Delegate.withPoll_cases polled with ⟨called, -, panicked, same⟩ | ⟨pending, reply, taken, outcome⟩
  · rw [called, panicked] at running returned
    rw [panicked] at runs
    simp only [isRunning, isReturned, Bool.toNat_false, Nat.add_zero] at running returned runs
    constructor
    · omega
    · rw [runs, lend, same]
      exact account.uncalled
    · rw [runs, something, same]
      exact account.sent
    · omega
    · rw [lend, same, returned]
      exact account.replied
  · have before : future.isRunning = false ∧ future.isReturned = false := by
      rcases pending with waits | ⟨called, -⟩
      · rw [waits]
        exact ⟨rfl, rfl⟩
      · rw [called]
        exact ⟨rfl, rfl⟩
    have after : future'.isReturned = false := by
      rcases outcome with ⟨waits, -⟩ | ⟨cell, -, panicked | runs⟩
      · rw [waits]
        rfl
      · rw [panicked]
        rfl
      · rw [runs]
        rfl
    have unused : future'.isRunning.toNat + sys.runs ≤ 1 := by
      rcases outcome with ⟨waits, -⟩ | ⟨cell, sent, panicked | -⟩
      · rw [waits]
        simpa [isRunning] using once
      · rw [panicked]
        simpa [isRunning] using once
      · rw [(account.sent cell sent).1]
        exact Bool.toNat_le _
    have stays : sys.lend = .called → future'.isRunning = false := by
      intro called
      rcases outcome with ⟨waits, -⟩ | ⟨cell, sent, -⟩
      · rw [waits]
        rfl
      · have unsent := (account.uncalled called).2
        rw [sent] at unsent
        cases unsent
    rw [before.1] at running
    rw [before.2, after] at returned
    simp only [Bool.toNat_false, Nat.add_zero] at running returned
    constructor
    · omega
    · intro uncalled
      rw [lend] at uncalled
      rw [runs, stays uncalled, (account.uncalled uncalled).1]
      exact ⟨rfl, taken⟩
    · intro cell ready
      rw [ready] at taken
      cases taken
    · omega
    · rw [lend, reply, returned]
      exact account.replied

theorem pollWith_guarded {i spawner : Nat} {waker : Waker} (guarded : Guarded sys)
    (done : step (.pollWith i spawner waker) sys = .ok sys') : Guarded sys' := by
  have account := pollWith_accounted guarded.toAccounted done
  obtain ⟨future, future', here, polled, withs, -, something, lend⟩ := pollWith_ok done
  rcases Delegate.withPoll_cases polled with ⟨-, exercised, panicked, same⟩ | ⟨pending, -, taken, outcome⟩
  · refine ⟨account, fun ref member => ?_, fun ready takeable => ?_⟩
    · rw [withs, panicked] at member
      rw [something, lend]
      exact guarded.borrowed ref (mem_of_mem_set member (by simp))
    · rw [same] at ready
      rw [lend]
      rcases takeable with fresh | waits
      · rw [same, exercised] at fresh
        cases fresh
      · rw [withs, panicked] at waits
        exact guarded.offered ready (Or.inr (mem_of_mem_set waits (by simp)))
  · have takeable : Takeable sys := by
      rcases pending with waits | ⟨-, fresh⟩
      · rw [waits] at here
        exact Or.inr (List.mem_of_getElem? here)
      · exact Or.inl fresh
    refine ⟨account, fun ref member => ?_, fun ready => ?_⟩
    · rw [something, lend]
      rw [withs] at member
      rcases List.mem_or_eq_of_mem_set member with earlier | starts
      · exact guarded.borrowed ref earlier
      · rcases outcome with ⟨waits, -⟩ | ⟨cell, sent, panicked | runs⟩
        · rw [waits] at starts
          cases starts
        · rw [panicked] at starts
          cases starts
        · rw [runs] at starts
          cases starts
          exact ⟨(guarded.sent cell sent).2, guarded.offered (by rw [sent]; rfl) takeable⟩
    · rw [taken] at ready
      cases ready

/-- A future of `with` that ends leaves what is lent alone, and gives it back if the closure returned. -/
theorem ends_guarded {i : Nat} {future future' : WithFuture Ref} {delegate : Delegate Ref}
    (guarded : Guarded sys) (here : sys.withs[i]? = some future) (unreturned : future.isReturned = false)
    (ended : future'.isRunning = false) (idle : future' ≠ .waiting)
    (returns : future'.isReturned = true → future.isRunning = true)
    (replies : delegate.reply.isReady = true →
      sys.delegate.reply.isReady = true ∨ future'.isReturned = true)
    (send : delegate.send = sys.delegate.send)
    (exercised : delegate.wasExercised = sys.delegate.wasExercised) :
    Guarded { sys with delegate, withs := sys.withs.set i future' } := by
  have running := WithFuture.countP_set here isRunning future'
  have returned := WithFuture.countP_set here isReturned future'
  rw [ended, Bool.toNat_false, Nat.add_zero] at running
  rw [unreturned, Bool.toNat_false, Nat.add_zero] at returned
  have conserved : future'.isReturned.toNat ≤ future.isRunning.toNat := Bool.toNat_le_toNat returns
  have ran := guarded.ran
  refine ⟨⟨guarded.once, ?_, ?_, ?_, ?_⟩, fun ref member => ?_, fun ready takeable => ?_⟩
  · rw [send]
    exact guarded.uncalled
  · rw [send]
    exact guarded.sent
  · dsimp only
    omega
  · intro replied
    have back : 0 < sys.withs.countP isReturned ∨ future'.isReturned = true := by
      rcases replied with ready | completed
      · rcases replies ready with ready | returns
        · exact Or.inl (guarded.replied (Or.inl ready))
        · exact Or.inr returns
      · exact Or.inl (guarded.replied (Or.inr completed))
    dsimp only
    rcases back with earlier | now
    · omega
    · rw [returned, now]
      exact Nat.succ_pos _
  · apply guarded.borrowed ref
    apply mem_of_mem_set member
    intro same
    rw [← same] at ended
    cases ended
  · rw [send] at ready
    apply guarded.offered ready
    rcases takeable with fresh | waits
    · exact Or.inl (exercised ▸ fresh)
    · exact Or.inr (mem_of_mem_set waits (Ne.symm idle))

theorem dropLend_guarded (guarded : Guarded sys) (allowed : NotWithdrawn .dropLend sys) :
    Guarded { sys with lend := .dropped } := by
  obtain ⟨idle, kept⟩ := allowed
  refine ⟨⟨guarded.once, ?_, guarded.sent, guarded.ran, ?_⟩, fun ref member => ?_, fun ready takeable => ?_⟩
  · intro called
    cases called
  · intro replied
    rcases replied with ready | completed
    · exact guarded.replied (Or.inl ready)
    · cases completed
  · have running := idle _ member
    cases running
  · exact absurd ⟨ready, takeable⟩ kept

theorem callWith_guarded (guarded : Guarded sys) :
    Guarded { sys with withs := sys.withs ++ [.called] } := by
  have counted : ∀ p : WithFuture Ref → Bool, p WithFuture.called = false →
      (sys.withs ++ [WithFuture.called]).countP p = sys.withs.countP p := by
    intro p called
    rw [List.countP_append, List.countP_singleton, called]
    rfl
  have running := counted isRunning rfl
  have returned := counted isReturned rfl
  refine ⟨⟨guarded.once, guarded.uncalled, guarded.sent, ?_, ?_⟩, fun ref member => ?_,
    fun ready takeable => ?_⟩
  · rw [running, returned]
    exact guarded.ran
  · rw [returned]
    exact guarded.replied
  · apply guarded.borrowed ref
    simpa using member
  · apply guarded.offered ready
    rcases takeable with fresh | waits
    · exact Or.inl fresh
    · exact Or.inr (by simpa using waits)

theorem step_guarded (guarded : Guarded sys) (allowed : NotWithdrawn e sys)
    (done : step e sys = .ok sys') : Guarded sys' := by
  cases e with
  | pollLend spawner waker => exact pollLend_guarded guarded done
  | pollWith i spawner waker => exact pollWith_guarded guarded done
  | dropLend =>
    dsimp only [step] at done
    split at done
    · cases done
      exact dropLend_guarded guarded allowed
    · cases done
      exact dropLend_guarded guarded allowed
    · cases done
    · cases done
  | callWith =>
    cases done
    exact callWith_guarded guarded
  | dropWith i =>
    dsimp only [step] at done
    split at done
    · rename_i here
      cases done
      exact ends_guarded guarded here rfl rfl (by simp) (fun returned => by cases returned) Or.inl rfl rfl
    · rename_i here
      cases done
      exact ends_guarded guarded here rfl rfl (by simp) (fun returned => by cases returned) Or.inl rfl rfl
    · cases done
  | closureReturns i =>
    dsimp only [step] at done
    split at done
    · rename_i here
      cases done
      exact ends_guarded guarded here rfl rfl (by simp) (fun _ => rfl) (fun _ => Or.inr rfl) rfl rfl
    · cases done
  | closurePanics i =>
    dsimp only [step] at done
    split at done
    · rename_i here
      cases done
      exact ends_guarded guarded here rfl rfl (by simp) (fun returned => by cases returned) Or.inl rfl rfl
    · cases done

/-- The closure has run once at most, on what is lent and while `lend` waits, and `lend` completes only
    after it has returned. -/
structure LentSafely (sys : Lending Ref) : Prop where
  once : sys.runs ≤ 1
  borrowed : Borrowed sys
  returned : sys.lend = .completed → .returned ∈ sys.withs

theorem Guarded.lentSafely (guarded : Guarded sys) : LentSafely sys := by
  refine ⟨guarded.once, guarded.borrowed, fun completed => ?_⟩
  have back := guarded.replied (Or.inr completed)
  obtain ⟨future, member, returned⟩ := List.countP_pos_iff.mp back
  cases future with
  | returned => exact member
  | _ => cases returned

/-- What is sent can be taken after the future of `lend` was dropped. -/
theorem taken_lost (sys : Lending Ref) {i : Nat} {cell : SameExecutorCell Ref} {future : WithFuture Ref}
    (dropped : sys.lend = .dropped) (sent : sys.delegate.send = .ready cell)
    (here : sys.withs[i]? = some future)
    (takes : future = .waiting ∨ future = .called ∧ sys.delegate.wasExercised = false) :
    ∃ lost, Reachable step sys lost ∧ ¬ LentSafely lost := by
  have polled : ∃ delegate,
      sys.delegate.withPoll cell.executorId 0 future = some (delegate, .running cell.inner) := by
    rcases takes with rfl | ⟨rfl, fresh⟩
    · exact ⟨_, by simp [Delegate.withPoll, Delegate.waitSend, sent, SignalState.pollWait,
        SameExecutorCell.get]; rfl⟩
    · exact ⟨_, by simp [Delegate.withPoll, Delegate.waitSend, sent, SignalState.pollWait,
        SameExecutorCell.get, fresh]; rfl⟩
  obtain ⟨delegate, polled⟩ := polled
  have taken : ∃ lost, step (.pollWith i cell.executorId 0) sys = .ok lost ∧
      lost.withs = sys.withs.set i (.running cell.inner) ∧ lost.lend = sys.lend := by
    simp only [step, here, Option.bind_some, polled]
    exact ⟨_, rfl, rfl, rfl⟩
  obtain ⟨lost, taken, withs, lend⟩ := taken
  refine ⟨lost, Reaches.next _ .init trivial taken, fun safe => ?_⟩
  have member : .running cell.inner ∈ lost.withs := by
    rw [withs]
    obtain ⟨inside, -⟩ := List.getElem?_eq_some_iff.mp here
    exact List.mem_set inside _
  have waits := (safe.borrowed _ member).2
  rw [lend, dropped] at waits
  cases waits

/-- A closure can still run when the future of `lend` was dropped although the reference was sent and
    would be taken. -/
theorem withdrawn_lost (done : step .dropLend sys = .ok sys')
    (withdrawn : ¬ NotWithdrawn .dropLend sys) :
    ∃ lost, Reachable step sys' lost ∧ ¬ LentSafely lost := by
  have dropped : sys' = { sys with lend := .dropped } := by
    dsimp only [step] at done
    split at done <;> cases done <;> rfl
  rw [dropped]
  rcases not_and_or.mp withdrawn with busy | offered
  · obtain ⟨future, busy⟩ := not_forall.mp busy
    obtain ⟨member, running⟩ := Classical.not_imp.mp busy
    cases future with
    | running something =>
      refine ⟨_, Reaches.init, fun safe => ?_⟩
      have waits := (safe.borrowed something member).2
      cases waits
    | _ => exact absurd rfl running
  · obtain ⟨ready, takeable⟩ := not_not.mp offered
    cases sent : sys.delegate.send with
    | none | waiting =>
      rw [sent] at ready
      cases ready
    | ready cell =>
      rcases takeable with fresh | waits
      · have called : step .callWith { sys with lend := .dropped } =
            .ok { sys with lend := .dropped, withs := sys.withs ++ [.called] } := rfl
        obtain ⟨lost, reached, broken⟩ := taken_lost
          { sys with lend := .dropped, withs := sys.withs ++ [.called] } rfl sent
          List.getElem?_concat_length (Or.inr ⟨rfl, fresh⟩)
        exact ⟨lost, (Reaches.next _ .init trivial called).trans reached, broken⟩
      · obtain ⟨i, here⟩ := List.mem_iff_getElem?.mp waits
        exact taken_lost { sys with lend := .dropped } rfl sent here (Or.inl rfl)

/-- The closure that is passed runs once, and only while the future of `lend` waits for it, as long as
    that is not dropped when a closure runs or is about to; and otherwise this can fail later. -/
theorem lent_safely {something : Ref} (reached : Reaches step NotWithdrawn (init something) sys) :
    LentSafely sys ∧ ∀ e sys', step e sys = .ok sys' → ¬ NotWithdrawn e sys →
      ∃ lost, Reachable step sys' lost ∧ ¬ LentSafely lost := by
  have guarded := reached.invariant Guarded (init_guarded something)
    fun _ _ _ guarded allowed done => step_guarded guarded allowed done
  refine ⟨guarded.lentSafely, fun e sys' done withdrawn => ?_⟩
  cases e with
  | dropLend => exact withdrawn_lost done withdrawn
  | _ => exact absurd trivial withdrawn

/-- Two tasks want the reference, and the second one panics. -/
def wantedTwice : List Event :=
  [.callWith, .callWith, .pollWith 0 3 1, .pollLend 3 0, .pollWith 1 3 2, .pollWith 0 3 1, .pollLend 3 0,
    .closureReturns 0, .pollLend 3 0]

theorem lent_safely_sample :
    ∃ sys : Lending Nat, sys.lend = .completed ∧ sys.withs = [.returned, .panicked] ∧ LentSafely sys := by
  have run : ∃ sys, Reaches step NotWithdrawn (init 7) sys ∧
      decide (sys.lend = .completed ∧ sys.withs = [.returned, .panicked]) = true :=
    reaches_of_check wantedTwice (by decide +kernel)
  obtain ⟨sys, reached, here⟩ := run
  obtain ⟨lend, withs⟩ := of_decide_eq_true here
  exact ⟨sys, lend, withs, (lent_safely reached).1⟩

/-- What was lent is used after the future that had borrowed it was dropped. -/
theorem used_after_drop :
    ∃ sys : Lending Nat, Reachable step (init 7) sys ∧ sys.lend = .dropped ∧ sys.withs = [.running 7] ∧
      ¬ LentSafely sys := by
  have run : ∃ sys, Reachable step (init 7) sys ∧
      decide (sys.lend = .dropped ∧ sys.withs = [.running 7]) = true :=
    reaches_of_check [.pollLend 3 0, .dropLend, .callWith, .pollWith 0 3 1] (by decide +kernel)
  obtain ⟨sys, reached, here⟩ := run
  obtain ⟨lend, withs⟩ := of_decide_eq_true here
  refine ⟨sys, reached, lend, withs, fun safe => ?_⟩
  have waits := (safe.borrowed 7 (by rw [withs]; exact List.mem_singleton.mpr rfl)).2
  rw [lend] at waits
  cases waits

end Lending

end ArielOS
