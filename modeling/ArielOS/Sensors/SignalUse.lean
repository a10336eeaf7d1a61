import ArielOS.Lib.Run
import ArielOS.Sensors.Signal

namespace ArielOS.Sensors

open Machine

/-- What is done with a signal. All futures that it gives out poll it alike. -/
inductive SignalCall (T : Type)
  | signal (new : T)
  | clear
  | poll (waker : Waker)

/-- What was done, whom it woke, and what a poll returned if it was ready. -/
inductive SignalRecord (T : Type)
  | signalled (value : T) (woken : Option Waker)
  | cleared
  | polled (waker : Waker) (woken : Option Waker) (result : Option T)
  deriving DecidableEq

/-- A signal, and what was done with it beginning with what was done last. -/
structure SignalUse (T : Type) where
  state : SignalState T
  log : List (SignalRecord T)

namespace SignalRecord

variable {T : Type}

def wakes : SignalRecord T → Option Waker
  | .signalled _ woken | .polled _ woken _ => woken
  | .cleared => none

/-- Whose poll it was. -/
def polledBy : SignalRecord T → Option Waker
  | .polled waker _ _ => some waker
  | .signalled .. | .cleared => none

/-- A value that was signalled before is still there afterwards. -/
def leavesValue : SignalRecord T → Bool
  | .polled _ _ none => true
  | .signalled .. | .cleared | .polled _ _ (some _) => false

end SignalRecord

namespace SignalUse

variable {T : Type} {use use' : SignalUse T} {call : SignalCall T} {waker : Waker} {value : T}
  {log later : List (SignalRecord T)} {record : SignalRecord T}

def new : SignalUse T := ⟨.none, []⟩

def step (call : SignalCall T) (use : SignalUse T) : Except Fault (SignalUse T) :=
  match call with
  | .signal new =>
    let outcome := use.state.signal new
    .ok ⟨outcome.1, .signalled new outcome.2 :: use.log⟩
  | .clear => .ok ⟨use.state.clear, .cleared :: use.log⟩
  | .poll waker =>
    let outcome := use.state.pollWait waker
    .ok ⟨outcome.1, .polled waker outcome.2.1 outcome.2.2 :: use.log⟩

/-- The value was signalled last, and neither cleared nor returned by a poll since. -/
def Latest (value : T) (log : List (SignalRecord T)) : Prop :=
  ∃ later woken earlier, log = later ++ .signalled value woken :: earlier ∧
    ∀ record ∈ later, record.leavesValue = true

/-- These records come after the last poll with the waker, which was not ready. -/
def PendingSince (waker : Waker) (later log : List (SignalRecord T)) : Prop :=
  ∃ woken earlier, log = later ++ .polled waker woken none :: earlier ∧
    ∀ record ∈ later, record.polledBy ≠ some waker

theorem latest_cons : Latest value (record :: log) ↔
    (∃ woken, record = .signalled value woken) ∨ record.leavesValue = true ∧ Latest value log := by
  apply Iff.intro
  · intro ⟨later, woken, earlier, split, leaves⟩
    cases later with
    | nil =>
      obtain ⟨here, -⟩ := List.cons.inj split
      exact Or.inl ⟨woken, here⟩
    | cons first later =>
      obtain ⟨here, rest⟩ := List.cons.inj split
      have first : record.leavesValue = true := here ▸ leaves first List.mem_cons_self
      exact Or.inr ⟨first, later, woken, earlier, rest,
        fun record member => leaves record (List.mem_cons_of_mem _ member)⟩
  · intro either
    rcases either with ⟨woken, rfl⟩ | ⟨leaves, later, woken, earlier, rfl, others⟩
    · exact ⟨[], woken, log, rfl, nofun⟩
    · exact ⟨record :: later, woken, earlier, rfl, List.forall_mem_cons.mpr ⟨leaves, others⟩⟩

theorem pendingSince_cons : PendingSince waker later (record :: log) ↔
    (later = [] ∧ ∃ woken, record = .polled waker woken none) ∨
      ∃ rest, later = record :: rest ∧ record.polledBy ≠ some waker ∧ PendingSince waker rest log := by
  apply Iff.intro
  · intro ⟨woken, earlier, split, others⟩
    cases later with
    | nil =>
      obtain ⟨here, -⟩ := List.cons.inj split
      exact Or.inl ⟨rfl, woken, here⟩
    | cons first rest =>
      obtain ⟨rfl, behind⟩ := List.cons.inj split
      exact Or.inr ⟨rest, rfl, others _ List.mem_cons_self, woken, earlier, behind,
        fun record member => others record (List.mem_cons_of_mem _ member)⟩
  · intro either
    rcases either with ⟨rfl, woken, rfl⟩ | ⟨rest, rfl, other, woken, earlier, rfl, others⟩
    · exact ⟨woken, log, rfl, nofun⟩
    · exact ⟨woken, earlier, rfl, List.forall_mem_cons.mpr ⟨other, others⟩⟩

/-- The signal holds the latest value, and each waker that was told to wait is registered or was
    woken. -/
structure Faithful (use : SignalUse T) : Prop where
  ready : ∀ value, use.state = .ready value ↔ Latest value use.log
  registered : ∀ waker later, PendingSince waker later use.log →
    use.state = .waiting waker ∨ ∃ record ∈ later, record.wakes = some waker

/-- A call is faithful if it treats the latest value as its record says, and does not let go of the
    registered waker unless it wakes it. -/
theorem Faithful.push {state : SignalState T} (faithful : use.Faithful)
    (ready : ∀ value, state = .ready value ↔
      (∃ woken, record = .signalled value woken) ∨
        record.leavesValue = true ∧ use.state = .ready value)
    (polled : ∀ waker woken, record = .polled waker woken none → state = .waiting waker)
    (kept : ∀ waker, use.state = .waiting waker → record.polledBy ≠ some waker →
      state = .waiting waker ∨ record.wakes = some waker) :
    Faithful ⟨state, record :: use.log⟩ where
  ready := by
    intro value
    rw [ready, latest_cons, faithful.ready]
  registered := by
    intro waker later pending
    rcases pendingSince_cons.mp pending with ⟨rfl, woken, here⟩ | ⟨rest, rfl, other, before⟩
    · exact Or.inl (polled waker woken here)
    · rcases faithful.registered waker rest before with registered | ⟨record, member, woken⟩
      · rcases kept waker registered other with same | woken
        · exact Or.inl same
        · exact Or.inr ⟨_, List.mem_cons_self, woken⟩
      · exact Or.inr ⟨record, List.mem_cons_of_mem _ member, woken⟩

theorem step_faithful (faithful : use.Faithful) (done : step call use = .ok use') :
    use'.Faithful := by
  cases call with
  | signal new =>
    cases done
    apply faithful.push
    · intro value
      rw [SignalState.signal_fst]
      simp [SignalRecord.leavesValue]
    · intro waker woken here
      cases here
    · intro waker registered _
      rw [registered]
      exact Or.inr rfl
  | clear =>
    cases done
    apply faithful.push
    · intro value
      simp [SignalRecord.leavesValue]
    · intro waker woken here
      cases here
    · intro waker registered _
      rw [registered]
      exact Or.inl rfl
  | poll waker =>
    cases done
    apply faithful.push
    · intro value
      cases here : use.state with
      | none => simp [SignalState.pollWait]
      | ready res => simp [SignalState.pollWait, SignalRecord.leavesValue]
      | waiting prevWaker =>
        dsimp only [SignalState.pollWait]
        split <;> simp
    · intro other woken here
      obtain ⟨rfl, -, pending⟩ := SignalRecord.polled.inj here
      cases here : use.state with
      | none => rfl
      | ready res =>
        rw [here] at pending
        cases pending
      | waiting prevWaker =>
        dsimp only [SignalState.pollWait]
        split
        · rename_i same
          rw [same]
        · rfl
    · intro other registered apart
      have displaced : other ≠ waker := fun same => apart (congrArg some same.symm)
      right
      rw [registered]
      simp [SignalState.pollWait, SignalRecord.wakes, displaced]

theorem reachable_faithful (reached : Reachable step new use) : use.Faithful := by
  refine reached.invariant Faithful ⟨fun value => ?_, fun waker later pending => ?_⟩
    fun _ _ _ faithful _ done => step_faithful faithful done
  · apply Iff.intro
    · intro ready
      cases ready
    · intro ⟨later, _, _, split, _⟩
      cases later <;> cases split
  · obtain ⟨_, _, split, _⟩ := pending
    cases later <;> cases split

/-- A poll is ready exactly with the latest value, each waker that was told to wait is registered or
    was woken, and a signal wakes the registered waker. -/
theorem latest_value_no_lost_waker (reached : Reachable step new use) :
    (∀ waker value, (use.state.pollWait waker).2.2 = some value ↔ Latest value use.log) ∧
      (∀ waker later, PendingSince waker later use.log →
        use.state = .waiting waker ∨ ∃ record ∈ later, record.wakes = some waker) ∧
      ∀ waker value, use.state = .waiting waker → (use.state.signal value).2 = some waker := by
  have faithful := reachable_faithful reached
  refine ⟨fun waker value => ?_, faithful.registered, fun waker value registered => ?_⟩
  · rw [SignalState.pollWait_ready, faithful.ready]
  · rw [registered]
    rfl

/-- Two wakers take turns, and the second one gets the value that replaced the first. -/
def turns : List (SignalCall Nat) :=
  [.poll 0, .poll 1, .signal 4, .signal 7]

theorem latest_value_no_lost_waker_sample : ∃ use : SignalUse Nat,
    use.log = [.signalled 7 none, .signalled 4 (some 1), .polled 1 (some 0) none, .polled 0 none none] ∧
      Latest 7 use.log := by
  have run : ∃ use, Reachable step (new : SignalUse Nat) use ∧
      decide (use.state = .ready 7 ∧ use.log = [.signalled 7 none, .signalled 4 (some 1),
        .polled 1 (some 0) none, .polled 0 none none]) = true :=
    reaches_of_check turns (by decide +kernel)
  obtain ⟨use, reached, here⟩ := run
  obtain ⟨ready, log⟩ := of_decide_eq_true here
  refine ⟨use, log, ((latest_value_no_lost_waker reached).1 1 7).mp ?_⟩
  rw [ready]
  rfl

end SignalUse

end ArielOS.Sensors
