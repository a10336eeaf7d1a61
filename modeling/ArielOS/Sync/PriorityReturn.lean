import ArielOS.Sync.PriorityInheritance

namespace ArielOS

open Machine Scheduler

/-- Mutexes, with the priorities that the threads were created with. -/
structure CreatedSystem where
  locks : LockSystem
  created : Nat → Nat

namespace CreatedSystem

def new : CreatedSystem where
  locks := .new
  created := LockSystem.new.scheduler.prioOf

variable {sys sys' : CreatedSystem} {e : LockEvent} {t u m : Nat}

/-- The priorities with which the threads were created, after the event. -/
def createdBy (e : LockEvent) (sys : CreatedSystem) : Nat → Nat :=
  match e, sys.locks.scheduler.getUnused with
  | .op (.create _ _ prio _), some tid => Function.update sys.created tid prio
  | _, _ => sys.created

def step (e : LockEvent) (sys : CreatedSystem) : Except Fault CreatedSystem := do
  return { locks := ← LockSystem.step e sys.locks, created := createdBy e sys }

/-- When a thread drops its last guard, the priority recorded for this mutex must be the one with
    which the thread was created. -/
def LastRestores (sys : CreatedSystem) (m : Nat) : LockState → Prop
  | .locked t q _ => (∀ guard ∈ sys.locks.guards, guard.1 = t → guard.2 = m) → q = sys.created t
  | .unlocked => True

/-- The runs in which the last guard of a thread brings its own priority back. -/
def Restores (e : LockEvent) (sys : CreatedSystem) : Prop :=
  LockSystem.Steady e sys.locks ∧
  match e with
  | .drop m => LastRestores sys m (sys.locks.mutexes m)
  | _ => True

/-- Threads that own no mutex have the priority with which they were created. -/
def Restored (sys : CreatedSystem) : Prop :=
  ∀ t, (∀ m, (sys.locks.mutexes m).owner ≠ some t) → sys.locks.scheduler.prioOf t = sys.created t

theorem op_restored {o : Op} {s' : Scheduler} (restored : Restored sys)
    (steady : LockSystem.Steady (.op o) sys.locks)
    (ran : o.run SingleCore.cpu sys.locks.scheduler = .ok s') :
    Restored ⟨{ sys.locks with scheduler := s' }, createdBy (.op o) sys⟩ := by
  intro t free
  have before := restored t free
  have prios := Op.run_prioOf ran
  cases o with
  | create stackStart stackLen prio affinity =>
    obtain ⟨u, unused, -, prios⟩ := prios
    simp only [createdBy, unused, prios]
    by_cases same : t = u
    · simp [same]
    · simp [same, before]
  | setPriority u prio => cases steady.2
  | _ => exact (congrFun prios t).trans before

/-- The event takes no mutex away from its owner. -/
theorem restored_of_same {locks' : LockSystem} (restored : Restored sys)
    (unchanged : createdBy e sys = sys.created)
    (owners : ∀ m t, (sys.locks.mutexes m).owner = some t → (locks'.mutexes m).owner = some t)
    (prios : ∀ t, (∀ m, (locks'.mutexes m).owner ≠ some t) →
      locks'.scheduler.prioOf t = sys.locks.scheduler.prioOf t) :
    Restored ⟨locks', createdBy e sys⟩ := by
  intro t free
  have before : ∀ m, (sys.locks.mutexes m).owner ≠ some t := fun m owns => free m (owners m t owns)
  rw [unchanged]
  exact (prios t free).trans (restored t before)

theorem taken_owner {mutexes : Nat → LockState} {state : LockState} {n : Nat}
    (kept : ∀ o, (mutexes m).owner = some o → state.owner = some o)
    (owns : (mutexes n).owner = some t) : (Function.update mutexes m state n).owner = some t := by
  rw [LockSystem.update_owner]
  split
  · rename_i here
    exact kept t (here ▸ owns)
  · exact owns

theorem effect_restored {locks' : LockSystem} (safe : LockSystem.Safe sys.locks)
    (restored : Restored sys) (restores : Restores e sys)
    (effect : LockSystem.Effect sys.locks e locks') : Restored ⟨locks', createdBy e sys⟩ := by
  cases effect with
  | op o s' may ran => exact op_restored restored restores.1 ran
  | refused m => exact restored_of_same restored rfl (fun _ _ owns => owns) fun _ _ => rfl
  | locked m t called free =>
    refine restored_of_same restored rfl (fun n u owns => taken_owner ?_ owns) fun _ _ => rfl
    intro o owned
    rw [free] at owned
    cases owned
  | tryLocked m t called free =>
    refine restored_of_same restored rfl (fun n u owns => taken_owner ?_ owns) fun _ _ => rfl
    intro o owned
    rw [free] at owned
    cases owned
  | waited m t o q list list' s' waited =>
    have kept : ∀ a, (sys.locks.mutexes m).owner = some a →
        (LockState.locked o q list').owner = some a := by
      intro a owned
      rwa [waited.held] at owned
    refine restored_of_same restored rfl (fun n u owns => taken_owner kept owns) fun u free => ?_
    have other : u ≠ o := by
      intro same
      refine free m ?_
      simp [LockSystem.setMutex, LockState.owner, same]
    rcases waited.inherits with ⟨same, -⟩ | ⟨-, ⟨-, same⟩ | ⟨-, raised⟩⟩
    · exact congrFun same u
    · exact congrFun same u
    · exact (congrFun raised u).trans (Function.update_of_ne other _ _)
  | returned t m executes inside =>
    exact restored_of_same restored rfl (fun _ _ owns => owns) fun _ _ => rfl
  | dropped m t q list state' s' dropped =>
    intro u free
    have elsewhere : ∀ n, n ≠ m → (sys.locks.mutexes n).owner ≠ some u := by
      intro n other owns
      refine free n ?_
      simpa [LockSystem.setMutex, other] using owns
    change s'.prioOf u = sys.created u
    rw [dropped.prioOf]
    by_cases same : u = t
    · subst same
      rw [Function.update_self]
      have last := restores.2
      simp only [dropped.held, LastRestores] at last
      obtain ⟨-, -, W, owned⟩ := safe
      refine last fun guard holds own => ?_
      by_contra other
      exact elsewhere guard.2 other (owned.held (own ▸ holds))
    · rw [Function.update_of_ne same]
      refine restored u fun n owns => ?_
      by_cases here : n = m
      · rw [here, dropped.held] at owns
        exact same (Option.some.inj owns).symm
      · exact elsewhere n here owns

def Steady (e : LockEvent) (sys : CreatedSystem) : Prop := LockSystem.Steady e sys.locks

theorem step_held (safe : LockSystem.Safe sys.locks) (held : LockSystem.Held sys.locks)
    (steady : Steady e sys) (done : step e sys = .ok sys') :
    LockSystem.Safe sys'.locks ∧ LockSystem.Held sys'.locks ∧
      LockSystem.Effect sys.locks e sys'.locks ∧ sys'.created = createdBy e sys := by
  obtain ⟨locks', taken, rest⟩ := bind_ok_iff.mp done
  cases rest
  obtain ⟨safe', held'⟩ := LockSystem.step_held safe held steady taken
  exact ⟨safe', held', LockSystem.step_effect safe held taken, rfl⟩

/-- A thread outside of `lock` that has no guard owns no mutex. -/
theorem owns_nothing (reached : Reaches step Steady new sys)
    (guards : ∀ guard ∈ sys.locks.guards, guard.1 ≠ t) (outside : sys.locks.locking t = none) :
    (sys.locks.mutexes m).owner ≠ some t := by
  obtain ⟨-, held⟩ := reached.invariant
    (fun sys => LockSystem.Safe sys.locks ∧ LockSystem.Held sys.locks)
    ⟨LockSystem.new_safe, LockSystem.new_held⟩ fun _ _ _ inv steady done => by
      obtain ⟨safe', held', -⟩ := step_held inv.1 inv.2 steady done
      exact ⟨safe', held'⟩
  intro owns
  rcases held.claimed owns with holds | inside
  · exact guards _ holds rfl
  · rw [outside] at inside
    cases inside

/-- In these runs, threads that own no mutex have the priority with which they were created. -/
theorem priority_given_back (reached : Reaches step Restores new sys) (t : Nat)
    (free : ∀ m, (sys.locks.mutexes m).owner ≠ some t) :
    sys.locks.scheduler.prioOf t = sys.created t := by
  obtain ⟨-, -, restored⟩ := reached.invariant
    (fun sys => LockSystem.Safe sys.locks ∧ LockSystem.Held sys.locks ∧ Restored sys)
    ⟨LockSystem.new_safe, LockSystem.new_held, fun _ _ => rfl⟩ fun _ e sys' inv restores done => by
      obtain ⟨safe, held, restored⟩ := inv
      obtain ⟨safe', held', effect, created⟩ := step_held safe held restores.1 done
      obtain ⟨locks', created'⟩ := sys'
      subst created
      exact ⟨safe', held', effect_restored safe restored restores effect⟩
  exact restored t free

instance (sys : CreatedSystem) (m : Nat) (state : LockState) :
    Decidable (LastRestores sys m state) :=
  match state with
  | .locked .. => inferInstanceAs (Decidable ((∀ _ ∈ _, _ → _) → _ = _))
  | .unlocked => isTrue trivial

instance (e : LockEvent) (sys : CreatedSystem) : Decidable (Steady e sys) :=
  inferInstanceAs (Decidable (LockSystem.Steady e sys.locks))

instance (e : LockEvent) (sys : CreatedSystem) : Decidable (Restores e sys) :=
  match e with
  | .drop _ => inferInstanceAs (Decidable (_ ∧ LastRestores ..))
  | .op _ | .lock _ | .tryLock _ | .lockReturn => inferInstanceAs (Decidable (_ ∧ True))

section Samples

open LockSystem (bootEvents switch)

/-- Thread 0 of priority 1 takes mutex 0, and thread 1 of priority 5 waits for it. -/
def boostEvents : List LockEvent :=
  bootEvents ++ [.lock 0, .lockReturn, .op (.create 512 512 5 none)] ++ switch ++ [.lock 0] ++ switch

/-- Thread 0 has no guard and is outside of `lock`. -/
def released (sys : CreatedSystem) : Bool :=
  (sys.locks.guards.all fun guard => guard.1 ≠ 0) && sys.locks.locking 0 == none &&
    sys.locks.scheduler.isValidTid 0 && sys.created 0 == 1

theorem owns_nothing_of_released (reached : Reaches step Steady new sys)
    (check : released sys = true) : (∀ m, (sys.locks.mutexes m).owner ≠ some 0) ∧
      sys.locks.scheduler.isValidTid 0 = true ∧ sys.created 0 = 1 := by
  simp only [released, Bool.and_eq_true, List.all_eq_true, decide_eq_true_eq, beq_iff_eq] at check
  obtain ⟨⟨⟨guards, outside⟩, valid⟩, created⟩ := check
  exact ⟨fun m => owns_nothing reached guards outside, valid, created⟩

/-- Thread 0 gives mutex 0 and the priority of thread 1 back. -/
theorem priority_given_back_sample : ∃ sys : CreatedSystem,
    (∀ m, (sys.locks.mutexes m).owner ≠ some 0) ∧ sys.locks.scheduler.prioOf 0 = 1 := by
  have run : ∃ sys, Reaches step Restores new sys ∧ released sys = true :=
    reaches_of_check (boostEvents ++ [.drop 0]) (by decide +kernel)
  obtain ⟨sys, reached, check⟩ := run
  obtain ⟨free, -, created⟩ := owns_nothing_of_released (reached.mono fun _ _ => And.left) check
  exact ⟨sys, free, (priority_given_back reached 0 free).trans created⟩

/-- Thread 0 takes mutex 1 while it has the priority of thread 1, and drops it last: it keeps this
    priority. -/
theorem priority_kept : ∃ sys, Reaches step Steady new sys ∧
    (∀ m, (sys.locks.mutexes m).owner ≠ some 0) ∧ sys.locks.scheduler.isValidTid 0 = true ∧
    sys.created 0 = 1 ∧ sys.locks.scheduler.prioOf 0 = 5 := by
  have run : ∃ sys, Reaches step Steady new sys ∧
      (released sys && sys.locks.scheduler.prioOf 0 == 5) = true :=
    reaches_of_check (boostEvents ++ [.lock 1, .lockReturn, .drop 0] ++ switch ++
      [.lockReturn, .op .park] ++ switch ++ [.drop 1]) (by decide +kernel)
  obtain ⟨sys, reached, check⟩ := run
  simp only [Bool.and_eq_true, beq_iff_eq] at check
  obtain ⟨free, valid, created⟩ := owns_nothing_of_released reached check.1
  exact ⟨sys, reached, free, valid, created, check.2⟩

end Samples

end CreatedSystem

end ArielOS
