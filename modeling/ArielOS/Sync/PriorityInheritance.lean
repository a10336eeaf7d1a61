import ArielOS.Sync.LockEffects

namespace ArielOS.LockSystem

open Machine Scheduler

variable {sys sys' : LockSystem} {e : LockEvent} {t u m n : Nat}

theorem new_held : Held new where
  claimed := fun owns => by cases owns
  alive := fun either => by rcases either with holds | inside <;> contradiction

theorem caller_valid (safe : Safe sys) (called : sys.caller SingleCore.cpu = some t) :
    sys.scheduler.isValidTid t = true ∧ sys.scheduler.currentTid SingleCore.cpu = some t ∧
      sys.locking t = none := by
  obtain ⟨executes, outside⟩ := caller_eq_some called
  obtain ⟨own, ready⟩ := SingleCore.executing_running safe.2.1 executes
  exact ⟨isValidTid_iff.mpr ⟨SingleCore.running_lt safe.2.1 ready, by simp [ready]⟩, own, outside⟩

/-- Only a thread without guards, outside of `lock`, exits. -/
theorem op_alive {o : Op} {s' : Scheduler} (safe : Safe sys) (held : Held sys)
    (may : o.blocking = true → sys.mayBlock SingleCore.cpu o = true)
    (ran : o.run SingleCore.cpu sys.scheduler = .ok s')
    (busy : (t, m) ∈ sys.guards ∨ sys.locking t = some m) : s'.isValidTid t = true := by
  obtain ⟨bound, known⟩ := isValidTid_iff.mp (held.alive busy)
  refine isValidTid_iff.mpr ⟨bound, fun gone => ?_⟩
  rcases Op.run_stateOf (t := t) safe.1 ran with same | ⟨ready, -⟩ | ⟨own, stops⟩
  · exact known (same.symm.trans gone)
  · rw [gone] at ready
    cases ready
  · rw [gone] at stops
    cases o <;> simp [Op.Stops] at stops
    have allowed := may rfl
    unfold mayBlock at allowed
    cases called : sys.caller SingleCore.cpu with
    | none => simp [called] at allowed
    | some u =>
      obtain ⟨-, own', outside⟩ := caller_valid safe called
      obtain rfl : t = u := Option.some.inj (own.symm.trans own')
      simp only [called, List.all_eq_true, decide_eq_true_eq] at allowed
      rcases busy with holds | inside
      · exact allowed _ holds rfl
      · rw [outside] at inside
        cases inside

theorem update_owner {mutexes : Nat → LockState} {state : LockState} :
    (Function.update mutexes m state n).owner =
      if n = m then state.owner else (mutexes n).owner := by
  by_cases same : n = m
  · subst same
    simp
  · simp [same]

/-- The threads are valid that are busy when a thread enters `lock`. -/
theorem Held.alive_of_update (held : Held sys) (valid : sys.scheduler.isValidTid t = true)
    (busy : (u, n) ∈ sys.guards ∨ Function.update sys.locking t (some m) u = some n) :
    sys.scheduler.isValidTid u = true := by
  rcases busy with holds | inside
  · exact held.alive (Or.inl holds)
  · rcases update_locking_cases inside with ⟨rfl, -⟩ | ⟨-, inside⟩
    · exact valid
    · exact held.alive (Or.inr inside)

section Changes

variable {o q : Nat} {list list' : ThreadList} {state' : LockState} {s' : Scheduler}

theorem Waited.valid (waited : Waited sys m t o q list s') (before : sys.scheduler.isValidTid u = true) :
    s'.isValidTid u = true := by
  obtain ⟨bound, known⟩ := isValidTid_iff.mp before
  refine isValidTid_iff.mpr ⟨bound, ?_⟩
  rw [waited.stateOf]
  by_cases same : u = t
  · simp [same]
  · rwa [Function.update_of_ne same]

theorem Waited.owner (waited : Waited sys m t o q list s')
    (owns : (Function.update sys.mutexes m (.locked o q list') n).owner = some u) :
    (sys.mutexes n).owner = some u := by
  rw [update_owner] at owns
  split at owns
  · rename_i here
    rw [here, waited.held]
    exact owns
  · exact owns

theorem Dropped.valid (dropped : Dropped sys m t q list state' s')
    (before : sys.scheduler.isValidTid u = true) : s'.isValidTid u = true := by
  obtain ⟨bound, known⟩ := isValidTid_iff.mp before
  refine isValidTid_iff.mpr ⟨bound, ?_⟩
  rcases dropped.stateOf u with same | ready
  · rwa [same]
  · simp [ready]

end Changes

theorem Effect.held (safe : Safe sys) (held : Held sys) (effect : Effect sys e sys') : Held sys' := by
  cases effect with
  | op o s' may ran => exact ⟨held.claimed, fun busy => op_alive safe held may ran busy⟩
  | refused m => exact held
  | locked m t called free =>
    obtain ⟨valid, -, outside⟩ := caller_valid safe called
    refine ⟨fun {n u} owns => ?_, fun {n u} busy => ?_⟩
    · replace owns := update_owner.symm.trans owns
      split at owns
      · rename_i here
        cases owns
        exact Or.inr (by rw [here]; exact Function.update_self ..)
      · exact (held.claimed owns).imp_right (update_locking outside)
    · exact held.alive_of_update valid busy
  | tryLocked m t called free =>
    obtain ⟨valid, -, -⟩ := caller_valid safe called
    refine ⟨fun {n u} owns => ?_, fun {n u} busy => ?_⟩
    · replace owns := update_owner.symm.trans owns
      split at owns
      · rename_i here
        cases owns
        exact Or.inl (by simp [here])
      · exact (held.claimed owns).imp_left (List.mem_cons_of_mem _)
    · rcases busy with holds | inside
      · rcases List.mem_cons.mp holds with same | before
        · cases same
          exact valid
        · exact held.alive (Or.inl before)
      · exact held.alive (Or.inr inside)
  | waited m t o q list list' s' waited =>
    obtain ⟨valid, -, outside⟩ := caller_valid safe waited.called
    refine ⟨fun {n u} owns => ?_, fun {n u} busy => waited.valid (held.alive_of_update valid busy)⟩
    exact (held.claimed (waited.owner owns)).imp_right (update_locking outside)
  | returned t m executes inside =>
    refine ⟨fun {n u} owns => ?_, fun {n u} busy => ?_⟩
    · rcases held.claimed owns with holds | waits
      · exact Or.inl (List.mem_cons_of_mem _ holds)
      · by_cases same : u = t
        · subst same
          rw [inside, Option.some.injEq] at waits
          exact Or.inl (by simp [waits])
        · exact Or.inr ((Function.update_of_ne same _ _).trans waits)
    · rcases busy with holds | waits
      · rcases List.mem_cons.mp holds with same | before
        · cases same
          exact held.alive (Or.inr inside)
        · exact held.alive (Or.inl before)
      · by_cases same : u = t
        · subst same
          simp at waits
        · exact held.alive (Or.inr ((Function.update_of_ne same _ _).symm.trans waits))
  | dropped m t q list state' s' dropped =>
    refine ⟨fun {n u} owns => ?_, fun {n u} busy => dropped.valid ?_⟩
    · replace owns := update_owner.symm.trans owns
      split at owns
      · rename_i here
        exact Or.inr (here ▸ (dropped.next u owns).2)
      · rename_i elsewhere
        refine (held.claimed owns).imp_left fun holds => ?_
        exact (List.mem_erase_of_ne fun same => elsewhere (congrArg Prod.snd same)).mpr holds
    · rcases busy with holds | inside
      · exact held.alive (Or.inl (List.mem_of_mem_erase holds))
      · exact held.alive (Or.inr inside)

def setsPriority : LockEvent → Bool
  | .op (.setPriority ..) => true
  | _ => false

/-- Runs of `lock`, `try_lock` and drops of guards, without other changes of priorities. -/
def Steady (e : LockEvent) (sys : LockSystem) : Prop :=
  TimersSpareWaiters e sys ∧ setsPriority e = false

/-- Without `set_priority`, only a new thread gets a priority. -/
theorem op_prioOf {o : Op} {s' : Scheduler} (held : Held sys) (steady : Steady (.op o) sys)
    (ran : o.run SingleCore.cpu sys.scheduler = .ok s')
    (busy : (t, m) ∈ sys.guards ∨ sys.locking t = some m) :
    s'.prioOf t = sys.scheduler.prioOf t := by
  have prios := Op.run_prioOf ran
  cases o with
  | create stackStart stackLen prio affinity =>
    obtain ⟨u, -, free, prios⟩ := prios
    have other : t ≠ u := by
      intro same
      exact (isValidTid_iff.mp (held.alive busy)).2 (same ▸ free)
    rw [prios, Function.update_of_ne other]
  | setPriority u prio => cases steady.2
  | _ => exact congrFun prios t

section Inheritance

/-- The owner of a mutex is not below the threads that wait for it. -/
def Effective (sys : LockSystem) : Prop :=
  ∀ m o, (sys.mutexes m).owner = some o → ∀ t, sys.locking t = some m →
    sys.scheduler.prioOf t ≤ sys.scheduler.prioOf o

/-- The threads other than `o` that wait for mutexes of `o`, but for those that wait for `but`, are
    not above the priority. -/
def Bounds (sys : LockSystem) (o prio : Nat) (but : Option Nat) : Prop :=
  ∀ u < threadCount, ∀ n, sys.locking u = some n → some n ≠ but →
    (sys.mutexes n).owner = some o → u ≠ o → sys.scheduler.prioOf u ≤ prio

/-- When a thread waits for a mutex and comes first in its list, the owner must get a priority that
    is not below the threads that wait for its other mutexes, nor above the owner that it waits for
    itself; and where it inherits nothing, it must have the priority of the thread already. -/
def InheritsEnough (sys : LockSystem) (prio o q : Nat) (list : ThreadList) : Prop :=
  (∀ h, list.head = some h → sys.scheduler.prioOf h < prio) →
    if q < prio then
      Bounds sys o prio none ∧ ∀ n, sys.locking o = some n → ∀ o',
        (sys.mutexes n).owner = some o' → o' ≠ o → prio ≤ sys.scheduler.prioOf o'
    else prio ≤ sys.scheduler.prioOf o

/-- When a mutex is released, the recorded priority must not be below the threads that wait for
    other mutexes of the owner, and nobody in the list of the mutex is above the first one. -/
def ReleasesEnough (sys : LockSystem) (m o q : Nat) (list : ThreadList) : Prop :=
  Bounds sys o q (some m) ∧ ∀ h, list.head = some h → ∀ u < threadCount, sys.locking u = some m →
    sys.scheduler.prioOf u ≤ sys.scheduler.prioOf h

def LockEnough (sys : LockSystem) : Option Nat → LockState → Prop
  | some t, .locked o q list => InheritsEnough sys (sys.scheduler.prioOf t) o q list
  | _, _ => True

def DropEnough (sys : LockSystem) (m : Nat) : LockState → Prop
  | .locked o q list => ReleasesEnough sys m o q list
  | .unlocked => True

/-- The runs in which `lock` and `release` set priorities that are high enough. -/
def Inherits (e : LockEvent) (sys : LockSystem) : Prop :=
  Steady e sys ∧
  match e with
  | .lock m => LockEnough sys (sys.caller SingleCore.cpu) (sys.mutexes m)
  | .drop m => DropEnough sys m (sys.mutexes m)
  | _ => True

theorem unlocked_alone (safe : Safe sys) (free : sys.mutexes m = .unlocked) : sys.locking t ≠ some m := by
  obtain ⟨-, -, W, owned⟩ := safe
  exact (owned.unlocked_free free).2.1 t

/-- Where a thread starts to wait, the owner is raised enough. -/
theorem Waited.effective {o q : Nat} {list list' : ThreadList} {s' : Scheduler} (held : Held sys)
    (effective : Effective sys) (enough : InheritsEnough sys (sys.scheduler.prioOf t) o q list)
    (waited : Waited sys m t o q list s') :
    Effective { sys.setMutex m (.locked o q list') s' with
      locking := Function.update sys.locking t (some m) } := by
  intro n o' owns u inside
  have before : (sys.mutexes n).owner = some o' := waited.owner owns
  have ownerOf : (sys.mutexes m).owner = some o := by rw [waited.held]; rfl
  have which := update_locking_cases inside
  change s'.prioOf u ≤ s'.prioOf o'
  rcases waited.inherits with ⟨same, a, waits, above⟩ | ⟨first, ⟨low, same⟩ | ⟨higher, raised⟩⟩
  · rw [same]
    rcases which with ⟨rfl, rfl⟩ | ⟨-, inside⟩
    · exact Nat.le_trans above (effective n o' before a waits)
    · exact effective n o' before u inside
  · rw [same]
    rcases which with ⟨rfl, rfl⟩ | ⟨-, inside⟩
    · rw [ownerOf, Option.some.injEq] at before
      subst before
      have enough := enough first
      rwa [if_neg (Nat.not_lt.mpr low)] at enough
    · exact effective n o' before u inside
  · have enough := enough first
    rw [if_pos higher] at enough
    rw [raised]
    by_cases isOwner : o' = o
    · subst isOwner
      rw [Function.update_self]
      by_cases same : u = o'
      · rw [same, Function.update_self]
      · rw [Function.update_of_ne same]
        rcases which with ⟨rfl, rfl⟩ | ⟨-, inside⟩
        · exact Nat.le_refl _
        · have bound := (isValidTid_iff.mp (held.alive (Or.inr inside))).1
          exact enough.1 u bound n inside (Option.some_ne_none n) before same
    · rw [Function.update_of_ne isOwner]
      rcases which with ⟨rfl, rfl⟩ | ⟨-, inside⟩
      · exact absurd (Option.some.inj (before.symm.trans ownerOf)) isOwner
      · by_cases same : u = o
        · rw [same, Function.update_self]
          exact enough.2 n (same ▸ inside) o' before isOwner
        · rw [Function.update_of_ne same]
          exact effective n o' before u inside

/-- Where a guard is dropped, the recorded priority and the first waiter are high enough. -/
theorem Dropped.effective {q : Nat} {list : ThreadList} {state' : LockState} {s' : Scheduler}
    {guards : List (Nat × Nat)} (safe : Safe sys) (held : Held sys) (effective : Effective sys)
    (enough : ReleasesEnough sys m t q list) (dropped : Dropped sys m t q list state' s') :
    Effective { sys.setMutex m state' s' with guards } := by
  obtain ⟨-, -, outside⟩ := caller_valid safe dropped.called
  intro n o' owns u inside
  replace owns := update_owner.symm.trans owns
  have inside : sys.locking u = some n := inside
  have bound := (isValidTid_iff.mp (held.alive (Or.inr inside))).1
  have other : u ≠ t := fun same => by rw [same, outside] at inside; cases inside
  change s'.prioOf u ≤ s'.prioOf o'
  rw [dropped.prioOf, Function.update_of_ne other]
  split at owns
  · rename_i here
    subst here
    obtain ⟨first, waits⟩ := dropped.next o' owns
    have other : o' ≠ t := fun same => by rw [same, outside] at waits; cases waits
    rw [Function.update_of_ne other]
    exact enough.2 o' first u bound inside
  · rename_i elsewhere
    by_cases same : o' = t
    · subst same
      rw [Function.update_self]
      exact enough.1 u bound n inside (fun same => elsewhere (Option.some.inj same)) owns other
    · rw [Function.update_of_ne same]
      exact effective n o' owns u inside

theorem Effect.effective (safe : Safe sys) (held : Held sys) (effective : Effective sys)
    (inherits : Inherits e sys) (effect : Effect sys e sys') : Effective sys' := by
  cases effect with
  | op o s' may ran =>
    intro n o' owns u inside
    have owner := op_prioOf held inherits.1 ran (held.claimed owns)
    have waiter := op_prioOf held inherits.1 ran (Or.inr inside)
    dsimp only
    rw [owner, waiter]
    exact effective n o' owns u inside
  | refused m => exact effective
  | locked m t called free =>
    intro n o' owns u inside
    replace owns := update_owner.symm.trans owns
    rcases update_locking_cases inside with ⟨rfl, rfl⟩ | ⟨-, inside⟩
    · rw [if_pos rfl] at owns
      cases owns
      exact Nat.le_refl _
    · split at owns
      · rename_i here
        exact absurd (here ▸ inside) (unlocked_alone safe free)
      · exact effective n o' owns u inside
  | tryLocked m t called free =>
    intro n o' owns u inside
    replace owns := update_owner.symm.trans owns
    split at owns
    · rename_i here
      exact absurd (here ▸ inside) (unlocked_alone safe free)
    · exact effective n o' owns u inside
  | waited m t o q list list' s' waited =>
    have enough := inherits.2
    simp only [waited.called, waited.held, LockEnough] at enough
    exact waited.effective held effective enough
  | returned t m executes inside =>
    intro n o' owns u waits
    by_cases same : u = t
    · subst same
      simp at waits
    · exact effective n o' owns u ((Function.update_of_ne same _ _).symm.trans waits)
  | dropped m t q list state' s' dropped =>
    have enough := inherits.2
    simp only [dropped.held, DropEnough] at enough
    exact dropped.effective safe held effective enough

theorem step_held (safe : Safe sys) (held : Held sys) (steady : Steady e sys)
    (done : step e sys = .ok sys') : Safe sys' ∧ Held sys' :=
  ⟨step_safe safe steady.1 done, (step_effect safe held done).held safe held⟩

/-- In these runs, owners always have at least the priority of the threads that wait for them. -/
theorem waiters_not_above_owner (reached : Reaches step Inherits new sys) :
    ∀ m o q list, sys.mutexes m = .locked o q list → ∀ t, sys.locking t = some m →
      sys.scheduler.prioOf t ≤ sys.scheduler.prioOf o := by
  have start : Effective new := fun m o owns => by cases owns
  obtain ⟨-, -, effective⟩ := reached.invariant (fun sys => Safe sys ∧ Held sys ∧ Effective sys)
    ⟨new_safe, new_held, start⟩ fun _ _ _ inv inherits done => by
      obtain ⟨safe, held, effective⟩ := inv
      obtain ⟨safe', held'⟩ := step_held safe held inherits.1 done
      exact ⟨safe', held', (step_effect safe held done).effective safe held effective inherits⟩
  intro m o q list locked t inside
  exact effective m o (by rw [locked]; rfl) t inside

end Inheritance

section Decide

instance (e : LockEvent) (sys : LockSystem) : Decidable (Steady e sys) :=
  inferInstanceAs (Decidable (_ ∧ _ = _))

instance (sys : LockSystem) (o prio : Nat) (but : Option Nat) : Decidable (Bounds sys o prio but) :=
  inferInstanceAs (Decidable (∀ u < threadCount, ∀ n, sys.locking u = some n → some n ≠ but →
    (sys.mutexes n).owner = some o → u ≠ o → sys.scheduler.prioOf u ≤ prio))

instance (sys : LockSystem) (prio o q : Nat) (list : ThreadList) :
    Decidable (InheritsEnough sys prio o q list) :=
  inferInstanceAs (Decidable ((∀ h, list.head = some h → sys.scheduler.prioOf h < prio) →
    if q < prio then
      Bounds sys o prio none ∧ ∀ n, sys.locking o = some n → ∀ o',
        (sys.mutexes n).owner = some o' → o' ≠ o → prio ≤ sys.scheduler.prioOf o'
    else prio ≤ sys.scheduler.prioOf o))

instance (sys : LockSystem) (m o q : Nat) (list : ThreadList) :
    Decidable (ReleasesEnough sys m o q list) :=
  inferInstanceAs (Decidable (_ ∧ ∀ h, list.head = some h → ∀ u < threadCount,
    sys.locking u = some m → sys.scheduler.prioOf u ≤ sys.scheduler.prioOf h))

instance (sys : LockSystem) (caller : Option Nat) (state : LockState) :
    Decidable (LockEnough sys caller state) :=
  match caller, state with
  | some _, .locked .. => inferInstanceAs (Decidable (InheritsEnough ..))
  | some _, .unlocked | none, _ => isTrue trivial

instance (sys : LockSystem) (m : Nat) (state : LockState) : Decidable (DropEnough sys m state) :=
  match state with
  | .locked .. => inferInstanceAs (Decidable (ReleasesEnough ..))
  | .unlocked => isTrue trivial

instance (e : LockEvent) (sys : LockSystem) : Decidable (Inherits e sys) :=
  match e with
  | .lock _ => inferInstanceAs (Decidable (_ ∧ LockEnough ..))
  | .drop _ => inferInstanceAs (Decidable (_ ∧ DropEnough ..))
  | .op _ | .tryLock _ | .lockReturn => inferInstanceAs (Decidable (_ ∧ True))

end Decide

section Samples

/-- Thread 0 of priority 1 runs. -/
def bootEvents : List LockEvent := [.op (.create 0 512 1 none), .op .startThreading] ++ switch

/-- Thread 0 takes mutex 0, and thread 1 of priority 5 waits for it: thread 0 has priority 5. -/
theorem waiters_not_above_owner_sample : ∃ sys : LockSystem, (∃ q list, sys.mutexes 0 =
    .locked 0 q list) ∧ sys.locking 1 = some 0 ∧ sys.scheduler.prioOf 1 = 5 ∧
      5 ≤ sys.scheduler.prioOf 0 := by
  have run : ∃ sys, Reaches step Inherits new sys ∧ ((sys.mutexes 0).owner == some 0 &&
      sys.locking 1 == some 0 && sys.scheduler.prioOf 1 == 5) = true :=
    reaches_of_check (bootEvents ++ [.lock 0, .lockReturn, .op (.create 512 512 5 none)] ++ switch ++
      [.lock 0]) (by decide +kernel)
  obtain ⟨sys, reached, here⟩ := run
  simp only [Bool.and_eq_true, beq_iff_eq] at here
  obtain ⟨⟨owner, inside⟩, prio⟩ := here
  obtain ⟨q, list, locked⟩ := LockState.owner_eq_some.mp owner
  have notAbove := waiters_not_above_owner reached 0 0 q list locked 1 inside
  rw [prio] at notAbove
  exact ⟨sys, ⟨q, list, locked⟩, inside, prio, notAbove⟩

/-- Thread 0 holds mutexes 0 and 1 when thread 1 of priority 5 waits for mutex 0. Dropping the guard
    of mutex 1 takes the inherited priority away. -/
theorem owner_below_waiter : ∃ sys q list, Reaches step Steady new sys ∧
    sys.mutexes 0 = .locked 0 q list ∧ sys.locking 1 = some 0 ∧
    sys.scheduler.prioOf 0 < sys.scheduler.prioOf 1 := by
  have run : ∃ sys, Reaches step Steady new sys ∧ ((sys.mutexes 0).owner == some 0 &&
      sys.locking 1 == some 0 && decide (sys.scheduler.prioOf 0 < sys.scheduler.prioOf 1)) = true :=
    reaches_of_check (bootEvents ++ [.lock 0, .lockReturn, .lock 1, .lockReturn,
      .op (.create 512 512 5 none)] ++ switch ++ [.lock 0] ++ switch ++ [.drop 1])
      (by decide +kernel)
  obtain ⟨sys, reached, here⟩ := run
  simp only [Bool.and_eq_true, beq_iff_eq, decide_eq_true_eq] at here
  obtain ⟨⟨owner, inside⟩, below⟩ := here
  obtain ⟨q, list, locked⟩ := LockState.owner_eq_some.mp owner
  exact ⟨sys, q, list, reached, locked, inside, below⟩

end Samples

end ArielOS.LockSystem
