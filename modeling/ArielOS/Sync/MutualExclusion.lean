import ArielOS.Sync.MutexSpec

namespace ArielOS.LockSystem

open Machine

variable {sys : LockSystem}

/-- As long as no timer expires for a thread that waits for a mutex, guards mean ownership. -/
theorem guards_exclusive (reached : Reaches step TimersSpareWaiters new sys) :
    (∀ t m, (t, m) ∈ sys.guards → ∃ prio list, sys.mutexes m = .locked t prio list) ∧
    (∀ t u m, (t, m) ∈ sys.guards → (u, m) ∈ sys.guards → t = u) ∧ sys.guards.Nodup := by
  obtain ⟨-, -, W, owned⟩ := reached.invariant Safe new_safe
    fun _ _ _ safe permitted done => step_safe safe permitted done
  refine ⟨?_, ?_, owned.nodup⟩
  · intro t m holds
    exact LockState.owner_eq_some.mp (owned.held holds)
  · intro t u m first second
    exact Option.some.inj ((owned.held first).symm.trans (owned.held second))

section Samples

/-- Thread 0 of priority 1 takes mutex 0 after thread 1 of priority 2 went to sleep until 100. -/
def sleepEvents : List LockEvent :=
  [.op (.create 0 512 1 none), .op (.create 512 512 2 none), .op .startThreading] ++ switch ++
    [.op (.sleepUntil 100 [])] ++ switch ++ [.lock 0, .lockReturn]

def holds (t m : Nat) (sys : LockSystem) : Bool := sys.guards.contains (t, m)

/-- Thread 1 sleeps to the end, waits for the mutex and gets it when thread 0 drops its guard. -/
theorem guards_exclusive_sample : ∃ sys : LockSystem, (1, 0) ∈ sys.guards ∧
    ∃ prio list, sys.mutexes 0 = .locked 1 prio list := by
  have run : ∃ sys, Reaches step TimersSpareWaiters new sys ∧ holds 1 0 sys = true :=
    reaches_of_check (sleepEvents ++ [.op (.wake 1 100)] ++ switch ++ [.lock 0] ++ switch ++
      [.drop 0] ++ switch ++ [.lockReturn]) (by decide +kernel)
  obtain ⟨sys, reached, here⟩ := run
  have here : (1, 0) ∈ sys.guards := by simpa [holds] using here
  exact ⟨sys, here, (guards_exclusive reached).1 1 0 here⟩

/-- Thread 1 is unparked early and waits for the mutex when the timer of its sleep expires: it
    returns from `lock` while thread 0 holds the mutex. -/
theorem two_guards : ∃ sys, Reachable step new sys ∧ (0, 0) ∈ sys.guards ∧ (1, 0) ∈ sys.guards ∧
    (sys.mutexes 0).owner = some 0 := by
  have run : ∃ sys, Reachable step new sys ∧
      (holds 0 0 sys && holds 1 0 sys && (sys.mutexes 0).owner == some 0) = true :=
    reaches_of_check (sleepEvents ++ [.op (.unpark 1)] ++ switch ++ [.lock 0] ++ switch ++
      [.op (.wake 1 100), .op .park] ++ switch ++ [.lockReturn]) (by decide +kernel)
  obtain ⟨sys, reached, here⟩ := run
  simp only [holds, Bool.and_eq_true, List.contains_iff_mem, beq_iff_eq] at here
  exact ⟨sys, reached, here.1.1, here.1.2, here.2⟩

end Samples

end ArielOS.LockSystem
