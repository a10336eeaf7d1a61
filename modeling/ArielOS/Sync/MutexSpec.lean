import ArielOS.Sync.Mutex
import ArielOS.Threads.SingleCore
import ArielOS.Threads.Waiters

namespace ArielOS

open Machine Scheduler

variable {s s' : Scheduler} {t m : Nat} {state state' : LockState}

namespace LockState

variable {cpu : Cpu}

theorem owner_eq_some : state.owner = some t ↔ ∃ prio list, state = .locked t prio list := by
  cases state with
  | unlocked => simp [owner]
  | locked o prio list => simp [owner]

theorem lockedWithCurrent_ok (done : lockedWithCurrent cpu s = .ok state) :
    ∃ t, s.currentTid cpu = some t ∧ state = .locked (s.tidOf t) (s.prioOf t) .new := by
  obtain ⟨thread, read, rest⟩ := bind_ok_iff.mp done
  obtain ⟨t, own, rfl⟩ := expectCurrent_ok read
  cases rest
  exact ⟨t, own, rfl⟩

/-- `lock` either takes the mutex or puts the current thread into its list. -/
theorem lock_ok (done : state.lock cpu s = .ok (state', s')) :
    (state = .unlocked ∧ s' = s ∧ ∃ t, s.currentTid cpu = some t ∧
      state' = .locked (s.tidOf t) (s.prioOf t) .new) ∨
    ∃ owner prio list list' s₁ inherit, state = .locked owner prio list ∧
      list.putCurrent cpu s .lockBlocked = .ok (list', s₁, inherit) ∧
      state' = .locked owner prio list' ∧
      ((s' = s₁ ∧ ∀ p, inherit = some p → p ≤ prio) ∨ ∃ raised, inherit = some raised ∧
        prio < raised ∧ s₁.setPriority cpu owner raised = .ok s') := by
  cases state with
  | unlocked =>
    obtain ⟨locked, taken, rest⟩ := bind_ok_iff.mp done
    cases rest
    obtain ⟨t, own, rfl⟩ := lockedWithCurrent_ok taken
    exact Or.inl ⟨rfl, rfl, t, own, rfl⟩
  | locked owner prio list =>
    obtain ⟨⟨list', s₁, inherit⟩, put, rest⟩ := bind_ok_iff.mp done
    obtain ⟨s₂, raised, rest⟩ := bind_ok_iff.mp rest
    cases rest
    refine Or.inr ⟨owner, prio, list, list', s₁, inherit, rfl, put, rfl, ?_⟩
    cases inherit with
    | none =>
      cases raised
      exact Or.inl ⟨rfl, fun p same => by cases same⟩
    | some waiterPrio =>
      simp only [inheritPrio] at raised
      split at raised
      · rename_i higher
        exact Or.inr ⟨waiterPrio, rfl, higher, raised⟩
      · rename_i lower
        cases raised
        exact Or.inl ⟨rfl, fun p same => Option.some.inj same ▸ Nat.not_lt.mp lower⟩

theorem tryLock_ok {acquired : Bool} (done : state.tryLock cpu s = .ok (state', acquired)) :
    (state = .unlocked ∧ acquired = true ∧ ∃ t, s.currentTid cpu = some t ∧
      state' = .locked (s.tidOf t) (s.prioOf t) .new) ∨
    (acquired = false ∧ state' = state) := by
  cases state with
  | unlocked =>
    obtain ⟨locked, taken, rest⟩ := bind_ok_iff.mp done
    cases rest
    obtain ⟨t, own, rfl⟩ := lockedWithCurrent_ok taken
    exact Or.inl ⟨rfl, rfl, t, own, rfl⟩
  | locked owner prio list =>
    cases done
    exact Or.inr ⟨rfl, rfl⟩

/-- `release` hands the mutex to the first waiter, or unlocks it. -/
theorem release_ok {owner prio : Nat} {list : ThreadList}
    (done : (locked owner prio list).release cpu s = .ok (state', s')) :
    ∃ s₁ list' popped, s.setPriority cpu owner prio = .ok s₁ ∧
      list.pop cpu s₁ = .ok (list', s', popped) ∧
      ((popped = none ∧ state' = .unlocked) ∨
        ∃ h old, popped = some (h, old) ∧ state' = .locked h (s'.prioOf h) list') := by
  obtain ⟨s₁, reset, rest⟩ := bind_ok_iff.mp done
  obtain ⟨⟨list', s₂, popped⟩, took, rest⟩ := bind_ok_iff.mp rest
  cases popped with
  | none =>
    cases rest
    exact ⟨s₁, list', none, reset, took, Or.inl ⟨rfl, rfl⟩⟩
  | some head =>
    obtain ⟨h, old⟩ := head
    obtain ⟨thread, read, rest⟩ := bind_ok_iff.mp rest
    obtain ⟨-, rfl⟩ := getUnchecked_ok.mp read
    cases rest
    exact ⟨s₁, list', _, reset, took, Or.inr ⟨h, old, rfl, rfl⟩⟩

end LockState

namespace LockSystem

variable {sys sys' : LockSystem} {W : Nat → List Nat}

/-- Threads inside of `lock` wait in the list of the mutex or have been given the mutex, and a
    guard is held only by the owner. -/
structure Owned (sys : LockSystem) (W : Nat → List Nat) : Prop where
  waiters : Waiters (fun _ => .lockBlocked) (fun m => (sys.mutexes m).waiters) W sys.scheduler
  waiting : ∀ {m t}, t ∈ W m → sys.locking t = some m
  acquired : ∀ {m t}, sys.locking t = some m → t ∉ W m →
    (sys.mutexes m).owner = some t ∧ (t, m) ∉ sys.guards
  held : ∀ {m t}, (t, m) ∈ sys.guards → (sys.mutexes m).owner = some t
  nodup : sys.guards.Nodup

/-- The invariant of the runs. -/
def Safe (sys : LockSystem) : Prop :=
  sys.scheduler.Named (fun _ => False) ∧ SingleCore.Invariant sys.scheduler ∧ ∃ W, Owned sys W

/-- The runs in which an expired timer never finds its thread blocked on a mutex. -/
def TimersSpareWaiters (e : LockEvent) (sys : LockSystem) : Prop :=
  match e with
  | .op o => o.Permitted SingleCore.cpu (fun s t => s.stateOf t ≠ .lockBlocked) (fun _ _ _ => True)
      sys.scheduler
  | _ => True

theorem new_safe : Safe new := by
  refine ⟨Named.new _, SingleCore.invariant_new, fun _ => [], ⟨?_, ?_, ?_, ?_⟩, ?_, ?_, ?_, ?_⟩
  · exact fun m => rfl
  · intro m t member
    cases member
  · exact fun m => List.nodup_nil
  · intro m n t member
    cases member
  · intro m t member
    cases member
  · intro m t inside
    cases inside
  · intro m t member
    cases member
  · exact List.nodup_nil

namespace Owned

theorem running_absent (owned : Owned sys W) (ready : sys.scheduler.stateOf t = .running) (m : Nat) :
    t ∉ W m := by
  intro member
  rw [owned.waiters.placed member] at ready
  cases ready

theorem heads (owned : Owned sys W) (named : sys.scheduler.Named fun _ => False) (m : Nat) :
    ∀ h, (sys.mutexes m).waiters.head = some h → sys.scheduler.tidOf h = h := by
  intro h first
  exact named.created h (by simp [owned.waiters.placed (owned.waiters.head_mem first)])

/-- Nobody waits for, owns or is being given a mutex that is unlocked. -/
theorem unlocked_free (owned : Owned sys W) (free : sys.mutexes m = .unlocked) :
    W m = [] ∧ (∀ t, sys.locking t ≠ some m) ∧ ∀ t, (t, m) ∉ sys.guards := by
  have links := owned.waiters.links m
  rw [free] at links
  have empty : W m = [] := (ThreadList.links_nil links).mp rfl
  refine ⟨empty, ?_, ?_⟩
  · intro t inside
    have ⟨owner, _⟩ := owned.acquired inside (by simp [empty])
    simp [free, LockState.owner] at owner
  · intro t holds
    have owner := owned.held holds
    simp [free, LockState.owner] at owner

/-- A mutex that nobody has is taken with an empty list. -/
theorem take_waiters (owned : Owned sys W) (free : sys.mutexes m = .unlocked) (o p : Nat) :
    Waiters (fun _ => .lockBlocked)
      (fun n => (Function.update sys.mutexes m (.locked o p .new) n).waiters) W sys.scheduler := by
  have same : (fun n => (Function.update sys.mutexes m (.locked o p .new) n).waiters) =
      fun n => (sys.mutexes n).waiters := by
    funext n
    by_cases here : n = m
    · subst here
      rw [Function.update_self, free]
      rfl
    · rw [Function.update_of_ne here]
  rw [same]
  exact owned.waiters

end Owned

theorem waiters_locked (mutexes : Nat → LockState) (m o p : Nat) (list : ThreadList) :
    (fun n => (Function.update mutexes m (.locked o p list) n).waiters) =
      Function.update (fun n => (mutexes n).waiters) m list := by
  funext n
  by_cases here : n = m
  · subst here
    simp [LockState.waiters]
  · simp [here]

theorem caller_eq_some (called : sys.caller SingleCore.cpu = some t) :
    sys.scheduler.executing SingleCore.cpu = some t ∧ sys.locking t = none := by
  obtain ⟨executes, outside⟩ := Option.filter_eq_some_iff.mp called
  exact ⟨executes, by simpa using outside⟩

theorem op_safe {o : Op} (safe : Safe sys)
    (permitted : o.Permitted SingleCore.cpu (fun s t => s.stateOf t ≠ .lockBlocked)
      (fun _ _ _ => True) sys.scheduler)
    (may : o.blocking = true → sys.mayBlock SingleCore.cpu o = true)
    (done : o.run SingleCore.cpu sys.scheduler = .ok s') : Safe { sys with scheduler := s' } := by
  obtain ⟨named, inv, W, owned⟩ := safe
  have mayStop : o.blocking = true → ∀ t, sys.scheduler.currentTid SingleCore.cpu = some t →
      ∀ m, t ∉ W m := by
    intro blocks t own
    have allowed := may blocks
    unfold mayBlock at allowed
    cases called : sys.caller SingleCore.cpu with
    | none => simp [called] at allowed
    | some u =>
      obtain ⟨own', ready⟩ := SingleCore.executing_running inv (caller_eq_some called).1
      obtain rfl : t = u := Option.some.inj (own.symm.trans own')
      exact owned.running_absent ready
  have kept : Keeps SingleCore.cpu (fun _ => False) (fun s t => s.stateOf t ≠ .lockBlocked)
      (fun _ _ _ => True) (fun t => ∀ m, t ∉ W m) True (fun s => SingleCore.Invariant s ∧
        Waiters (fun _ => .lockBlocked) (fun m => (sys.mutexes m).waiters) W s) :=
    Waiters.keeps (· = .lockBlocked) (SingleCore.keeps _) (fun _ => rfl) (by simp)
  obtain ⟨named', inv', waiters'⟩ :=
    kept.run named ⟨inv, owned.waiters⟩ permitted mayStop (fun _ => trivial) done
  exact ⟨named', inv', W, waiters', owned.waiting, owned.acquired, owned.held, owned.nodup⟩

/-- An unlocked mutex becomes the current thread's. -/
theorem Owned.take {locking : Nat → Option Nat} {guards : List (Nat × Nat)} {p : Nat}
    (owned : Owned sys W) (free : sys.mutexes m = .unlocked)
    (lockings : ∀ n u, locking u = some n → sys.locking u = some n ∨ (u = t ∧ n = m))
    (stays : ∀ n u, u ∈ W n → locking u = some n)
    (fresh : locking t = some m → (t, m) ∉ guards)
    (grants : ∀ u n, (u, n) ∈ guards → (u, n) ∈ sys.guards ∨ (u = t ∧ n = m))
    (nodup : guards.Nodup) :
    Owned { sys.setMutex m (.locked t p .new) sys.scheduler with locking, guards } W where
  waiters := owned.take_waiters free t p
  waiting := fun member => stays _ _ member
  acquired := by
    intro n u inside absent
    by_cases same : n = m
    · subst same
      rcases lockings n u inside with before | ⟨rfl, -⟩
      · exact absurd before ((owned.unlocked_free free).2.1 u)
      · exact ⟨by simp [setMutex, LockState.owner], fresh inside⟩
    · rcases lockings n u inside with before | ⟨-, here⟩
      · obtain ⟨owner, unheld⟩ := owned.acquired before absent
        refine ⟨by simpa [setMutex, same] using owner, fun holds => ?_⟩
        rcases grants u n holds with holds | ⟨-, here⟩
        · exact unheld holds
        · exact same here
      · exact absurd here same
  held := by
    intro n u holds
    by_cases same : n = m
    · subst same
      rcases grants u n holds with before | ⟨rfl, -⟩
      · exact absurd before ((owned.unlocked_free free).2.2 u)
      · simp [setMutex, LockState.owner]
    · rcases grants u n holds with before | ⟨-, here⟩
      · simpa [setMutex, same] using owned.held before
      · exact absurd here same
  nodup := nodup

theorem update_locking_cases {u n : Nat} (inside : Function.update sys.locking t (some m) u = some n) :
    (u = t ∧ n = m) ∨ (u ≠ t ∧ sys.locking u = some n) := by
  by_cases same : u = t
  · rw [same, Function.update_self, Option.some.injEq] at inside
    exact Or.inl ⟨same, inside.symm⟩
  · rw [Function.update_of_ne same] at inside
    exact Or.inr ⟨same, inside⟩

theorem update_locking {u n : Nat} (outside : sys.locking t = none) (inside : sys.locking u = some n) :
    Function.update sys.locking t (some m) u = some n := by
  have other : u ≠ t := fun same => by rw [same, outside] at inside; cases inside
  rw [Function.update_of_ne other, inside]

/-- The current thread joins the waiters of a mutex that is locked. -/
theorem Owned.wait {A B : List Nat} {o p : Nat} {list list' : ThreadList} (owned : Owned sys W)
    (outside : sys.locking t = none) (locked : sys.mutexes m = .locked o p list)
    (split : W m = A ++ B)
    (waiters : Waiters (fun _ => .lockBlocked)
      (Function.update (fun n => (sys.mutexes n).waiters) m list')
      (Function.update W m (A ++ t :: B)) s') :
    Owned { sys.setMutex m (.locked o p list') s' with
      locking := Function.update sys.locking t (some m) } (Function.update W m (A ++ t :: B)) := by
  have member : ∀ u n, u ∈ Function.update W m (A ++ t :: B) n ↔ u ∈ W n ∨ (u = t ∧ n = m) := by
    intro u n
    by_cases same : n = m
    · subst same
      rw [Function.update_self, split]
      simp only [List.mem_append, List.mem_cons, and_true]
      tauto
    · simp [same]
  have owner : ∀ n, (Function.update sys.mutexes m (.locked o p list') n).owner =
      (sys.mutexes n).owner := by
    intro n
    by_cases same : n = m
    · subst same
      simp [locked, LockState.owner]
    · simp [same]
  refine ⟨?_, ?_, ?_, ?_, owned.nodup⟩
  · simpa only [setMutex, waiters_locked] using waiters
  · intro n u here
    rcases (member u n).mp here with before | ⟨rfl, rfl⟩
    · exact update_locking outside (owned.waiting before)
    · simp
  · intro n u inside out
    rcases update_locking_cases inside with here | ⟨-, before⟩
    · exact absurd ((member u n).mpr (Or.inr here)) out
    · obtain ⟨owns, unheld⟩ := owned.acquired before fun here =>
        out ((member u n).mpr (Or.inl here))
      exact ⟨(owner n).trans owns, unheld⟩
  · intro n u holds
    exact (owner n).trans (owned.held holds)

theorem lock_safe (safe : Safe sys) (called : sys.caller SingleCore.cpu = some t)
    (done : (sys.mutexes m).lock SingleCore.cpu sys.scheduler = .ok (state', s')) :
    Safe { sys.setMutex m state' s' with locking := Function.update sys.locking t (some m) } := by
  obtain ⟨named, inv, W, owned⟩ := safe
  obtain ⟨executes, outside⟩ := caller_eq_some called
  obtain ⟨own, ready⟩ := SingleCore.executing_running inv executes
  have absent := owned.running_absent ready
  rcases LockState.lock_ok done with ⟨free, rfl, u, own', rfl⟩ |
    ⟨o, p, list, list', s₁, inherit, locked, put, rfl, raised⟩
  · obtain rfl : t = u := Option.some.inj (own.symm.trans own')
    rw [named.current _ t own]
    refine ⟨named, inv, W, owned.take free ?_ ?_ ?_ ?_ owned.nodup⟩
    · exact fun n u inside => (update_locking_cases inside).symm.imp_left And.right
    · exact fun n u member => update_locking outside (owned.waiting member)
    · exact fun _ => (owned.unlocked_free free).2.2 t
    · exact fun u n holds => Or.inl holds
  · have lists : (sys.mutexes m).waiters = list := by rw [locked]; rfl
    obtain ⟨named₁, inv₁, -⟩ := (SingleCore.keeps fun _ => False).putCurrent
      SingleCore.invariant_link named inv (lists ▸ owned.heads named m) (fun _ _ => trivial)
      (by simp) put
    obtain ⟨A, B, split, waiters⟩ := owned.waiters.put named own absent (lists.symm ▸ put)
    rw [Function.update_eq_self] at waiters
    rcases raised with ⟨rfl, -⟩ | ⟨prio, -, -, raised⟩
    · exact ⟨named₁, inv₁, _, owned.wait outside locked split waiters⟩
    · obtain ⟨states, blocklist⟩ := setPriority_keeps raised
      have waiters' := waiters.congr blocklist fun _ t _ => congrFun states t
      exact ⟨named₁.setPriority raised, SingleCore.invariant_setPriority inv₁ raised, _,
        owned.wait outside locked split waiters'⟩

theorem tryLock_safe {acquired : Bool} (safe : Safe sys)
    (called : sys.caller SingleCore.cpu = some t)
    (done : (sys.mutexes m).tryLock SingleCore.cpu sys.scheduler = .ok (state', acquired)) :
    Safe { sys.setMutex m state' sys.scheduler with
      guards := if acquired then (t, m) :: sys.guards else sys.guards } := by
  obtain ⟨named, inv, W, owned⟩ := safe
  obtain ⟨executes, outside⟩ := caller_eq_some called
  obtain ⟨own, ready⟩ := SingleCore.executing_running inv executes
  rcases LockState.tryLock_ok done with ⟨free, rfl, u, own', rfl⟩ | ⟨rfl, rfl⟩
  · obtain rfl : t = u := Option.some.inj (own.symm.trans own')
    rw [named.current _ t own]
    simp only [↓reduceIte]
    refine ⟨named, inv, W, owned.take free (fun n u inside => Or.inl inside)
      (fun n u member => owned.waiting member) ?_ ?_ ?_⟩
    · intro inside
      have inside : sys.locking t = some m := inside
      rw [outside] at inside
      cases inside
    · intro u n holds
      rcases List.mem_cons.mp holds with same | before
      · cases same
        exact Or.inr ⟨rfl, rfl⟩
      · exact Or.inl before
    · exact List.nodup_cons.mpr ⟨(owned.unlocked_free free).2.2 t, owned.nodup⟩
  · simp only [setMutex, Function.update_eq_self, Bool.false_eq_true, ↓reduceIte]
    exact ⟨named, inv, W, owned⟩

/-- A thread that returns from `lock` has been given the mutex, because it is ready. -/
theorem lockReturn_safe (safe : Safe sys)
    (executes : sys.scheduler.executing SingleCore.cpu = some t)
    (inside : sys.locking t = some m) :
    Safe { sys with
      locking := Function.update sys.locking t none
      guards := (t, m) :: sys.guards } := by
  obtain ⟨named, inv, W, owned⟩ := safe
  obtain ⟨own, ready⟩ := SingleCore.executing_running inv executes
  have absent := owned.running_absent ready
  obtain ⟨owner, unheld⟩ := owned.acquired inside (absent m)
  refine ⟨named, inv, W, owned.waiters, ?_, ?_, ?_, List.nodup_cons.mpr ⟨unheld, owned.nodup⟩⟩
  · intro n u member
    have other : u ≠ t := fun same => absent n (same ▸ member)
    dsimp only
    rw [Function.update_of_ne other]
    exact owned.waiting member
  · intro n u inside out
    dsimp only at inside
    by_cases same : u = t
    · rw [same, Function.update_self] at inside
      cases inside
    · rw [Function.update_of_ne same] at inside
      obtain ⟨owns, unheld⟩ := owned.acquired inside out
      refine ⟨owns, fun holds => ?_⟩
      rcases List.mem_cons.mp holds with here | before
      · cases here
        exact same rfl
      · exact unheld before
  · intro n u holds
    rcases List.mem_cons.mp holds with here | before
    · cases here
      exact owner
    · exact owned.held before

section Drop

variable {u n : Nat}

theorem mem_guards_erase (other : n ≠ m) :
    (u, n) ∈ sys.guards.erase (t, m) ↔ (u, n) ∈ sys.guards :=
  List.mem_erase_of_ne fun same => other (congrArg Prod.snd same)

/-- No guard of a mutex is left when its guard is dropped. -/
theorem Owned.unheld (owned : Owned sys W) (holds : (t, m) ∈ sys.guards) :
    (u, m) ∉ sys.guards.erase (t, m) := by
  intro member
  have same := (owned.held (List.mem_of_mem_erase member)).symm.trans (owned.held holds)
  cases same
  exact owned.nodup.not_mem_erase member

/-- While there is a guard of a mutex, everybody who is inside of its `lock` waits. -/
theorem Owned.waits (owned : Owned sys W) (holds : (t, m) ∈ sys.guards)
    (inside : sys.locking u = some m) : u ∈ W m := by
  by_contra out
  obtain ⟨owner, free⟩ := owned.acquired inside out
  have same := owner.symm.trans (owned.held holds)
  cases same
  exact free holds

/-- A mutex for which nobody waits becomes unlocked. -/
theorem Owned.unlock (owned : Owned sys W) (holds : (t, m) ∈ sys.guards) (empty : W m = [])
    (waiters : Waiters (fun _ => .lockBlocked) (fun n => (sys.mutexes n).waiters) W s') :
    Owned { sys.setMutex m .unlocked s' with guards := sys.guards.erase (t, m) } W := by
  have lists : (fun n => (Function.update sys.mutexes m .unlocked n).waiters) =
      fun n => (sys.mutexes n).waiters := by
    funext n
    by_cases here : n = m
    · subst here
      have none := (ThreadList.links_nil (waiters.links n)).mpr empty
      rw [Function.update_self]
      cases front : (sys.mutexes n).waiters
      rw [front] at none
      cases none
      rfl
    · rw [Function.update_of_ne here]
  refine ⟨?_, owned.waiting, ?_, ?_, owned.nodup.erase _⟩
  · simpa only [setMutex, lists] using waiters
  · intro n u inside out
    have other : n ≠ m := fun same => out (same ▸ owned.waits holds (same ▸ inside))
    obtain ⟨owner, free⟩ := owned.acquired inside out
    exact ⟨by simpa [setMutex, other] using owner, fun member => free ((mem_guards_erase other).mp member)⟩
  · intro n u member
    have other : n ≠ m := fun same => owned.unheld holds (same ▸ member)
    simpa [setMutex, other] using owned.held ((mem_guards_erase other).mp member)

/-- The first waiter is given the mutex. -/
theorem Owned.handOver {h p : Nat} {rest : List Nat} {list' : ThreadList} (owned : Owned sys W)
    (holds : (t, m) ∈ sys.guards) (front : W m = h :: rest)
    (waiters : Waiters (fun _ => .lockBlocked)
      (Function.update (fun n => (sys.mutexes n).waiters) m list') (Function.update W m rest) s') :
    Owned { sys.setMutex m (.locked h p list') s' with guards := sys.guards.erase (t, m) }
      (Function.update W m rest) := by
  have left : ∀ u n, u ∈ Function.update W m rest n → u ∈ W n := by
    intro u n here
    by_cases same : n = m
    · subst same
      rw [Function.update_self] at here
      simp [front, here]
    · rwa [Function.update_of_ne same] at here
  refine ⟨?_, ?_, ?_, ?_, owned.nodup.erase _⟩
  · simpa only [setMutex, waiters_locked] using waiters
  · exact fun here => owned.waiting (left _ _ here)
  · intro n u inside out
    by_cases same : n = m
    · subst same
      have member := owned.waits holds inside
      rw [Function.update_self] at out
      rw [front, List.mem_cons] at member
      obtain rfl := member.resolve_right out
      exact ⟨by simp [setMutex, LockState.owner], owned.unheld holds⟩
    · rw [Function.update_of_ne same] at out
      obtain ⟨owner, free⟩ := owned.acquired inside out
      exact ⟨by simpa [setMutex, same] using owner,
        fun member => free ((mem_guards_erase same).mp member)⟩
  · intro n u member
    have other : n ≠ m := fun same => owned.unheld holds (same ▸ member)
    simpa [setMutex, other] using owned.held ((mem_guards_erase other).mp member)

end Drop

theorem drop_safe (safe : Safe sys) (holds : (t, m) ∈ sys.guards)
    (done : (sys.mutexes m).release SingleCore.cpu sys.scheduler = .ok (state', s')) :
    Safe { sys.setMutex m state' s' with guards := sys.guards.erase (t, m) } := by
  obtain ⟨named, inv, W, owned⟩ := safe
  obtain ⟨prio, list, locked⟩ := LockState.owner_eq_some.mp (owned.held holds)
  have lists : (sys.mutexes m).waiters = list := by rw [locked]; rfl
  rw [locked] at done
  obtain ⟨s₁, list', popped, reset, took, outcome⟩ := LockState.release_ok done
  obtain ⟨states, blocklist⟩ := setPriority_keeps reset
  have named₁ := named.setPriority reset
  have inv₁ := SingleCore.invariant_setPriority inv reset
  have waiters₁ : Waiters (fun _ => .lockBlocked) (fun n => (sys.mutexes n).waiters) W s₁ :=
    owned.waiters.congr blocklist fun _ t _ => congrFun states t
  have known : ∀ h, list.head = some h → s₁.tidOf h = h := by
    intro h first
    rw [setPriority_tidOf reset]
    exact owned.heads named m h (lists ▸ first)
  obtain ⟨named', inv', -⟩ := (SingleCore.keeps fun _ => False).pop SingleCore.invariant_link
    (fun _ => trivial) named₁ inv₁ known (fun _ _ => trivial) took
  rcases waiters₁.pop (lists.symm ▸ took) with ⟨empty, -, rfl, rfl⟩ |
    ⟨h, rest, front, rfl, -, waiters'⟩
  · rcases outcome with ⟨-, rfl⟩ | ⟨h, old, absurd, -⟩
    · exact ⟨named', inv', W, owned.unlock holds empty waiters₁⟩
    · cases absurd
  · rcases outcome with ⟨absurd, -⟩ | ⟨_, _, same, rfl⟩
    · cases absurd
    · cases same
      exact ⟨named', inv', _, owned.handOver holds front waiters'⟩

theorem step_safe {e : LockEvent} (safe : Safe sys) (permitted : TimersSpareWaiters e sys)
    (done : step e sys = .ok sys') : Safe sys' := by
  cases e with
  | op o =>
    simp only [step] at done
    split at done
    · cases done
    · rename_i guard
      obtain ⟨s', ran, rest⟩ := bind_ok_iff.mp done
      cases rest
      refine op_safe safe permitted (fun blocks => ?_) ran
      by_contra refused
      exact guard ⟨blocks, refused⟩
  | lock m =>
    simp only [step] at done
    split at done
    · cases done
    · rename_i t called
      obtain ⟨⟨state', s'⟩, locked, rest⟩ := bind_ok_iff.mp done
      cases rest
      exact lock_safe safe called locked
  | lockReturn =>
    simp only [step] at done
    split at done
    · cases done
    · rename_i t executes
      split at done
      · cases done
      · rename_i m inside
        cases done
        exact lockReturn_safe safe executes inside
  | tryLock m =>
    simp only [step] at done
    split at done
    · cases done
    · rename_i t called
      obtain ⟨⟨state', acquired⟩, tried, rest⟩ := bind_ok_iff.mp done
      cases rest
      exact tryLock_safe safe called tried
  | drop m =>
    simp only [step] at done
    split at done
    · cases done
    · rename_i t called
      split at done
      · rename_i holds
        obtain ⟨⟨state', s'⟩, released, rest⟩ := bind_ok_iff.mp done
        cases rest
        exact drop_safe safe holds released
      · cases done

instance (e : LockEvent) (sys : LockSystem) : Decidable (TimersSpareWaiters e sys) :=
  match e with
  | .op o => inferInstanceAs (Decidable (o.Permitted SingleCore.cpu
      (fun s t => s.stateOf t ≠ .lockBlocked) (fun _ _ _ => True) sys.scheduler))
  | .lock _ | .lockReturn | .tryLock _ | .drop _ => isTrue trivial

/-- PendSV is served, and the scheduler switches. -/
def switch : List LockEvent := [.op .enterPendsv, .op .sched]

end LockSystem

end ArielOS
