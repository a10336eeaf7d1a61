import ArielOS.Sync.MutexSpec
import ArielOS.Threads.OpEffects

namespace ArielOS

open Machine Scheduler

variable {cpu : Cpu} {s s' : Scheduler} {t m : Nat} {state : ThreadState}
  {list list' : ThreadList}

theorem SingleCore.running_lt (inv : SingleCore.Invariant s) (ready : s.stateOf t = .running) :
    t < threadCount := by
  obtain ⟨L, coherent, -⟩ := inv
  exact coherent.represents.queues.thread_lt (coherent.queued.mpr ⟨ready, rfl⟩)

namespace LockSystem

variable {sys sys' : LockSystem}

/-- Owners have a guard or are about to get it, and they and the threads inside of `lock` exist. -/
structure Held (sys : LockSystem) : Prop where
  claimed : ∀ {m t}, (sys.mutexes m).owner = some t → (t, m) ∈ sys.guards ∨ sys.locking t = some m
  alive : ∀ {m t}, (t, m) ∈ sys.guards ∨ sys.locking t = some m → sys.scheduler.isValidTid t = true

/-- A thread enters the list of a mutex. The owner inherits its priority if it comes first in the
    list and is above the recorded priority. -/
structure Waited (sys : LockSystem) (m t o q : Nat) (list : ThreadList) (s' : Scheduler) : Prop where
  called : sys.caller SingleCore.cpu = some t
  held : sys.mutexes m = .locked o q list
  stateOf : s'.stateOf = Function.update sys.scheduler.stateOf t .lockBlocked
  inherits :
    (s'.prioOf = sys.scheduler.prioOf ∧
      ∃ a, sys.locking a = some m ∧ sys.scheduler.prioOf t ≤ sys.scheduler.prioOf a) ∨
    ((∀ h, list.head = some h → sys.scheduler.prioOf h < sys.scheduler.prioOf t) ∧
      ((sys.scheduler.prioOf t ≤ q ∧ s'.prioOf = sys.scheduler.prioOf) ∨
        (q < sys.scheduler.prioOf t ∧ s'.prioOf =
          Function.update sys.scheduler.prioOf o (sys.scheduler.prioOf t))))

/-- The owner gets its recorded priority back, and the first waiter the mutex. -/
structure Dropped (sys : LockSystem) (m t q : Nat) (list : ThreadList) (state' : LockState)
    (s' : Scheduler) : Prop where
  called : sys.caller SingleCore.cpu = some t
  holds : (t, m) ∈ sys.guards
  held : sys.mutexes m = .locked t q list
  prioOf : s'.prioOf = Function.update sys.scheduler.prioOf t q
  stateOf : ∀ u, s'.stateOf u = sys.scheduler.stateOf u ∨ s'.stateOf u = .running
  next : ∀ h, state'.owner = some h → list.head = some h ∧ sys.locking h = some m

/-- What an event does to ownership and priorities. -/
inductive Effect (sys : LockSystem) : LockEvent → LockSystem → Prop
  | op (o : Op) (s' : Scheduler) (may : o.blocking = true → sys.mayBlock SingleCore.cpu o = true)
      (ran : o.run SingleCore.cpu sys.scheduler = .ok s') :
      Effect sys (.op o) { sys with scheduler := s' }
  | refused (m : Nat) : Effect sys (.tryLock m) sys
  | locked (m t : Nat) (called : sys.caller SingleCore.cpu = some t)
      (free : sys.mutexes m = .unlocked) : Effect sys (.lock m)
        { sys.setMutex m (.locked t (sys.scheduler.prioOf t) .new) sys.scheduler with
          locking := Function.update sys.locking t (some m) }
  | tryLocked (m t : Nat) (called : sys.caller SingleCore.cpu = some t)
      (free : sys.mutexes m = .unlocked) : Effect sys (.tryLock m)
        { sys.setMutex m (.locked t (sys.scheduler.prioOf t) .new) sys.scheduler with
          guards := (t, m) :: sys.guards }
  | waited (m t o q : Nat) (list list' : ThreadList) (s' : Scheduler)
      (waited : Waited sys m t o q list s') : Effect sys (.lock m)
        { sys.setMutex m (.locked o q list') s' with
          locking := Function.update sys.locking t (some m) }
  | returned (t m : Nat) (executes : sys.scheduler.executing SingleCore.cpu = some t)
      (inside : sys.locking t = some m) : Effect sys .lockReturn
        { sys with
          locking := Function.update sys.locking t none
          guards := (t, m) :: sys.guards }
  | dropped (m t q : Nat) (list : ThreadList) (state' : LockState) (s' : Scheduler)
      (dropped : Dropped sys m t q list state' s') : Effect sys (.drop m)
        { sys.setMutex m state' s' with guards := sys.guards.erase (t, m) }

theorem lock_effect {state' : LockState} (safe : Safe sys) (held : Held sys)
    (called : sys.caller SingleCore.cpu = some t)
    (done : (sys.mutexes m).lock SingleCore.cpu sys.scheduler = .ok (state', s')) :
    Effect sys (.lock m)
      { sys.setMutex m state' s' with locking := Function.update sys.locking t (some m) } := by
  obtain ⟨named, inv, W, owned⟩ := safe
  obtain ⟨own, ready⟩ := SingleCore.executing_running inv (caller_eq_some called).1
  rcases LockState.lock_ok done with ⟨free, rfl, u, own', rfl⟩ |
    ⟨o, q, list, list', s₁, inherit, locked, put, rfl, raised⟩
  · obtain rfl : t = u := Option.some.inj (own.symm.trans own')
    rw [named.current _ t own]
    exact .locked m t called free
  have lists : (sys.mutexes m).waiters = list := by rw [locked]; rfl
  have absent := owned.running_absent ready
  obtain ⟨A, B, split, -, states, -, inherits, above, below⟩ :=
    ThreadList.putCurrent_links (owned.waiters.links m) (owned.waiters.nodup m)
      (named.current _ t own) own (absent m) (lists.symm ▸ put)
  have prios := ThreadList.putCurrent_prioOf put
  have states' : s'.stateOf = Function.update sys.scheduler.stateOf t .lockBlocked := by
    rcases raised with ⟨rfl, -⟩ | ⟨p, -, -, raised⟩
    · exact states
    · rw [(setPriority_keeps raised).1, states]
  refine .waited m t o q list list' s' ⟨called, locked, states', ?_⟩
  cases A with
  | cons a A =>
    refine Or.inl ⟨?_, a, owned.waiting (by simp [split]), above a (by simp)⟩
    rcases raised with ⟨rfl, -⟩ | ⟨p, same, -, -⟩
    · exact prios
    · simp [inherits] at same
  | nil =>
    have first : ∀ h, list.head = some h → sys.scheduler.prioOf h < sys.scheduler.prioOf t := by
      intro h front
      have links := owned.waiters.links m
      rw [lists, split, List.nil_append] at links
      cases B with
      | nil => rw [(ThreadList.links_nil links).mpr rfl] at front; cases front
      | cons b B =>
        obtain rfl : b = h := Option.some.inj (links.1.symm.trans front)
        exact below b rfl
    refine Or.inr ⟨first, ?_⟩
    rw [if_pos rfl] at inherits
    rcases raised with ⟨rfl, lower⟩ | ⟨p, same, higher, raised⟩
    · exact Or.inl ⟨lower _ inherits, prios⟩
    · rw [inherits, Option.some.injEq] at same
      subst same
      have valid : s₁.isValidTid o = true := by
        have before := held.alive (held.claimed (by rw [locked]; rfl) : _ ∨ sys.locking o = some m)
        obtain ⟨bound, known⟩ := isValidTid_iff.mp before
        refine isValidTid_iff.mpr ⟨bound, ?_⟩
        rw [states]
        by_cases same : o = t
        · simp [same]
        · rwa [Function.update_of_ne same]
      exact Or.inr ⟨higher, by rw [setPriority_prioOf valid raised, prios]⟩

theorem drop_effect {state' : LockState} (safe : Safe sys) (held : Held sys)
    (called : sys.caller SingleCore.cpu = some t) (holds : (t, m) ∈ sys.guards)
    (done : (sys.mutexes m).release SingleCore.cpu sys.scheduler = .ok (state', s')) :
    Effect sys (.drop m)
      { sys.setMutex m state' s' with guards := sys.guards.erase (t, m) } := by
  obtain ⟨named, inv, W, owned⟩ := safe
  have owns := owned.held holds
  obtain ⟨q, list, locked⟩ := LockState.owner_eq_some.mp owns
  have lists : (sys.mutexes m).waiters = list := by rw [locked]; rfl
  rw [locked] at done
  obtain ⟨s₁, list', popped, reset, took, outcome⟩ := LockState.release_ok done
  have prios : s'.prioOf = Function.update sys.scheduler.prioOf t q := by
    rw [ThreadList.pop_prioOf took]
    exact setPriority_prioOf (held.alive (Or.inl holds)) reset
  have states₁ := (setPriority_keeps reset).1
  refine .dropped m t q list state' s' ⟨called, holds, locked, prios, ?_, ?_⟩
  · intro u
    rw [← states₁]
    rcases ThreadList.pop_ok took with ⟨-, -, rfl, -⟩ | ⟨h, old, -, -, -, set⟩
    · exact Or.inl rfl
    · exact (setState_effect (t := u) set).imp_right And.left
  · intro h owner
    rcases ThreadList.pop_ok took with ⟨-, -, -, rfl⟩ | ⟨h', old, first, -, rfl, -⟩
    · rcases outcome with ⟨-, rfl⟩ | ⟨h', old, absurd, -⟩
      · cases owner
      · cases absurd
    · rcases outcome with ⟨absurd, -⟩ | ⟨_, _, same, rfl⟩
      · cases absurd
      · cases same
        cases owner
        refine ⟨first, owned.waiting (owned.waiters.head_mem ?_)⟩
        rw [lists]
        exact first

theorem step_effect {e : LockEvent} (safe : Safe sys) (held : Held sys) (done : step e sys = .ok sys') :
    Effect sys e sys' := by
  cases e with
  | op o =>
    simp only [step] at done
    split at done
    · cases done
    · rename_i guard
      obtain ⟨s', ran, rest⟩ := bind_ok_iff.mp done
      cases rest
      refine .op o s' (fun blocks => ?_) ran
      by_contra refused
      exact guard ⟨blocks, refused⟩
  | lock m =>
    simp only [step] at done
    split at done
    · cases done
    · rename_i t called
      obtain ⟨⟨state', s'⟩, locked, rest⟩ := bind_ok_iff.mp done
      cases rest
      exact lock_effect safe held called locked
  | lockReturn =>
    simp only [step] at done
    split at done
    · cases done
    · rename_i t executes
      split at done
      · cases done
      · rename_i m inside
        cases done
        exact .returned t m executes inside
  | tryLock m =>
    simp only [step] at done
    split at done
    · cases done
    · rename_i t called
      obtain ⟨⟨state', acquired⟩, tried, rest⟩ := bind_ok_iff.mp done
      cases rest
      obtain ⟨named, inv, -⟩ := safe
      obtain ⟨own, -⟩ := SingleCore.executing_running inv (caller_eq_some called).1
      rcases LockState.tryLock_ok tried with ⟨free, rfl, u, own', rfl⟩ | ⟨rfl, rfl⟩
      · obtain rfl : t = u := Option.some.inj (own.symm.trans own')
        rw [named.current _ t own]
        exact .tryLocked m t called free
      · simp only [setMutex, Function.update_eq_self, Bool.false_eq_true, ↓reduceIte]
        exact .refused m
  | drop m =>
    simp only [step] at done
    split at done
    · cases done
    · rename_i t called
      split at done
      · rename_i holds
        obtain ⟨⟨state', s'⟩, released, rest⟩ := bind_ok_iff.mp done
        cases rest
        exact drop_effect safe held called holds released
      · cases done

end LockSystem

end ArielOS
