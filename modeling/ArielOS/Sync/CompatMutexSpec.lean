import ArielOS.Sync.CompatMutex
import ArielOS.Sync.LockEffects
import ArielOS.Sync.SemaphoreSpec
import ArielOS.Threads.Moves

namespace ArielOS

open Machine Scheduler

namespace MutexInner

variable {sem inner : MutexInner} {s : Scheduler} {p : ThreadPtr} {taken : Bool}
  {raised : Option (ThreadPtr × Nat)}

/-- What `try_take` can do. -/
inductive Attempt (sem : MutexInner) (s : Scheduler) (p : ThreadPtr) :
    MutexInner → Bool → Option (ThreadPtr × Nat) → Prop
  | first (prio : Nat) (free : sem.owner = none) (own : taskPriority s p = .ok prio) :
      Attempt sem s p { sem.lockAgain with owner := some p, originalPriority := prio } true none
  | again (owns : sem.owner = some p) (recursive : sem.recursive = true) :
      Attempt sem s p sem.lockAgain true none
  | refused (owner : ThreadPtr) (raised : Option (ThreadPtr × Nat)) (owned : sem.owner = some owner)
      (target : ∀ q prio, raised = some (q, prio) → q = owner) : Attempt sem s p sem false raised

theorem tryTake_ok (done : sem.tryTake s p = .ok (inner, taken, raised)) :
    Attempt sem s p inner taken raised := by
  unfold tryTake at done
  cases owned : sem.owner with
  | none =>
    simp only [owned] at done
    obtain ⟨prio, own, rest⟩ := bind_ok_iff.mp done
    cases rest
    exact .first prio owned own
  | some owner =>
    simp only [owned] at done
    split at done
    · rename_i again
      cases done
      exact .again (owned.trans (congrArg some again.1)) again.2
    · obtain ⟨currentPriority, -, done⟩ := bind_ok_iff.mp done
      obtain ⟨ownerPriority, -, rest⟩ := bind_ok_iff.mp done
      cases rest
      refine .refused owner _ owned fun q prio set => ?_
      split at set
      · cases set
        rfl
      · cases set

end MutexInner

namespace CompatMutexes

variable {sys sys' : CompatMutexes} {recursive : Nat → Bool} {fromMicros : Nat → Nat} {m t : Nat}
  {p : ThreadPtr} {taken : Bool} {inner : MutexInner} {expired : List (Nat × Nat)}
  {system system' : ObjectSystem Unit}

theorem take_ok (done : sys.take t m = .ok (sys', taken)) :
    ∃ inner raised system, (sys.inner m).Attempt sys.system.scheduler (threadIdToPtr t) inner taken
        raised ∧
      setTaskPriority sys.system raised = .ok system ∧
      sys' = if taken then { sys with system }.took m (threadIdToPtr t) inner
        else { sys with system } := by
  obtain ⟨⟨inner, taken', raised⟩, tried, done⟩ := bind_ok_iff.mp done
  obtain ⟨system, set, rest⟩ := bind_ok_iff.mp done
  cases rest
  exact ⟨inner, raised, system, MutexInner.tryTake_ok tried, set, rfl⟩

theorem gave_ok (done : sys.gave m p inner = .ok sys') : ∃ system,
    ObjectSystem.step (.call m .notifyOne) sys.system = .ok system ∧ sys' = { sys with
      system
      inner := Function.update sys.inner m inner
      held := Function.update sys.held p ((sys.held p).erase m)
      notified := Function.update sys.notified m
        ((sys.system.lists m).head.toList ++ sys.notified m) } := by
  obtain ⟨system, stepped, rest⟩ := bind_ok_iff.mp done
  cases rest
  exact ⟨system, stepped, rfl⟩

theorem unlock_cases (sem : MutexInner) (p : ThreadPtr) :
    (sem.unlock p).2 = false ∨ (sem.owner = some p ∧ 0 < sem.lockCounter ∧ sem.unlock p =
      ({ sem with
        lockCounter := sem.lockCounter - 1
        owner := if sem.lockCounter - 1 = 0 then none else sem.owner }, true)) := by
  unfold MutexInner.unlock
  split
  · rename_i owned
    exact Or.inr ⟨owned.1, owned.2, rfl⟩
  · exact Or.inl rfl

/-- A mutex is given: its owner or the interrupt does so, and may set its own priority. -/
theorem give_cases (done : sys.give t m = .ok sys') : sys' = sys ∨
    ∃ system, (sys.inner m).owner = some (threadIdToPtr t) ∧ 0 < (sys.inner m).lockCounter ∧
      setTaskPriority sys.system (if (sys.inner m).lockCounter - 1 = 0 then
        some (threadIdToPtr t, (sys.inner m).originalPriority) else none) = .ok system ∧
      { sys with system }.gave m (threadIdToPtr t)
        ((sys.inner m).unlock (threadIdToPtr t)).1 = .ok sys' := by
  unfold give MutexInner.tryGive at done
  rcases unlock_cases (sys.inner m) (threadIdToPtr t) with refused | ⟨owns, counted, unlocked⟩
  · simp only [refused] at done
    cases done
    exact Or.inl rfl
  · simp only [unlocked] at done
    obtain ⟨system, set, gave⟩ := bind_ok_iff.mp done
    refine Or.inr ⟨system, owns, counted, ?_, ?_⟩
    · rw [← set]
      congr 1
      by_cases last : (sys.inner m).lockCounter - 1 = 0
      · simp [last]
      · simp [last, owns]
    · rw [unlocked]
      exact gave

theorem giveFromIsr_cases (done : sys.giveFromIsr m = .ok sys') : sys' = sys ∨
    ((sys.inner m).owner = some danglingPtr ∧ 0 < (sys.inner m).lockCounter ∧
      sys.gave m danglingPtr ((sys.inner m).unlock danglingPtr).1 = .ok sys') := by
  unfold giveFromIsr MutexInner.tryGiveFromIsr at done
  rcases unlock_cases (sys.inner m) danglingPtr with refused | ⟨owns, counted, unlocked⟩
  · split at done
    · rename_i same
      rw [same] at refused
      cases refused
    · cases done
      exact Or.inl rfl
  · rw [unlocked] at done ⊢
    exact Or.inr ⟨owns, counted, done⟩

theorem takeFromIsr_cases (sys : CompatMutexes) (m : Nat) : sys.takeFromIsr m = sys ∨
    ((sys.inner m).owner = none ∧ sys.takeFromIsr m = sys.took m danglingPtr
      { (sys.inner m).lockAgain with owner := some danglingPtr }) ∨
    ((sys.inner m).owner = some danglingPtr ∧ (sys.inner m).recursive = true ∧
      sys.takeFromIsr m = sys.took m danglingPtr (sys.inner m).lockAgain) := by
  unfold takeFromIsr MutexInner.tryTakeFromIsr
  cases owned : (sys.inner m).owner with
  | none => exact Or.inr (Or.inl ⟨rfl, rfl⟩)
  | some owner =>
    dsimp only
    by_cases again : owner = danglingPtr ∧ (sys.inner m).recursive = true
    · rw [if_pos again]
      exact Or.inr (Or.inr ⟨congrArg some again.1, again.2, rfl⟩)
    · rw [if_neg again]
      exact Or.inl rfl

theorem taker_ok {call : Option TakeCall} (here : sys.taker = some (t, call)) :
    sys.system.scheduler.executing SingleCore.cpu = some t ∧ sys.calls t = call := by
  obtain ⟨u, executes, same⟩ := Option.map_eq_some_iff.mp here
  cases same
  exact ⟨executes, rfl⟩

/-- What an event does. -/
inductive Effect (fromMicros : Nat → Nat) (sys : CompatMutexes) :
    SemaphoreEvent → CompatMutexes → Prop
  | op {o system} (free : o.blocking = true → ∀ t,
        sys.system.scheduler.executing SingleCore.cpu = some t → sys.calls t = none)
      (ran : ObjectSystem.step (.op o) sys.system = .ok system) :
      Effect fromMicros sys (.op o) { sys with system }
  | start {self deadline t} (executes : sys.system.scheduler.executing SingleCore.cpu = some t) :
      Effect fromMicros sys (.takeWithDeadline self deadline)
        (sys.setCall t (some ⟨self, deadline.getD (2 ^ 64 - 1), .check, 0⟩))
  | check {expired t call sys₁ taken system}
      (executes : sys.system.scheduler.executing SingleCore.cpu = some t)
      (here : sys.calls t = some call) (took : sys.take t call.semaphore = .ok (sys₁, taken))
      (stepped : ObjectSystem.step (.call call.semaphore (.waitUntilWithCheck taken
        (fromMicros call.deadline) expired)) sys₁.system = .ok system) :
      Effect fromMicros sys (.check expired) ({ sys₁ with system }.checked t call
        (if (system.pause t).isTimedWait then .waiting else .compare) taken)
  | recheck {expired t call sys₁ taken system}
      (executes : sys.system.scheduler.executing SingleCore.cpu = some t)
      (here : sys.calls t = some call) (waiting : call.phase = .waiting)
      (stepped : ObjectSystem.step (.resume expired) sys.system = .ok system)
      (took : take { sys with
        system
        notified := Function.update sys.notified call.semaphore
          ((sys.notified call.semaphore).erase t) } t call.semaphore = .ok (sys₁, taken)) :
      Effect fromMicros sys (.recheck expired) (sys₁.checked t call .compare taken)
  | expires {now t call} (executes : sys.system.scheduler.executing SingleCore.cpu = some t)
      (here : sys.calls t = some call) : Effect fromMicros sys (.compare now) (sys.finish t call false)
  | again {now t call} (executes : sys.system.scheduler.executing SingleCore.cpu = some t)
      (here : sys.calls t = some call) :
      Effect fromMicros sys (.compare now) (sys.setCall t (some { call with phase := .check }))
  | tryTake {self t sys' taken} (executes : sys.system.scheduler.executing SingleCore.cpu = some t)
      (took : sys.take t self = .ok (sys', taken)) : Effect fromMicros sys (.tryTake self) sys'
  | give {self t sys'} (executes : sys.system.scheduler.executing SingleCore.cpu = some t)
      (gave : sys.give t self = .ok sys') : Effect fromMicros sys (.give self) sys'
  | tryTakeFromIsr (self : Nat) :
      Effect fromMicros sys (.tryTakeFromIsr self) (sys.takeFromIsr self)
  | tryGiveFromIsr {self sys'} (gave : sys.giveFromIsr self = .ok sys') :
      Effect fromMicros sys (.tryGiveFromIsr self) sys'

theorem step_effect {e : SemaphoreEvent} (done : step fromMicros e sys = .ok sys') :
    Effect fromMicros sys e sys' := by
  cases e with
  | op o =>
    simp only [step] at done
    split at done
    · cases done
    · rename_i free
      obtain ⟨system, stepped, rest⟩ := bind_ok_iff.mp done
      cases rest
      refine .op (fun blocking t executes => ?_) stepped
      cases call : sys.calls t with
      | none => rfl
      | some call' =>
        refine absurd ⟨blocking, ?_⟩ free
        have here : sys.taker = some (t, sys.calls t) := congrArg (Option.map _) executes
        rw [here, call]
        rfl
  | takeWithDeadline self deadline =>
    simp only [step] at done
    split at done
    · rename_i t here
      cases done
      exact .start (taker_ok here).1
    · cases done
  | check expired =>
    simp only [step] at done
    split at done
    · rename_i t call here
      split at done
      · obtain ⟨executes, here⟩ := taker_ok here
        obtain ⟨⟨sys₁, taken⟩, took, done⟩ := bind_ok_iff.mp done
        obtain ⟨system, stepped, rest⟩ := bind_ok_iff.mp done
        cases rest
        exact .check executes here took stepped
      · cases done
    · cases done
  | recheck expired =>
    simp only [step] at done
    split at done
    · rename_i t call here
      split at done
      · rename_i waiting
        obtain ⟨executes, here⟩ := taker_ok here
        obtain ⟨system, stepped, done⟩ := bind_ok_iff.mp done
        obtain ⟨⟨sys₁, taken⟩, took, rest⟩ := bind_ok_iff.mp done
        cases rest
        exact .recheck executes here waiting stepped took
      · cases done
    · cases done
  | compare now =>
    simp only [step] at done
    split at done
    · rename_i t call here
      obtain ⟨executes, here⟩ := taker_ok here
      split at done
      · cases done
      · split at done
        · cases done
          exact .expires executes here
        · cases done
          exact .again executes here
    · cases done
  | tryTake self =>
    simp only [step] at done
    split at done
    · rename_i t here
      obtain ⟨⟨sys₁, taken⟩, took, rest⟩ := bind_ok_iff.mp done
      cases rest
      exact .tryTake (taker_ok here).1 took
    · cases done
  | give self =>
    simp only [step] at done
    split at done
    · rename_i t here
      exact .give (taker_ok here).1 done
    · cases done
  | tryTakeFromIsr self =>
    cases done
    exact .tryTakeFromIsr self
  | tryGiveFromIsr self => exact .tryGiveFromIsr done

section Checked

variable {call : TakeCall} {next : TakePhase}

@[simp] theorem checked_system : (sys.checked t call next taken).system = sys.system := by
  cases taken <;> rfl

@[simp] theorem checked_inner : (sys.checked t call next taken).inner = sys.inner := by
  cases taken <;> rfl

@[simp] theorem checked_held : (sys.checked t call next taken).held = sys.held := by
  cases taken <;> rfl

@[simp] theorem checked_notified : (sys.checked t call next taken).notified = sys.notified := by
  cases taken <;> rfl

theorem checked_calls : (sys.checked t call next taken).calls =
    Function.update sys.calls t (if taken then none else some { call with phase := next }) := by
  cases taken <;> rfl

end Checked

section Owners

/-- The mutexes that the tasks took and have not given are those that they own. -/
structure Owned (recursive : Nat → Bool) (inner : Nat → MutexInner) (held : ThreadPtr → List Nat) :
    Prop where
  kind : ∀ m, (inner m).recursive = recursive m
  counted : ∀ m p, (inner m).owner = some p →
    (inner m).lockCounter = (held p).count m ∧ 0 < (inner m).lockCounter
  free : ∀ m, (inner m).owner = none → (inner m).lockCounter = 0
  apart : ∀ m p, (inner m).owner ≠ some p → m ∉ held p
  single : ∀ m, recursive m = false → (inner m).lockCounter ≤ 1

variable {inners : Nat → MutexInner} {held : ThreadPtr → List Nat}

/-- One mutex changes, and what one task holds of it. -/
theorem Owned.change {inner' : MutexInner} {list : List Nat} (owned : Owned recursive inners held)
    (kind : inner'.recursive = (inners m).recursive)
    (owner : (inners m).owner = none ∨ (inners m).owner = some p)
    (owner' : inner'.owner = none ∧ inner'.lockCounter = 0 ∧ m ∉ list ∨
      inner'.owner = some p ∧ inner'.lockCounter = list.count m ∧ 0 < inner'.lockCounter)
    (single : recursive m = false → inner'.lockCounter ≤ 1)
    (others : ∀ n, n ≠ m → list.count n = (held p).count n) :
    Owned recursive (Function.update inners m inner') (Function.update held p list) := by
  have counts : ∀ n q, n ≠ m → (Function.update held p list q).count n = (held q).count n := by
    intro n q other
    by_cases own : q = p
    · rw [own, Function.update_self, others n other]
    · rw [Function.update_of_ne own]
  have members : ∀ n q, n ≠ m → (n ∈ Function.update held p list q ↔ n ∈ held q) := by
    intro n q other
    rw [← List.count_pos_iff, counts n q other, List.count_pos_iff]
  refine ⟨fun n => ?_, fun n q owns => ?_, fun n none => ?_, fun n q other => ?_, fun n plain => ?_⟩
  · by_cases own : n = m
    · rw [own, Function.update_self, kind, owned.kind m]
    · rw [Function.update_of_ne own, owned.kind n]
  · by_cases own : n = m
    · subst own
      rw [Function.update_self] at owns ⊢
      rcases owner' with ⟨none, -⟩ | ⟨some_, counted, positive⟩
      · rw [none] at owns
        cases owns
      · rw [some_] at owns
        cases owns
        rw [Function.update_self]
        exact ⟨counted, positive⟩
    · rw [Function.update_of_ne own] at owns ⊢
      rw [counts n q own]
      exact owned.counted n q owns
  · by_cases own : n = m
    · subst own
      rw [Function.update_self] at none ⊢
      rcases owner' with ⟨-, zero, -⟩ | ⟨some_, -⟩
      · exact zero
      · rw [some_] at none
        cases none
    · rw [Function.update_of_ne own] at none ⊢
      exact owned.free n none
  · by_cases own : n = m
    · subst own
      rw [Function.update_self] at other
      by_cases same : q = p
      · subst same
        rw [Function.update_self]
        rcases owner' with ⟨-, -, absent⟩ | ⟨some_, -⟩
        · exact absent
        · exact absurd some_ other
      · rw [Function.update_of_ne same]
        apply owned.apart
        rcases owner with none | some_
        · rw [none]
          exact nofun
        · rw [some_]
          intro equal
          exact same (Option.some.inj equal).symm
    · rw [Function.update_of_ne own] at other
      rw [members n q own]
      exact owned.apart n q other
  · by_cases own : n = m
    · rw [own, Function.update_self]
      exact single (own ▸ plain)
    · rw [Function.update_of_ne own]
      exact owned.single n plain

theorem Owned.took {inner' : MutexInner} (owned : Owned recursive inners held)
    (room : (inners m).lockCounter + 1 < 2 ^ 32) (kind : inner'.recursive = (inners m).recursive)
    (counter : inner'.lockCounter = ((inners m).lockCounter + 1) % 2 ^ 32)
    (owner' : inner'.owner = some p)
    (owner : (inners m).owner = none ∨ (inners m).owner = some p ∧ (inners m).recursive = true) :
    Owned recursive (Function.update inners m inner') (Function.update held p (m :: held p)) := by
  rw [Nat.mod_eq_of_lt room] at counter
  have counts : (inners m).lockCounter = (held p).count m := by
    rcases owner with none | ⟨some_, -⟩
    · have absent : m ∉ held p := owned.apart m p (by rw [none]; exact nofun)
      rw [owned.free m none, List.count_eq_zero.mpr absent]
    · exact (owned.counted m p some_).1
  refine owned.change kind (owner.imp id And.left) (Or.inr ⟨owner', ?_, by omega⟩) (fun plain => ?_)
    fun n other => List.count_cons_of_ne other.symm
  · rw [List.count_cons_self, counter, counts]
  · rcases owner with none | ⟨-, again⟩
    · rw [counter, owned.free m none]
    · rw [owned.kind m, plain] at again
      cases again

theorem Owned.gave (owned : Owned recursive inners held) (owner : (inners m).owner = some p) :
    Owned recursive (Function.update inners m ((inners m).unlock p).1)
      (Function.update held p ((held p).erase m)) := by
  obtain ⟨counted, positive⟩ := owned.counted m p owner
  have single := owned.single m
  have count : ((held p).erase m).count m = (inners m).lockCounter - 1 := by
    rw [List.count_erase_self, counted]
  rcases unlock_cases (inners m) p with refused | ⟨-, -, unlocked⟩
  · simp [MutexInner.unlock, owner, positive] at refused
  · rw [unlocked]
    refine owned.change rfl (Or.inr owner) ?_ (fun plain => ?_)
      fun n other => List.count_erase_of_ne other
    · by_cases last : (inners m).lockCounter - 1 = 0
      · refine Or.inl ⟨if_pos last, last, ?_⟩
        rw [← List.count_eq_zero, count, last]
      · refine Or.inr ⟨(if_neg last).trans owner, count.symm, ?_⟩
        exact Nat.pos_of_ne_zero last
    · have bound := single plain
      show (inners m).lockCounter - 1 ≤ 1
      omega

/-- The mutex that the event tries to take. -/
def tried (e : SemaphoreEvent) (sys : CompatMutexes) : Option Nat :=
  match e with
  | .check _ | .recheck _ => sys.taker.bind fun taker => taker.2.map TakeCall.semaphore
  | .tryTake self | .tryTakeFromIsr self => some self
  | _ => none

/-- The runs in which no task holds a mutex 2 ^ 32 times. -/
def Countable (e : SemaphoreEvent) (sys : CompatMutexes) : Prop :=
  ∀ m ∈ tried e sys, (sys.inner m).lockCounter + 1 < 2 ^ 32

theorem take_owned (done : sys.take t m = .ok (sys', taken))
    (owned : Owned recursive sys.inner sys.held) (room : (sys.inner m).lockCounter + 1 < 2 ^ 32) :
    Owned recursive sys'.inner sys'.held := by
  obtain ⟨inner, raised, system, attempt, -, rfl⟩ := take_ok done
  cases attempt with
  | first prio free own => exact owned.took room rfl rfl rfl (Or.inl free)
  | again owns again => exact owned.took room rfl rfl owns (Or.inr ⟨owns, again⟩)
  | refused owner raised held target => exact owned

theorem gave_owned (done : sys.gave m p ((sys.inner m).unlock p).1 = .ok sys')
    (owned : Owned recursive sys.inner sys.held) (owner : (sys.inner m).owner = some p) :
    Owned recursive sys'.inner sys'.held := by
  obtain ⟨system, -, rfl⟩ := gave_ok done
  exact owned.gave owner

theorem tried_call {call : TakeCall} (executes : sys.system.scheduler.executing SingleCore.cpu = some t)
    (here : sys.calls t = some call) :
    (sys.taker.bind fun taker => taker.2.map TakeCall.semaphore) = some call.semaphore := by
  have taker : sys.taker = some (t, sys.calls t) := congrArg (Option.map _) executes
  rw [taker, here]
  rfl

theorem step_owned {e : SemaphoreEvent} (owned : Owned recursive sys.inner sys.held)
    (countable : Countable e sys) (effect : Effect fromMicros sys e sys') :
    Owned recursive sys'.inner sys'.held := by
  cases effect with
  | op free ran => exact owned
  | start executes => exact owned
  | check executes here took stepped =>
    have next := take_owned took owned (countable _ (tried_call executes here))
    rw [checked_inner, checked_held]
    exact next
  | recheck executes here waiting stepped took =>
    have next := take_owned took owned (countable _ (tried_call executes here))
    rw [checked_inner, checked_held]
    exact next
  | expires executes here => exact owned
  | again executes here => exact owned
  | tryTake executes took => exact take_owned took owned (countable _ rfl)
  | give executes gave =>
    rcases give_cases gave with rfl | ⟨system, owner, -, -, gave⟩
    · exact owned
    · exact gave_owned gave owned owner
  | tryTakeFromIsr self =>
    have room := countable _ rfl
    rcases takeFromIsr_cases sys self with same | ⟨free, same⟩ | ⟨owns, again, same⟩
    · rw [same]
      exact owned
    · rw [same]
      exact owned.took room rfl rfl rfl (Or.inl free)
    · rw [same]
      exact owned.took room rfl rfl owns (Or.inr ⟨owns, again⟩)
  | tryGiveFromIsr gave =>
    rcases giveFromIsr_cases gave with rfl | ⟨owner, -, gave⟩
    · exact owned
    · exact gave_owned gave owned owner

end Owners

section Results

/-- Each call has taken what it returns. -/
structure Told (calls : Nat → Option TakeCall) (returns : List TakeReturn) : Prop where
  calls : ∀ t call, calls t = some call → call.taken = 0
  returns : ∀ r ∈ returns, r.taken = if r.result then 1 else 0

theorem Told.setCall {call : TakeCall} (told : Told sys.calls sys.returns) (fresh : call.taken = 0) :
    Told (sys.setCall t (some call)).calls (sys.setCall t (some call)).returns := by
  refine ⟨fun u other here => ?_, told.returns⟩
  change Function.update sys.calls t (some call) u = some other at here
  by_cases own : u = t
  · rw [own, Function.update_self] at here
    cases here
    exact fresh
  · rw [Function.update_of_ne own] at here
    exact told.calls u other here

theorem Told.finish {call : TakeCall} {result : Bool} (told : Told sys.calls sys.returns)
    (taken : call.taken = if result then 1 else 0) :
    Told (sys.finish t call result).calls (sys.finish t call result).returns := by
  refine ⟨fun u other here => ?_, fun r member => ?_⟩
  · change Function.update sys.calls t none u = some other at here
    by_cases own : u = t
    · rw [own, Function.update_self] at here
      cases here
    · rw [Function.update_of_ne own] at here
      exact told.calls u other here
  · rcases List.mem_cons.mp member with rfl | earlier
    · exact taken
    · exact told.returns r earlier

theorem Told.checked {call : TakeCall} {next : TakePhase} (told : Told sys.calls sys.returns)
    (fresh : call.taken = 0) :
    Told (sys.checked t call next taken).calls (sys.checked t call next taken).returns := by
  cases taken with
  | true => exact told.finish (by simp [fresh])
  | false => exact told.setCall fresh

theorem take_told (done : sys.take t m = .ok (sys', taken)) (told : Told sys.calls sys.returns) :
    Told sys'.calls sys'.returns := by
  obtain ⟨inner, raised, system, -, -, rfl⟩ := take_ok done
  cases taken <;> exact told

theorem gave_told (done : sys.gave m p inner = .ok sys') (told : Told sys.calls sys.returns) :
    Told sys'.calls sys'.returns := by
  obtain ⟨system, -, rfl⟩ := gave_ok done
  exact told

theorem step_told {e : SemaphoreEvent} (told : Told sys.calls sys.returns)
    (effect : Effect fromMicros sys e sys') : Told sys'.calls sys'.returns := by
  cases effect with
  | op free ran => exact told
  | start executes => exact told.setCall rfl
  | check executes here took stepped =>
    have next := take_told took told
    exact Told.checked ⟨next.calls, next.returns⟩ (told.calls _ _ here)
  | recheck executes here waiting stepped took =>
    have next := take_told took told
    exact next.checked (told.calls _ _ here)
  | expires executes here => exact told.finish (told.calls _ _ here)
  | again executes here =>
    have fresh := told.calls _ _ here
    exact told.setCall fresh
  | tryTake executes took => exact take_told took told
  | give executes gave =>
    rcases give_cases gave with rfl | ⟨system, -, -, -, gave⟩
    · exact told
    · exact gave_told gave told
  | tryTakeFromIsr self =>
    rcases takeFromIsr_cases sys self with same | ⟨-, same⟩ | ⟨-, -, same⟩
    · rw [same]
      exact told
    · rw [same]
      exact told
    · rw [same]
      exact told
  | tryGiveFromIsr gave =>
    rcases giveFromIsr_cases gave with rfl | ⟨-, -, gave⟩
    · exact told
    · exact gave_told gave told

end Results

section Waits

open SemaphoreSystem (Waits)

variable {W : Nat → List Nat} {inners : Nat → MutexInner} {notified : Nat → List Nat}
  {calls : Nat → Option TakeCall}

/-- A mutex that nobody owns is one unit. -/
def units (inners : Nat → MutexInner) (m : Nat) : Counting :=
  ⟨if (inners m).owner = none then 1 else 0, 1⟩

theorem units_free (inners : Nat → MutexInner) (m : Nat) :
    (units inners m).current = 0 ∨ (units inners m).current = 1 := by
  unfold units
  split
  · exact Or.inr rfl
  · exact Or.inl rfl

theorem units_other {inner : MutexInner} {n : Nat} (other : n ≠ m) :
    units (Function.update inners m inner) n = units inners n := by
  unfold units
  rw [Function.update_of_ne other]

theorem units_owned (owned : (inners m).owner = some p) : (units inners m).current = 0 :=
  if_neg (by rw [owned]; exact nofun)

theorem units_update {inner : MutexInner} (owned : inner.owner = some p) :
    (units (Function.update inners m inner) m).current = 0 := by
  apply units_owned (p := p)
  rw [Function.update_self, owned]

theorem setTaskPriority_waits {raised : Option (ThreadPtr × Nat)} {inner : Nat → Counting}
    (waits : Waits W system inner notified calls)
    (done : setTaskPriority system raised = .ok system') :
    Waits W system' inner notified calls := by
  cases raised with
  | none =>
    cases done
    exact waits
  | some target =>
    have ran : ObjectSystem.step (.op (.setPriority (threadPtrToId target.1) target.2)) system =
      .ok system' := done
    exact SemaphoreSystem.op_waits waits (fun blocking => by cases blocking) ran

theorem setTaskPriority_currentThreads {raised : Option (ThreadPtr × Nat)}
    (done : setTaskPriority system raised = .ok system') :
    system'.scheduler.currentThreads = system.scheduler.currentThreads := by
  cases raised with
  | none =>
    cases done
    rfl
  | some target =>
    have ran : ObjectSystem.step (.op (.setPriority (threadPtrToId target.1) target.2)) system =
      .ok system' := done
    have changed : system.scheduler.setPriority SingleCore.cpu (threadPtrToId target.1) target.2 =
      .ok system'.scheduler := (ObjectSystem.step_op ran).1
    exact setPriority_currentThreads changed

/-- Whether the attempt succeeds or not, someone owns the mutex. -/
theorem take_units (done : sys.take t m = .ok (sys', taken)) :
    (units sys'.inner m).current = 0 ∧ (∀ n, n ≠ m → units sys'.inner n = units sys.inner n) ∧
      sys'.notified = sys.notified ∧ sys'.calls = sys.calls ∧
      ∃ raised, setTaskPriority sys.system raised = .ok sys'.system := by
  obtain ⟨inner, raised, system, attempt, set, rfl⟩ := take_ok done
  cases attempt with
  | first prio free own =>
    exact ⟨units_update rfl, fun n other => units_other other, rfl, rfl, _, set⟩
  | again owns again =>
    exact ⟨units_update owns, fun n other => units_other other, rfl, rfl, _, set⟩
  | refused owner raised held target =>
    exact ⟨units_owned held, fun _ _ => rfl, rfl, rfl, _, set⟩

theorem take_fewer (done : sys.take t m = .ok (sys', taken)) (n : Nat) :
    (units sys'.inner n).current ≤ (units sys.inner n).current := by
  obtain ⟨none, others, -⟩ := take_units done
  by_cases own : n = m
  · rw [own, none]
    exact Nat.zero_le _
  · rw [others n own]

theorem take_waits (waits : Waits W sys.system (units sys.inner) sys.notified sys.calls)
    (done : sys.take t m = .ok (sys', taken)) :
    Waits W sys'.system (units sys'.inner) sys'.notified sys'.calls := by
  obtain ⟨-, -, notified, calls, raised, set⟩ := take_units done
  rw [notified, calls]
  exact (setTaskPriority_waits waits set).fewer (take_fewer done)

theorem check_waits {call : TakeCall} (took : sys.take t call.semaphore = .ok (sys', taken))
    (waits : Waits W sys.system (units sys.inner) sys.notified sys.calls)
    (executes : sys.system.scheduler.executing SingleCore.cpu = some t)
    (stepped : ObjectSystem.step (.call call.semaphore (.waitUntilWithCheck taken
      (fromMicros call.deadline) expired)) sys'.system = .ok system) :
    ∃ W', Waits W' system (units sys'.inner) sys'.notified
      (Function.update sys'.calls t (if taken then none else some { call with
        phase := if (system.pause t).isTimedWait then .waiting else .compare })) := by
  have before := take_waits waits took
  obtain ⟨none, -, -, -, raised, set⟩ := take_units took
  obtain ⟨u, W', list, more, called, -⟩ := ObjectSystem.check_timed before.orderly before.timed stepped
  have executes' := (SemaphoreSystem.untimed_of_caller called).1
  obtain rfl : t = u := by
    have own := Scheduler.executing_own executes
    have own' := Scheduler.executing_own executes'
    unfold currentTid at own own'
    rw [setTaskPriority_currentThreads set, own] at own'
    exact Option.some.inj own'
  refine SemaphoreSystem.check_waits before executes' (fun _ => Nat.le_refl _) (fun _ => none)
    (fun c same waiting => ?_) (fun u other => Function.update_of_ne other _ _) stepped
  rw [Function.update_self] at same
  cases taken with
  | true => cases same
  | false =>
    cases same
    refine ⟨rfl, rfl, ?_⟩
    cases timedWait : (system.pause t).isTimedWait with
    | true => rfl
    | false =>
      rw [timedWait] at waiting
      cases waiting

theorem gave_waits {inner : MutexInner} (done : sys.gave m p inner = .ok sys')
    (waits : Waits W sys.system (units sys.inner) sys.notified sys.calls)
    (owned : (sys.inner m).owner = some p) :
    ∃ W', Waits W' sys'.system (units sys'.inner) sys'.notified sys'.calls := by
  obtain ⟨system, stepped, rfl⟩ := gave_ok done
  have zero := units_owned owned
  obtain ⟨W', next⟩ := SemaphoreSystem.give_waits (m := m) waits
    (fun n other => Function.update_of_ne other ⟨1, 1⟩ (units sys.inner))
    (by rw [Function.update_self, zero]) stepped
  refine ⟨W', next.fewer fun n => ?_⟩
  by_cases own : n = m
  · subst own
    rw [Function.update_self]
    dsimp only
    rcases units_free (Function.update sys.inner n inner) n with zero | one
    · rw [zero]
      exact Nat.zero_le 1
    · exact Nat.le_of_eq one
  · rw [Function.update_of_ne own]
    exact Nat.le_of_eq (congrArg Counting.current (units_other own))

theorem step_waits {e : SemaphoreEvent}
    (waits : Waits W sys.system (units sys.inner) sys.notified sys.calls)
    (effect : Effect fromMicros sys e sys') :
    ∃ W', Waits W' sys'.system (units sys'.inner) sys'.notified sys'.calls := by
  cases effect with
  | op free ran => exact ⟨W, SemaphoreSystem.op_waits waits free ran⟩
  | start executes => exact ⟨W, waits.setCall fun c same => by cases same; exact nofun⟩
  | check executes here took stepped =>
    have next := check_waits took waits executes stepped
    rw [checked_system, checked_inner, checked_notified, checked_calls]
    exact next
  | @recheck expired t call sys₁ taken system executes here waiting stepped took =>
    obtain ⟨none, others, notified, calls, raised, set⟩ := take_units took
    rw [checked_system, checked_inner, checked_notified, checked_calls, notified, calls]
    have used : (units sys₁.inner call.semaphore).current =
        (units sys.inner call.semaphore).current - 1 := by
      rcases units_free sys.inner call.semaphore with zero | one
      · rw [none, zero]
      · rw [none, one]
    have next : ∃ W', Waits W' system (units sys₁.inner)
        (Function.update sys.notified call.semaphore ((sys.notified call.semaphore).erase t))
        (Function.update sys.calls t
          (if taken then Option.none else some { call with phase := .compare })) := by
      refine SemaphoreSystem.recheck_waits waits executes here waiting others used
        (fun c same => ?_) (fun u other => Function.update_of_ne other _ _) stepped
      rw [Function.update_self] at same
      split at same
      · cases same
      · cases same
        exact nofun
    obtain ⟨W', next⟩ := next
    exact ⟨W', setTaskPriority_waits next set⟩
  | expires executes here => exact ⟨W, waits.setCall nofun⟩
  | again executes here => exact ⟨W, waits.setCall fun c same => by cases same; exact nofun⟩
  | tryTake executes took => exact ⟨W, take_waits waits took⟩
  | give executes gave =>
    rcases give_cases gave with rfl | ⟨system, owned, -, set, gave⟩
    · exact ⟨W, waits⟩
    · exact gave_waits gave (setTaskPriority_waits waits set) owned
  | tryTakeFromIsr self =>
    have owned : ∀ inner : MutexInner, inner.owner = some danglingPtr →
        ∃ W', Waits W' sys.system (units (Function.update sys.inner self inner)) sys.notified
          sys.calls := by
      intro inner owner
      refine ⟨W, waits.fewer fun n => ?_⟩
      by_cases own : n = self
      · subst own
        rw [units_update owner]
        exact Nat.zero_le _
      · rw [units_other own]
    rcases takeFromIsr_cases sys self with same | ⟨-, same⟩ | ⟨owns, -, same⟩
    · rw [same]
      exact ⟨W, waits⟩
    · rw [same]
      exact owned _ rfl
    · rw [same]
      exact owned _ owns
  | tryGiveFromIsr gave =>
    rcases giveFromIsr_cases gave with rfl | ⟨owned, -, gave⟩
    · exact ⟨W, waits⟩
    · exact gave_waits gave waits owned

/-- A thread that was popped is ready. -/
theorem popped_running {inner : Nat → Counting} (waits : Waits W system inner notified calls)
    (popped : t ∈ notified m) : system.scheduler.stateOf t = .running := by
  obtain ⟨absent, deadline, paused⟩ := waits.popped m t popped
  have fits := waits.orderly.fits t
  by_contra stopped
  have kind := fits.kind stopped
  rw [paused] at kind
  have blocked : (system.scheduler.stateOf t).inList = true := by
    rw [show system.scheduler.stateOf t = .waitQueueBlocked from kind]
    rfl
  obtain ⟨n, listed⟩ := fits.listed blocked
  have object := (fits.member listed).1
  rw [paused] at object
  cases object
  exact absent listed

end Waits

theorem new_owned (recursive : Nat → Bool) :
    Owned recursive (new recursive).inner (new recursive).held :=
  ⟨fun _ => rfl, fun _ _ owns => (by cases owns), fun _ _ => rfl, fun _ _ _ => List.not_mem_nil,
    fun _ _ => Nat.zero_le 1⟩

theorem new_told : Told (new recursive).calls (new recursive).returns where
  calls := by
    intro t call here
    cases here
  returns := by
    intro r member
    cases member

theorem reaches_owned (reached : Reaches (step fromMicros) Countable (new recursive) sys) :
    Owned recursive sys.inner sys.held :=
  reached.invariant (fun sys => Owned recursive sys.inner sys.held) (new_owned recursive)
    fun _ _ _ owned countable done => step_owned owned countable (step_effect done)

theorem new_waits (recursive : Nat → Bool) : ∃ W, SemaphoreSystem.Waits W (new recursive).system
    (units (new recursive).inner) (new recursive).notified (new recursive).calls := by
  have safe : ObjectSystem.Safe (ObjectSystem.new (fun _ => .waitQueue .new) fun _ => ()) :=
    ObjectSystem.new_safe fun _ => .waitQueue
  obtain ⟨W, orderly⟩ := safe
  exact ⟨W, orderly, fun _ _ => nofun, fun _ _ => nofun, fun _ => List.nodup_nil, fun _ _ => nofun,
    fun _ listed => absurd rfl listed⟩

theorem reaches_waits {Allowed : SemaphoreEvent → CompatMutexes → Prop}
    (reached : Reaches (step fromMicros) Allowed (new recursive) sys) :
    ∃ W, SemaphoreSystem.Waits W sys.system (units sys.inner) sys.notified sys.calls :=
  reached.invariant
    (fun sys => ∃ W, SemaphoreSystem.Waits W sys.system (units sys.inner) sys.notified sys.calls)
    (new_waits recursive) fun _ _ _ inv _ done => by
      obtain ⟨W, waits⟩ := inv
      exact step_waits waits (step_effect done)

/-- No two tasks hold a mutex, where an interrupt is the same task as thread 0, and a task is told
    exactly what it took. -/
theorem owners_apart (reached : Reaches (step fromMicros) Countable (new recursive) sys) :
    (∀ m p, m ∈ sys.held p ↔ (sys.inner m).owner = some p) ∧
      (∀ m p, m ∈ sys.held p → (sys.inner m).lockCounter = (sys.held p).count m) ∧
      (∀ m p, recursive m = false → (sys.held p).count m ≤ 1) ∧
      ∀ r ∈ sys.returns, r.taken = if r.result then 1 else 0 := by
  have owned := reaches_owned reached
  have told := reached.invariant (fun sys => Told sys.calls sys.returns) new_told
    fun _ _ _ told _ done => step_told told (step_effect done)
  have owner : ∀ m p, m ∈ sys.held p → (sys.inner m).owner = some p := by
    intro m p member
    by_contra other
    exact owned.apart m p other member
  refine ⟨fun m p => ⟨owner m p, fun owns => ?_⟩,
    fun m p member => (owned.counted m p (owner m p member)).1, fun m p plain => ?_, told.returns⟩
  · obtain ⟨counted, positive⟩ := owned.counted m p owns
    rw [counted] at positive
    exact List.count_pos_iff.mp positive
  · by_cases owns : (sys.inner m).owner = some p
    · rw [← (owned.counted m p owns).1]
      exact owned.single m plain
    · rw [List.count_eq_zero.mpr (owned.apart m p owns)]
      exact Nat.zero_le 1

/-- While threads wait for a mutex that nobody owns, one that was popped is ready to try again. -/
theorem free_mutex_wakes (reached : Reachable (step fromMicros) (new recursive) sys)
    (free : (sys.inner m).owner = none) (waiting : (sys.system.lists m).head ≠ none) :
    ∃ t ∈ sys.notified m, sys.system.scheduler.stateOf t = .running ∧
      ∃ deadline, sys.system.pause t = .timedWait m deadline := by
  obtain ⟨W, waits⟩ := reaches_waits reached
  have covered := waits.covered m waiting
  have unit : (units sys.inner m).current = 1 := if_pos free
  rw [unit] at covered
  obtain ⟨t, popped⟩ := List.exists_mem_of_length_pos covered
  exact ⟨t, popped, popped_running waits popped, (waits.popped m t popped).2⟩

instance (e : SemaphoreEvent) (sys : CompatMutexes) : Decidable (Countable e sys) :=
  decidable_of_iff ((tried e sys).all fun m => (sys.inner m).lockCounter + 1 < 2 ^ 32) (by
    unfold Countable
    cases tried e sys <;> simp)

section Samples

/-- Threads of the priorities 1 to 3 start, and the first one runs while the others are parked. -/
def startEvents : List SemaphoreEvent :=
  [.op (.create 0 512 1 none), .op (.create 512 512 2 none), .op (.create 1024 512 3 none),
    .op .startThreading, .op .enterPendsv, .op .sched, .op .park, .op .enterPendsv, .op .sched,
    .op .park, .op .enterPendsv, .op .sched]

/-- A thread is unparked and waits for mutex 0. -/
def joins (t : Nat) : List SemaphoreEvent :=
  [.op (.unpark t), .op .enterPendsv, .op .sched, .takeWithDeadline 0 none, .check [],
    .op .enterPendsv, .op .sched]

/-- Thread 0 takes a recursive mutex twice, and an interrupt, which is the same task, a third time. -/
theorem owners_apart_sample : ∃ sys, Reaches (step id) Countable (new fun _ => true) sys ∧
    sys.held 1 = [7, 7, 7] ∧ (sys.inner 7).lockCounter = 3 ∧ (sys.inner 7).owner = some 1 := by
  have run : ∃ sys, Reaches (step id) Countable (new fun _ => true) sys ∧
      (sys.held 1 == [7, 7, 7]) = true :=
    reaches_of_check (startEvents ++ [.tryTake 7, .takeWithDeadline 7 none, .check [],
      .tryTakeFromIsr 7]) (by decide +kernel)
  obtain ⟨sys, reached, checked⟩ := run
  have held : sys.held 1 = [7, 7, 7] := by simpa using checked
  obtain ⟨owner, counted, -⟩ := owners_apart reached
  have member : 7 ∈ sys.held 1 := by
    rw [held]
    exact List.mem_cons_self
  refine ⟨sys, reached, held, ?_, (owner 7 1).mp member⟩
  rw [counted 7 1 member, held]
  rfl

/-- Thread 0 gives mutex 0 while threads 1 and 2 wait for it. -/
theorem free_mutex_wakes_sample : ∃ sys, Reachable (step id) (new fun _ => false) sys ∧
    ∃ t ∈ sys.notified 0, sys.system.scheduler.stateOf t = .running := by
  have run : ∃ sys, Reachable (step id) (new fun _ => false) sys ∧
      ((sys.inner 0).owner == none && (sys.system.lists 0).head == some 1) = true :=
    reaches_of_check (startEvents ++ [.tryTake 0] ++ joins 1 ++ joins 2 ++ [.give 0])
      (by decide +kernel)
  obtain ⟨sys, reached, checked⟩ := run
  simp only [Bool.and_eq_true, beq_iff_eq] at checked
  obtain ⟨t, popped, ready, -⟩ :=
    free_mutex_wakes reached checked.1 (by rw [checked.2]; exact nofun)
  exact ⟨sys, reached, t, popped, ready⟩

end Samples

end CompatMutexes

end ArielOS
