import ArielOS.Threads.Preserve
import ArielOS.Threads.System
import ArielOS.Threads.ThreadListSpec

namespace ArielOS

open Machine Scheduler ThreadList

variable {cpu : Cpu} {s s' : Scheduler} {t prio : Nat} {state old : ThreadState}
  {refs : Nat → Prop} {list list' : ThreadList}

/-- Either the deadline was still set, or the thread leaves the list if it is there. -/
theorem WaitQueue.waitUntilResume_ok {expired : List (Nat × Nat)} {result : Bool}
    (done : waitUntilResume cpu list s expired = .ok (list', s', result)) :
    ∃ t, s.currentTid cpu = some t ∧
      ((s.deadlineOf t ≠ none ∧ list' = list ∧ result = false ∧
          wakeAll cpu expired (s.withoutDeadline t) = .ok s') ∨
        (s.deadlineOf t = none ∧ ∃ removed,
          list.removeCurrent cpu s = .ok (list', s', removed) ∧ result = !removed)) := by
  obtain ⟨⟨s₂, cleared⟩, clear, rest⟩ := bind_ok_iff.mp done
  obtain ⟨t, s₁, own, isSet, rfl, outcome⟩ := clearDeadline_ok clear
  refine ⟨t, own, ?_⟩
  rcases outcome with ⟨rfl, woken⟩ | ⟨rfl, rfl⟩
  · simp only [↓reduceIte] at rest
    cases rest
    exact Or.inl ⟨Option.isSome_iff_ne_none.mp isSet.symm, rfl, rfl, woken⟩
  · have unset : s.deadlineOf t = none := by simpa using isSet.symm
    simp only [Bool.false_eq_true, ↓reduceIte] at rest
    obtain ⟨⟨list₁, s₂, removed⟩, took, rest⟩ := bind_ok_iff.mp rest
    cases rest
    rw [withoutDeadline_of_none unset] at took
    exact Or.inr ⟨unset, removed, took, rfl⟩

theorem Scheduler.Named.link {i : Nat} {next : Option Nat} (named : s.Named refs)
    (known : ∀ n, next = some n → s.tidOf n = n) : (ThreadList.link s i next).Named refs where
  created := named.created
  timed := named.timed
  current := named.current
  linked := fun j n pointer => by
    unfold ThreadList.link at pointer
    dsimp only at pointer
    by_cases same : j = i
    · rw [same, Function.update_self] at pointer
      exact known n pointer
    · rw [Function.update_of_ne same] at pointer
      exact named.linked j n pointer
  referred := named.referred

theorem ThreadList.seek_named {fuel : Nat} {curr next curr' next' : Option Nat}
    (named : s.Named refs) (known : ∀ n, next = some n → s.tidOf n = n)
    (walked : seek s prio fuel curr next = .ok (curr', next')) :
    ∀ n, next' = some n → s.tidOf n = n := by
  induction fuel generalizing curr next with
  | zero => cases walked
  | succ fuel ih =>
    cases next with
    | none =>
      cases walked
      exact known
    | some m =>
      obtain ⟨thread, -, rest⟩ := bind_ok_iff.mp walked
      split at rest
      · cases rest
        exact known
      · exact ih (fun n pointer => named.linked m n pointer) rest

namespace Keeps

variable {Ready : Scheduler → Nat → Prop} {Reprio : Scheduler → Nat → Nat → Prop}
  {MayStop : Nat → Prop} {MayStart : Prop} {I : Scheduler → Prop}
  (keeps : Keeps cpu refs Ready Reprio MayStop MayStart I)
  (linkKeeps : ∀ {s i next}, I s → I (ThreadList.link s i next))
  (linkReady : ∀ {s i next t}, Ready s t → Ready (ThreadList.link s i next) t)

include keeps linkKeeps

theorem putCurrent {inherit : Option Nat} (named : s.Named refs) (holds : I s)
    (known : ∀ h, list.head = some h → s.tidOf h = h)
    (may : ∀ t, s.currentTid cpu = some t → MayStop t) (stops : state ≠ .running)
    (done : list.putCurrent cpu s state = .ok (list', s', inherit)) :
    s'.Named refs ∧ I s' ∧ ∀ h, list'.head = some h → s'.tidOf h = h := by
  obtain ⟨t, curr, next, old, own, walked, outcome⟩ := putCurrent_ok done
  have self : s.tidOf t = t := named.current _ t own
  rw [self] at outcome
  have named₁ : (ThreadList.link s t next).Named refs := named.link (seek_named named known walked)
  cases curr with
  | none =>
    obtain ⟨rfl, -, set⟩ := outcome
    obtain ⟨named₂, holds₂⟩ := keeps.stopped named₁ own (may t own) stops (linkKeeps holds) set
    refine ⟨named₂, holds₂, ?_⟩
    intro h first
    cases first
    rw [setState_tidOf set]
    exact self
  | some c =>
    obtain ⟨rfl, -, set⟩ := outcome
    have named₂ : (ThreadList.link (ThreadList.link s t next) c (some t)).Named refs := by
      apply named₁.link
      intro n same
      cases same
      exact self
    obtain ⟨named₃, holds₃⟩ :=
      keeps.stopped named₂ own (may t own) stops (linkKeeps (linkKeeps holds)) set
    refine ⟨named₃, holds₃, ?_⟩
    intro h first
    rw [setState_tidOf set]
    exact known h first

include linkReady

theorem pop {popped : Option (Nat × ThreadState)} (named : s.Named refs) (holds : I s)
    (known : ∀ h, list.head = some h → s.tidOf h = h)
    (permitted : ∀ h, list.head = some h → Ready s h)
    (done : list.pop cpu s = .ok (list', s', popped)) :
    s'.Named refs ∧ I s' ∧ ∀ h, list'.head = some h → s'.tidOf h = h := by
  rcases pop_ok done with ⟨-, rfl, rfl, -⟩ | ⟨h, old, first, rfl, -, set⟩
  · exact ⟨named, holds, known⟩
  · have named₁ : (ThreadList.link s h none).Named refs := named.link fun n absent => by cases absent
    obtain ⟨named₂, holds₂⟩ := keeps.readied named₁ (known h first)
      (linkReady (permitted h first)) (linkKeeps holds) set
    refine ⟨named₂, holds₂, ?_⟩
    intro n next
    rw [setState_tidOf set]
    exact named.linked h n next

theorem removeCurrent {removed : Bool} (named : s.Named refs) (holds : I s)
    (known : ∀ h, list.head = some h → s.tidOf h = h)
    (permitted : ∀ t, s.currentTid cpu = some t → list.contains s t = true → Ready s t)
    (done : list.removeCurrent cpu s = .ok (list', s', removed)) :
    s'.Named refs ∧ I s' ∧ ∀ h, list'.head = some h → s'.tidOf h = h := by
  obtain ⟨t, own, ⟨rfl, rfl, -⟩ | ⟨-, found, old, outcome⟩⟩ := removeCurrent_ok done
  · exact ⟨named, holds, known⟩
  have self := named.current _ t own
  have ready := permitted t own found
  have named₁ : (ThreadList.link s t none).Named refs := named.link fun n absent => by cases absent
  rcases outcome with ⟨first, rfl, set⟩ | ⟨rfl, before, pointer, set⟩
  · obtain ⟨named₂, holds₂⟩ := keeps.readied named₁ self (linkReady ready) (linkKeeps holds) set
    refine ⟨named₂, holds₂, ?_⟩
    intro n next
    rw [setState_tidOf set]
    exact named.linked t n next
  · have named₂ : (ThreadList.link (ThreadList.link s t none) before
        (s.threadBlocklist t)).Named refs :=
      named₁.link fun n next => named.linked t n next
    obtain ⟨named₃, holds₃⟩ := keeps.readied named₂ self (linkReady (linkReady ready))
      (linkKeeps (linkKeeps holds)) set
    refine ⟨named₃, holds₃, ?_⟩
    intro n first
    rw [setState_tidOf set]
    exact known n first

end Keeps

namespace System

variable {sys sys' : System} {config : Config} {e : Nat × Event}

def heads (sys : System) (t : Nat) : Prop := ∃ list, (sys.lists list).head = some t

theorem named_new (config : Config) : (Scheduler.new config).Named (System.new config).heads := by
  have fresh := Named.new config
  refine ⟨fresh.created, fresh.timed, fresh.current, fresh.linked, ?_⟩
  intro t ⟨list, first⟩
  cases first

theorem step_ok (done : System.step config e sys = .ok sys') :
    e.1 < config.coreCount ∧ (e.2.blocking = true → sys.mayBlock ⟨config, e.1⟩ = true) ∧
      e.2.run ⟨config, e.1⟩ sys = .ok sys' := by
  simp only [System.step] at done
  split at done
  · rename_i enabled
    exact ⟨enabled.1, enabled.2, done⟩
  · cases done

theorem named_setList {l : Nat} (named : s.Named sys.heads)
    (known : ∀ h, list.head = some h → s.tidOf h = h) :
    (sys.setList l list s).scheduler.Named (sys.setList l list s).heads where
  created := named.created
  timed := named.timed
  current := named.current
  linked := named.linked
  referred := fun t ⟨m, first⟩ => by
    unfold setList at first
    dsimp only at first
    by_cases same : m = l
    · rw [same, Function.update_self] at first
      exact known t first
    · rw [Function.update_of_ne same] at first
      exact named.referred t ⟨m, first⟩

end System

/-- Only `setup_idle_threads` adds idle threads. -/
theorem Event.run_idleThreads {e : Event} {sys sys' : System} (done : e.run cpu sys = .ok sys') :
    sys'.idleThreads = sys.idleThreads ∨ ∃ stackStart stackLen s t,
      sys.idleThreads.length ≠ cpu.config.idleThreads ∧
      sys.scheduler.createRaw cpu stackStart stackLen 0 none = .ok (s, t) ∧
      sys' = { sys with scheduler := s, idleThreads := t :: sys.idleThreads } := by
  cases e with
  | op o =>
    simp only [Event.run] at done
    split at done
    · cases done
    · obtain ⟨s₁, -, rest⟩ := bind_ok_iff.mp done
      cases rest
      exact Or.inl rfl
  | setupIdleThread stackStart stackLen =>
    simp only [Event.run] at done
    split at done
    · cases done
    · rename_i unfinished
      obtain ⟨⟨s₁, t⟩, made, rest⟩ := bind_ok_iff.mp done
      cases rest
      exact Or.inr ⟨stackStart, stackLen, s₁, t, unfinished, made, rfl⟩
  | putCurrent l state =>
    simp only [Event.run] at done
    split at done
    · obtain ⟨out, -, rest⟩ := bind_ok_iff.mp done
      cases rest
      exact Or.inl rfl
    · cases done
  | pop l =>
    obtain ⟨out, -, rest⟩ := bind_ok_iff.mp done
    cases rest
    exact Or.inl rfl
  | waitUntil l deadline expired =>
    obtain ⟨out, -, rest⟩ := bind_ok_iff.mp done
    cases rest
    exact Or.inl rfl
  | waitUntilResume l expired =>
    obtain ⟨out, -, rest⟩ := bind_ok_iff.mp done
    cases rest
    exact Or.inl rfl

/-- The permissions for an event, as `Op.Permitted` for an operation. -/
def Event.Permitted (cpu : Cpu) (Ready : Scheduler → Nat → Prop)
    (Reprio : Scheduler → Nat → Nat → Prop) (sys : System) : Event → Prop
  | .op o => o.Permitted cpu Ready Reprio sys.scheduler
  | .setupIdleThread stackStart stackLen =>
    (Op.create stackStart stackLen 0 none).Permitted cpu Ready Reprio sys.scheduler
  | .putCurrent .. => True
  | .pop list => ∀ t, (sys.lists list).head = some t → Ready sys.scheduler t
  | .waitUntil _ deadline expired => ∀ s₁, sys.scheduler.armDeadline cpu deadline = .ok s₁ →
    WakesPermitted cpu Ready expired s₁
  | .waitUntilResume list expired => ∀ t, sys.scheduler.currentTid cpu = some t →
    (sys.scheduler.deadlineOf t = none →
      (sys.lists list).contains (sys.scheduler.withoutDeadline t) t = true →
        Ready (sys.scheduler.withoutDeadline t) t) ∧
      (sys.scheduler.deadlineOf t ≠ none →
        WakesPermitted cpu Ready expired (sys.scheduler.withoutDeadline t))

theorem Event.permitted_true (e : Event) (sys : System) :
    e.Permitted cpu (fun _ _ => True) (fun _ _ _ => True) sys := by
  cases e with
  | op o => exact o.permitted_true sys.scheduler
  | setupIdleThread stackStart stackLen => exact (Op.create stackStart stackLen 0 none).permitted_true _
  | waitUntil list deadline expired => exact fun s₁ _ => wakesPermitted_true expired s₁
  | waitUntilResume list expired =>
    exact fun t _ => ⟨fun _ _ => trivial, fun _ => wakesPermitted_true expired _⟩
  | _ => simp [Event.Permitted]

instance decidableEventPermitted {Ready : Scheduler → Nat → Prop}
    {Reprio : Scheduler → Nat → Nat → Prop} [∀ s t, Decidable (Ready s t)]
    [∀ s t prio, Decidable (Reprio s t prio)] (cpu : Cpu) (sys : System) :
    (e : Event) → Decidable (e.Permitted cpu Ready Reprio sys)
  | .op o => decidableOpPermitted cpu sys.scheduler o
  | .setupIdleThread stackStart stackLen =>
    decidableOpPermitted cpu sys.scheduler (.create stackStart stackLen 0 none)
  | .putCurrent .. => isTrue trivial
  | .pop _ => decidableForallSome _
  | .waitUntil .. => decidableForallOk _
  | .waitUntilResume .. => decidableForallSome _

namespace Keeps

variable {sys sys' : System} {Ready : Scheduler → Nat → Prop}
  {Reprio : Scheduler → Nat → Nat → Prop} {MayStop : Nat → Prop} {MayStart : Prop}
  {I : Scheduler → Prop}

theorem waitUntil {deadline : Nat} {expired : List (Nat × Nat)} {waits : Bool}
    (keeps : Keeps cpu refs Ready Reprio MayStop MayStart I)
    (linkKeeps : ∀ {s i next}, I s → I (ThreadList.link s i next)) (named : s.Named refs)
    (holds : I s) (refers : ∀ h, list.head = some h → refs h)
    (permitted : ∀ s₁, s.armDeadline cpu deadline = .ok s₁ → WakesPermitted cpu Ready expired s₁)
    (may : ∀ t, s.currentTid cpu = some t → MayStop t)
    (done : WaitQueue.waitUntil cpu list s deadline expired = .ok (list', s', waits)) :
    s'.Named refs ∧ I s' ∧ ∀ h, list'.head = some h → s'.tidOf h = h := by
  obtain ⟨⟨s₂, inFuture⟩, armed, rest⟩ := bind_ok_iff.mp done
  obtain ⟨s₁, arm, woken⟩ := setDeadline_ok armed
  obtain ⟨named₁, holds₁⟩ := keeps.armDeadline named holds arm
  obtain ⟨named₂, holds₂⟩ := keeps.wakeAll named₁ holds₁ (permitted s₁ arm) woken
  have known : ∀ h, list.head = some h → s₂.tidOf h = h :=
    fun h first => named₂.referred h (refers h first)
  cases inFuture with
  | true =>
    obtain ⟨⟨list₁, s₃, inherit⟩, put, rest⟩ := bind_ok_iff.mp rest
    cases rest
    have current : s₂.currentThreads = s.currentThreads :=
      (wakeAll_currentThreads woken).trans (armDeadline_ok arm).1.currentThreads
    have may₂ : ∀ t, s₂.currentTid cpu = some t → MayStop t := by
      intro t own
      rw [currentTid, current] at own
      exact may t own
    exact keeps.putCurrent linkKeeps named₂ holds₂ known may₂ (by simp) put
  | false =>
    cases rest
    exact ⟨named₂, holds₂, known⟩

theorem waitUntilResume {expired : List (Nat × Nat)} {result : Bool}
    (keeps : Keeps cpu refs Ready Reprio MayStop MayStart I)
    (linkKeeps : ∀ {s i next}, I s → I (ThreadList.link s i next))
    (linkReady : ∀ {s i next t}, Ready s t → Ready (ThreadList.link s i next) t)
    (named : s.Named refs) (holds : I s) (refers : ∀ h, list.head = some h → refs h)
    (permitted : ∀ t, s.currentTid cpu = some t →
      (s.deadlineOf t = none → list.contains (s.withoutDeadline t) t = true →
        Ready (s.withoutDeadline t) t) ∧
      (s.deadlineOf t ≠ none → WakesPermitted cpu Ready expired (s.withoutDeadline t)))
    (done : WaitQueue.waitUntilResume cpu list s expired = .ok (list', s', result)) :
    s'.Named refs ∧ I s' ∧ ∀ h, list'.head = some h → s'.tidOf h = h := by
  obtain ⟨t, own, outcome⟩ := WaitQueue.waitUntilResume_ok done
  obtain ⟨ready, wakes⟩ := permitted t own
  rcases outcome with ⟨timed, rfl, -, woken⟩ | ⟨untimed, removed, took, -⟩
  · have quiet := quiet_withoutDeadline s t
    obtain ⟨named', holds'⟩ :=
      keeps.wakeAll (named.quiet quiet) (keeps.quiet quiet holds) (wakes timed) woken
    exact ⟨named', holds', fun h first => named'.referred h (refers h first)⟩
  · refine keeps.removeCurrent linkKeeps linkReady named holds
      (fun h first => named.referred h (refers h first)) (fun u ownU found => ?_) took
    obtain rfl : t = u := Option.some.inj (own.symm.trans ownU)
    have ready := ready untimed
    rw [withoutDeadline_of_none untimed] at ready
    exact ready found

theorem event {e : Event} (keeps : Keeps cpu sys.heads Ready Reprio MayStop MayStart I)
    (linkKeeps : ∀ {s i next}, I s → I (ThreadList.link s i next))
    (linkReady : ∀ {s i next t}, Ready s t → Ready (ThreadList.link s i next) t)
    (named : sys.scheduler.Named sys.heads) (holds : I sys.scheduler)
    (permitted : e.Permitted cpu Ready Reprio sys)
    (may : e.blocking = true → ∀ t, sys.scheduler.currentTid cpu = some t → MayStop t)
    (starts : sys.idleThreads.length = cpu.config.idleThreads → MayStart)
    (done : e.run cpu sys = .ok sys') :
    sys'.scheduler.Named sys'.heads ∧ I sys'.scheduler := by
  have firstKnown : ∀ l h, (sys.lists l).head = some h → sys.scheduler.tidOf h = h :=
    fun l h first => named.referred h ⟨l, first⟩
  cases e with
  | op o =>
    simp only [Event.run] at done
    split at done
    · cases done
    · rename_i guard
      obtain ⟨s₁, ran, rest⟩ := bind_ok_iff.mp done
      cases rest
      refine keeps.run named holds permitted may (fun start => starts ?_) ran
      exact not_not.mp fun other => guard ⟨start, other⟩
  | setupIdleThread stackStart stackLen =>
    simp only [Event.run] at done
    split at done
    · cases done
    · obtain ⟨⟨s₁, tid⟩, made, rest⟩ := bind_ok_iff.mp done
      cases rest
      have ran : (Op.create stackStart stackLen 0 none).run cpu sys.scheduler = .ok s₁ := by
        simp [Op.run, made]
      have granted : (Op.create stackStart stackLen 0 none).Permitted cpu Ready Reprio
          sys.scheduler := permitted
      exact keeps.run named holds granted (fun blocks => by cases blocks)
        (fun start => by cases start) ran
  | putCurrent l state =>
    simp only [Event.run] at done
    split at done
    · rename_i blocks
      obtain ⟨⟨list, s₁, inherit⟩, put, rest⟩ := bind_ok_iff.mp done
      cases rest
      have stops : state ≠ .running := by
        intro same
        simp [same, ThreadState.inList] at blocks
      obtain ⟨named₁, holds₁, known⟩ :=
        keeps.putCurrent linkKeeps named holds (firstKnown l) (may rfl) stops put
      exact ⟨System.named_setList named₁ known, holds₁⟩
    · cases done
  | pop l =>
    obtain ⟨⟨list, s₁, popped⟩, took, rest⟩ := bind_ok_iff.mp done
    cases rest
    obtain ⟨named₁, holds₁, known⟩ :=
      keeps.pop linkKeeps linkReady named holds (firstKnown l) permitted took
    exact ⟨System.named_setList named₁ known, holds₁⟩
  | waitUntil l deadline expired =>
    obtain ⟨⟨list, s₁, waits⟩, waited, rest⟩ := bind_ok_iff.mp done
    cases rest
    obtain ⟨named₁, holds₁, known⟩ := keeps.waitUntil linkKeeps named holds
      (fun h first => ⟨l, first⟩) permitted (may rfl) waited
    exact ⟨System.named_setList named₁ known, holds₁⟩
  | waitUntilResume l expired =>
    obtain ⟨⟨list, s₁, result⟩, resumed, rest⟩ := bind_ok_iff.mp done
    cases rest
    obtain ⟨named₁, holds₁, known⟩ := keeps.waitUntilResume linkKeeps linkReady named holds
      (fun h first => ⟨l, first⟩) permitted resumed
    exact ⟨System.named_setList named₁ known, holds₁⟩

end Keeps

/-- The permissions for the event of a core. -/
def System.Permitted (config : Config) (Ready : Nat → Scheduler → Nat → Prop)
    (Reprio : Nat → Scheduler → Nat → Nat → Prop) (e : Nat × Event) (sys : System) : Prop :=
  e.2.Permitted ⟨config, e.1⟩ (Ready e.1) (Reprio e.1) sys

instance {Ready : Nat → Scheduler → Nat → Prop} {Reprio : Nat → Scheduler → Nat → Nat → Prop}
    [∀ core s t, Decidable (Ready core s t)] [∀ core s t prio, Decidable (Reprio core s t prio)]
    (config : Config) (e : Nat × Event) (sys : System) :
    Decidable (System.Permitted config Ready Reprio e sys) :=
  decidableEventPermitted ⟨config, e.1⟩ sys e.2

/-- An invariant that the permitted events of all cores keep holds along every run. -/
theorem Keeps.reaches {config : Config} {Ready : Nat → Scheduler → Nat → Prop}
    {Reprio : Nat → Scheduler → Nat → Nat → Prop} {I : Scheduler → Prop} {sys : System}
    (keeps : ∀ core refs, core < config.coreCount →
      Keeps ⟨config, core⟩ refs (Ready core) (Reprio core) (fun _ => True) True I)
    (linkKeeps : ∀ {s i next}, I s → I (ThreadList.link s i next))
    (linkReady : ∀ {core s i next t}, Ready core s t → Ready core (ThreadList.link s i next) t)
    (start : I (.new config))
    (reached : Reaches (System.step config) (System.Permitted config Ready Reprio)
      (.new config) sys) : sys.scheduler.Named sys.heads ∧ I sys.scheduler := by
  refine reached.invariant (fun sys => sys.scheduler.Named sys.heads ∧ I sys.scheduler)
    ⟨System.named_new config, start⟩ ?_
  intro sys e sys' inv permitted done
  obtain ⟨bound, -, ran⟩ := System.step_ok done
  exact (keeps e.1 sys.heads bound).event linkKeeps linkReady inv.1 inv.2 permitted
    (fun _ _ _ => trivial) (fun _ => trivial) ran

end ArielOS
