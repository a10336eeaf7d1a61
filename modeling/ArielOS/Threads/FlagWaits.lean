import Mathlib.Data.Nat.Find
import ArielOS.Threads.FlagSystem
import ArielOS.Threads.QueuedThreads
import ArielOS.Threads.Waiters

namespace ArielOS

open Machine Scheduler

/-- Negation as the code computes it keeps the least significant bit of a word. -/
theorem and_not_add_one {w : Nat} {x : BitVec w} (nonzero : x ≠ 0) :
    ∃ i < w, x.getLsbD i = true ∧ (∀ j < i, x.getLsbD j = false) ∧
      x &&& (~~~x + 1) = BitVec.twoPow w i := by
  have some : ∃ i, x.getLsbD i = true := by
    by_contra none
    apply nonzero
    apply BitVec.eq_of_getLsbD_eq
    intro i bound
    simp only [not_exists, Bool.not_eq_true] at none
    simp [none i]
  have lowest := Nat.find_spec some
  have below : ∀ j < Nat.find some, x.getLsbD j = false := fun j less => by
    simpa using Nat.find_min some less
  refine ⟨Nat.find some, BitVec.lt_of_getLsbD lowest, lowest, below, ?_⟩
  have negated : ~~~x + 1 = -x := (BitVec.neg_eq_not_add x).symm
  rw [negated]
  apply BitVec.eq_of_getLsbD_eq
  intro j bound
  rw [BitVec.getLsbD_and, BitVec.getLsbD_neg, BitVec.getLsbD_twoPow]
  rcases Nat.lt_trichotomy j (Nat.find some) with less | same | more
  · simp [below j less, Nat.ne_of_gt less]
  · have none : decide (∃ k < j, x.getLsbD k = true) = false := by
      refine decide_eq_false fun ⟨k, less, set⟩ => ?_
      rw [below k (same ▸ less)] at set
      cases set
    rw [none]
    rw [same] at bound ⊢
    simp [lowest, bound]
  · have earlier : ∃ k < j, x.getLsbD k = true := ⟨_, more, lowest⟩
    simp [earlier, bound, Nat.ne_of_lt more]

theorem bit_of_twoPow {w k i : Nat} (set : (BitVec.twoPow w k).getLsbD i = true) : k = i := by
  rw [BitVec.getLsbD_twoPow, Bool.and_eq_true] at set
  exact of_decide_eq_true set.2

namespace Scheduler

variable {cpu : Cpu} {s s' : Scheduler} {t prio : Nat} {state old : ThreadState}

def flagsOf (s : Scheduler) (t : Nat) : ThreadFlags := (s.threads t).flags

theorem setThread_flagsOf (s : Scheduler) (t : Nat) (thread : Thread) :
    (s.setThread t thread).flagsOf = Function.update s.flagsOf t thread.flags :=
  Function.comp_update (fun x : Thread => x.flags) s.threads t thread

theorem withState_flagsOf (s : Scheduler) (t : Nat) (state : ThreadState)
    (r : RunQueue usizeBits schedPrioLevels threadCount) (q : Requests) :
    (s.withState t state r q).flagsOf = s.flagsOf :=
  (setThread_flagsOf s t { s.threads t with state }).trans (Function.update_eq_self t s.flagsOf)

theorem withPrio_flagsOf (s : Scheduler) (t prio : Nat)
    (r : RunQueue usizeBits schedPrioLevels threadCount) (q : Requests) :
    (s.withPrio t prio r q).flagsOf = s.flagsOf :=
  (setThread_flagsOf s t { s.threads t with prio }).trans (Function.update_eq_self t s.flagsOf)

theorem setState_flagsOf (done : s.setState cpu t state = .ok (s', old)) : s'.flagsOf = s.flagsOf := by
  obtain ⟨-, r, q, rfl⟩ := setState_eq done
  exact withState_flagsOf ..

theorem setPriority_flagsOf (done : s.setPriority cpu t prio = .ok s') : s'.flagsOf = s.flagsOf := by
  rcases setPriority_eq done with ⟨rfl, -⟩ | ⟨r, q, rfl⟩
  · rfl
  · exact withPrio_flagsOf ..

theorem create_flagsOf {stackStart stackLen : Nat} {affinity : Option CoreAffinity}
    (made : s.create cpu stackStart stackLen prio affinity = some (s', t)) : s'.flagsOf = s.flagsOf := by
  unfold create at made
  obtain ⟨tid, -, rest⟩ := Option.bind_eq_some_iff.mp made
  split at rest
  · cases rest
    rw [setThread_flagsOf]
    exact Function.update_eq_self t s.flagsOf
  · cases rest
    rw [setThread_flagsOf]
    exact Function.update_eq_self t s.flagsOf

/-- No thread waits for flags that it has. -/
def FlagsAwaited (s : Scheduler) : Prop := ∀ t, wokenBy (s.stateOf t) (s.flagsOf t) = false

theorem FlagsAwaited.setState (awaited : s.FlagsAwaited) (blocks : wokenBy state (s.flagsOf t) = false)
    (done : s.setState cpu t state = .ok (s', old)) : s'.FlagsAwaited := by
  intro u
  rw [setState_flagsOf done, setState_stateOf done]
  by_cases same : u = t
  · rw [same, Function.update_self]
    exact blocks
  · rw [Function.update_of_ne same]
    exact awaited u

theorem FlagsAwaited.congr (awaited : s.FlagsAwaited) (states : s'.stateOf = s.stateOf)
    (flags : s'.flagsOf = s.flagsOf) : s'.FlagsAwaited := by
  intro u
  rw [states, flags]
  exact awaited u

theorem FlagsAwaited.create {stackStart stackLen : Nat} {affinity : Option CoreAffinity}
    (awaited : s.FlagsAwaited)
    (made : s.create cpu stackStart stackLen prio affinity = some (s', t)) : s'.FlagsAwaited := by
  have flags := create_flagsOf made
  obtain ⟨-, -, thread, rfl, parked, -⟩ := create_ok made
  intro u
  rw [flags, setThread_stateOf]
  by_cases same : u = t
  · rw [same, Function.update_self, parked]
    rfl
  · rw [Function.update_of_ne same]
    exact awaited u

/-- What spares the flags keeps them, and lets no thread wait for any. -/
theorem op_flags {o : Op} (spares : o.sparesFlags = true) (done : o.run cpu s = .ok s') :
    (s.FlagsAwaited → s'.FlagsAwaited) ∧ s'.flagsOf = s.flagsOf := by
  cases o with
  | create stackStart stackLen prio affinity =>
    obtain ⟨⟨s₁, t⟩, made, rest⟩ := bind_ok_iff.mp done
    cases rest
    obtain ⟨s₂, old, slot, set⟩ := createRaw_ok made
    exact ⟨fun awaited => (awaited.create slot).setState rfl set,
      (setState_flagsOf set).trans (create_flagsOf slot)⟩
  | exit =>
    obtain ⟨t, old, -, set⟩ := cleanup_ok done
    exact ⟨fun awaited => awaited.setState rfl set, setState_flagsOf set⟩
  | park =>
    rcases park_ok done with rfl | ⟨t, old, -, set⟩
    · exact ⟨id, rfl⟩
    · exact ⟨fun awaited => awaited.setState rfl set, setState_flagsOf set⟩
  | unpark t =>
    obtain ⟨⟨s₁, found⟩, unparked, rest⟩ := bind_ok_iff.mp done
    cases rest
    rcases unpark_ok unparked with rfl | ⟨-, old, set⟩
    · exact ⟨id, rfl⟩
    · exact ⟨fun awaited => awaited.setState rfl set, setState_flagsOf set⟩
  | setPriority t prio =>
    have flags := setPriority_flagsOf done
    exact ⟨fun awaited => awaited.congr (setPriority_keeps done).1 flags, flags⟩
  | yieldSame | startThreading | fifoToken | enterPendsv | sched =>
    have threads : s'.threads = s.threads := op_threads done
    have flags : s'.flagsOf = s.flagsOf := by funext u; rw [flagsOf, flagsOf, threads]
    have states : s'.stateOf = s.stateOf := by funext u; rw [stateOf, stateOf, threads]
    exact ⟨fun awaited => awaited.congr states flags, flags⟩
  | flagSet _ _ | flagWaitAll _ | flagWaitAny _ | flagWaitOne _ | flagClear _ | sleepUntil _ _
  | wake _ _ => cases spares

theorem setThread_awaited (awaited : s.FlagsAwaited) (t : Nat) (flags : ThreadFlags)
    (fewer : wokenBy (s.stateOf t) flags = false) :
    (s.setThread t { s.threads t with flags }).FlagsAwaited := by
  intro u
  rw [(setThread_flags flags).1.stateOf, setThread_flagsOf]
  by_cases same : u = t
  · rw [same, Function.update_self]
    exact fewer
  · rw [Function.update_of_ne same]
    exact awaited u

theorem flagSet_flags {mask : ThreadFlags} (done : s.flagSet cpu t mask = .ok s') :
    (s.FlagsAwaited → s'.FlagsAwaited) ∧ s'.flagsOf = Function.update s.flagsOf t (s.flagsOf t ||| mask) := by
  unfold flagSet at done
  obtain ⟨thread, read, rest⟩ := bind_ok_iff.mp done
  obtain ⟨-, rfl⟩ := getUnchecked_ok.mp read
  have flags := setThread_flagsOf s t { s.threads t with flags := (s.threads t).flags ||| mask }
  dsimp only at rest
  split at rest
  · obtain ⟨⟨s₁, old⟩, set, rest⟩ := bind_ok_iff.mp rest
    cases rest
    refine ⟨fun awaited u => ?_, (setState_flagsOf set).trans flags⟩
    rw [setState_flagsOf set, setState_stateOf set, flags, (setThread_flags _).1.stateOf]
    by_cases same : u = t
    · rw [same, Function.update_self]
      rfl
    · rw [Function.update_of_ne same, Function.update_of_ne same]
      exact awaited u
  · rename_i missing
    cases rest
    exact ⟨fun awaited => setThread_awaited awaited t _ ((Bool.not_eq_true _).mp missing), flags⟩

theorem wokenBy_fewer {flags mask : ThreadFlags} (awaits : wokenBy state flags = false) :
    wokenBy state (flags &&& ~~~mask) = false := by
  cases state with
  | flagBlocked mode =>
    cases mode with
    | any bits =>
      simp only [wokenBy, bne_eq_false_iff_eq] at awaits ⊢
      have moved : flags &&& ~~~mask &&& bits = (flags &&& bits) &&& ~~~mask := by
        rw [BitVec.and_assoc, BitVec.and_comm _ bits, ← BitVec.and_assoc]
      simp [moved, awaits]
    | all bits =>
      simp only [wokenBy, beq_eq_false_iff_ne, ne_eq] at awaits ⊢
      intro all
      apply awaits
      apply BitVec.eq_of_getLsbD_eq
      intro i bound
      have bit := congrArg (fun x => x.getLsbD i) all
      simp only [BitVec.getLsbD_and] at bit ⊢
      cases wanted : bits.getLsbD i with
      | false => simp
      | true =>
        rw [wanted] at bit
        simp only [Bool.and_true, Bool.and_eq_true] at bit
        simp [bit.1]
  | _ => rfl

theorem flagClear_flags {mask flags : ThreadFlags} (own : s.currentTid cpu = some t)
    (done : s.flagClear cpu mask = .ok (s', flags)) :
    (s.FlagsAwaited → s'.FlagsAwaited) ∧ s'.flagsOf = Function.update s.flagsOf t (s.flagsOf t &&& ~~~mask) := by
  unfold flagClear at done
  obtain ⟨thread, read, rest⟩ := bind_ok_iff.mp done
  obtain ⟨u, own', rfl⟩ := expectCurrent_ok read
  obtain rfl : t = u := Option.some.inj (own.symm.trans own')
  cases rest
  rw [setCurrent_eq own]
  exact ⟨fun awaited => setThread_awaited awaited t _ (wokenBy_fewer (awaited t)),
    setThread_flagsOf ..⟩

end Scheduler

variable {cpu : Cpu} {s s' : Scheduler} {t : Nat} {wait : FlagWait} {mask flags taken : ThreadFlags}

/-- What a wait may return to a thread with these flags. -/
def FlagWait.Takes (mask flags taken : ThreadFlags) : FlagWait → Prop
  | .all => flags &&& mask = mask ∧ taken = mask
  | .any => taken ≠ 0 ∧ taken = flags &&& mask
  | .one => ∃ i, (flags &&& mask).getLsbD i = true ∧ (∀ j < i, (flags &&& mask).getLsbD j = false) ∧
      taken = BitVec.twoPow 16 i

theorem FlagWait.Takes.subset (takes : wait.Takes mask flags taken) {i : Nat}
    (bit : taken.getLsbD i = true) : mask.getLsbD i = true ∧ flags.getLsbD i = true := by
  have both : (flags &&& mask).getLsbD i = true := by
    cases wait with
    | all =>
      obtain ⟨all, rfl⟩ := takes
      rwa [all]
    | any =>
      obtain ⟨-, rfl⟩ := takes
      exact bit
    | one =>
      obtain ⟨k, lowest, -, rfl⟩ := takes
      exact bit_of_twoPow bit ▸ lowest
  rw [BitVec.getLsbD_and, Bool.and_eq_true] at both
  exact both.symm

theorem flagWaitFor_flags {select : ThreadFlags → ThreadFlags} {result : Option ThreadFlags}
    (own : s.currentTid cpu = some t)
    (done : s.flagWaitFor cpu select mask = .ok (s', result)) :
    (s.Named (fun _ => False) → s.FlagsAwaited → s'.FlagsAwaited) ∧
      ((result = none ∧ s'.flagsOf = s.flagsOf) ∨
        (s.flagsOf t &&& mask ≠ 0 ∧ result = some (select (s.flagsOf t &&& mask)) ∧
          s'.flagsOf = Function.update s.flagsOf t
            (s.flagsOf t &&& ~~~(select (s.flagsOf t &&& mask))))) := by
  unfold Scheduler.flagWaitFor at done
  obtain ⟨thread, read, rest⟩ := bind_ok_iff.mp done
  obtain ⟨u, own', rfl⟩ := expectCurrent_ok read
  obtain rfl : t = u := Option.some.inj (own.symm.trans own')
  split at rest
  · rename_i present
    cases rest
    rw [setCurrent_eq own]
    exact ⟨fun _ awaited => setThread_awaited awaited t _ (wokenBy_fewer (awaited t)),
      Or.inr ⟨present, rfl, setThread_flagsOf ..⟩⟩
  · rename_i missing
    obtain ⟨⟨s₁, old⟩, set, rest⟩ := bind_ok_iff.mp rest
    cases rest
    have missing : s.flagsOf t &&& mask = 0 := not_not.mp missing
    refine ⟨fun named awaited => ?_, Or.inl ⟨rfl, setState_flagsOf set⟩⟩
    have self : (s.threads t).tid = t := named.current _ t own
    rw [self] at set
    exact awaited.setState (by simp [wokenBy, missing]) set

/-- One iteration of a wait either takes flags or blocks without them. -/
theorem FlagWait.once_flags {result : Option ThreadFlags} (own : s.currentTid cpu = some t)
    (done : wait.once cpu s mask = .ok (s', result)) :
    (s.Named (fun _ => False) → s.FlagsAwaited → s'.FlagsAwaited) ∧
      ((result = none ∧ s'.flagsOf = s.flagsOf) ∨ ∃ taken, result = some taken ∧
        wait.Takes mask (s.flagsOf t) taken ∧
        s'.flagsOf = Function.update s.flagsOf t (s.flagsOf t &&& ~~~taken)) := by
  cases wait with
  | any =>
    have done : s.flagWaitFor cpu id mask = .ok (s', result) := done
    obtain ⟨awaited', missed | ⟨present, rfl, flags⟩⟩ := flagWaitFor_flags own done
    · exact ⟨awaited', Or.inl missed⟩
    · exact ⟨awaited', Or.inr ⟨_, rfl, ⟨present, rfl⟩, flags⟩⟩
  | one =>
    have done : s.flagWaitFor cpu (fun res => res &&& (~~~res + 1)) mask = .ok (s', result) := done
    obtain ⟨awaited', missed | ⟨present, rfl, flags⟩⟩ := flagWaitFor_flags own done
    · exact ⟨awaited', Or.inl missed⟩
    · obtain ⟨i, -, lowest, below, single⟩ := and_not_add_one present
      exact ⟨awaited', Or.inr ⟨_, rfl, ⟨i, lowest, below, single⟩, flags⟩⟩
  | all =>
    have done : s.flagWaitAll cpu mask = .ok (s', result) := done
    unfold Scheduler.flagWaitAll at done
    obtain ⟨thread, read, rest⟩ := bind_ok_iff.mp done
    obtain ⟨u, own', rfl⟩ := expectCurrent_ok read
    obtain rfl : t = u := Option.some.inj (own.symm.trans own')
    split at rest
    · rename_i present
      cases rest
      rw [setCurrent_eq own]
      exact ⟨fun _ awaited => setThread_awaited awaited t _ (wokenBy_fewer (awaited t)),
        Or.inr ⟨mask, rfl, ⟨present, rfl⟩, setThread_flagsOf ..⟩⟩
    · rename_i missing
      obtain ⟨⟨s₁, old⟩, set, rest⟩ := bind_ok_iff.mp rest
      cases rest
      have missing : ¬ s.flagsOf t &&& mask = mask := missing
      refine ⟨fun named awaited => ?_, Or.inl ⟨rfl, setState_flagsOf set⟩⟩
      have self : (s.threads t).tid = t := named.current _ t own
      rw [self] at set
      exact awaited.setState (by simpa [wokenBy] using missing) set

section Bits

variable {flags : Nat → ThreadFlags} {u i : Nat}

theorem setBit_iff : (Function.update flags u (flags u ||| mask) t).getLsbD i = true ↔
    (u = t ∧ mask.getLsbD i = true) ∨ (flags t).getLsbD i = true := by
  by_cases same : t = u
  · subst same
    rw [Function.update_self, BitVec.getLsbD_or, Bool.or_eq_true]
    exact ⟨fun either => either.symm.imp_left fun set => ⟨rfl, set⟩,
      fun either => (either.imp_left And.right).symm⟩
  · rw [Function.update_of_ne same]
    exact ⟨Or.inr, fun either => either.resolve_left fun here => same here.1.symm⟩

theorem takenBit_iff : (Function.update flags u (flags u &&& ~~~mask) t).getLsbD i = true ↔
    ¬ (u = t ∧ mask.getLsbD i = true) ∧ (flags t).getLsbD i = true := by
  by_cases same : t = u
  · subst same
    rw [Function.update_self, BitVec.getLsbD_and, BitVec.getLsbD_not]
    simp only [Bool.and_eq_true, decide_eq_true_eq, Bool.not_eq_true']
    constructor
    · rintro ⟨set, -, kept⟩
      exact ⟨fun taken => by simp [taken.2] at kept, set⟩
    · rintro ⟨kept, set⟩
      exact ⟨set, BitVec.lt_of_getLsbD set, by simpa using kept⟩
  · rw [Function.update_of_ne same]
    exact ⟨fun set => ⟨fun here => same here.1.symm, set⟩, And.right⟩

end Bits

namespace FlagSystem

variable {config : Config} {sys sys' : FlagSystem}

/-- Whether flag `i` of a thread was set since it was last returned or cleared. -/
def SetSince (t i : Nat) : List FlagRecord → Prop
  | [] => False
  | .set u mask :: log => (u = t ∧ mask.getLsbD i = true) ∨ SetSince t i log
  | .returned u _ _ flags :: log => ¬ (u = t ∧ flags.getLsbD i = true) ∧ SetSince t i log
  | .cleared u mask :: log => ¬ (u = t ∧ mask.getLsbD i = true) ∧ SetSince t i log

/-- The invariant of the runs. -/
structure Accounted (sys : FlagSystem) : Prop where
  named : sys.scheduler.Named fun _ => False
  queue : sys.scheduler.QueueNamed
  awaited : sys.scheduler.FlagsAwaited
  since : ∀ t i, (sys.scheduler.flagsOf t).getLsbD i = true → SetSince t i sys.log

theorem new_accounted (config : Config) : Accounted (new config) where
  named := Named.new config
  queue := queueNamed_new config
  awaited := fun t => rfl
  since := fun t i set => by
    have none : (new config).scheduler.flagsOf t = 0#16 := rfl
    rw [none, BitVec.getLsbD_zero] at set
    cases set

/-- Flags that a record takes away are gone, and the others stay accounted for. -/
theorem Accounted.since_taken (accounted : Accounted sys)
    (flags : s'.flagsOf = Function.update sys.scheduler.flagsOf t
      (sys.scheduler.flagsOf t &&& ~~~taken)) {u i : Nat} (set : (s'.flagsOf u).getLsbD i = true) :
    ¬ (t = u ∧ taken.getLsbD i = true) ∧ SetSince u i sys.log := by
  rw [flags] at set
  exact (takenBit_iff.mp set).imp_right (accounted.since u i)

/-- Flags that are set are accounted for by the record of that. -/
theorem Accounted.since_set (accounted : Accounted sys)
    (flags : s'.flagsOf = Function.update sys.scheduler.flagsOf t (sys.scheduler.flagsOf t ||| mask))
    {u i : Nat} (set : (s'.flagsOf u).getLsbD i = true) :
    (t = u ∧ mask.getLsbD i = true) ∨ SetSince u i sys.log := by
  rw [flags] at set
  exact (setBit_iff.mp set).imp_right (accounted.since u i)

theorem iterate_ok (accounted : Accounted sys) (own : sys.scheduler.currentTid cpu = some t)
    (done : sys.iterate cpu t wait mask = .ok sys') :
    Accounted sys' ∧ (sys'.log = sys.log ∨ ∃ taken, sys'.log = .returned t wait mask taken :: sys.log ∧
      wait.Takes mask (sys.scheduler.flagsOf t) taken ∧ sys'.scheduler.flagsOf =
        Function.update sys.scheduler.flagsOf t (sys.scheduler.flagsOf t &&& ~~~taken)) := by
  obtain ⟨⟨s', result⟩, once, rest⟩ := bind_ok_iff.mp done
  obtain ⟨waits, outcome⟩ := wait.once_flags own once
  have awaited := waits accounted.named accounted.awaited
  have kept : s'.Named (fun _ => False) ∧ s'.QueueNamed := by
    have op : ∃ o : Op, o.run cpu sys.scheduler = .ok s' := by
      cases wait with
      | all => exact ⟨.flagWaitAll mask, bind_ok_iff.mpr ⟨_, once, rfl⟩⟩
      | any => exact ⟨.flagWaitAny mask, bind_ok_iff.mpr ⟨_, once, rfl⟩⟩
      | one => exact ⟨.flagWaitOne mask, bind_ok_iff.mpr ⟨_, once, rfl⟩⟩
    obtain ⟨o, ran⟩ := op
    exact (queueNamed_keeps cpu _).run accounted.named accounted.queue (o.permitted_true _)
      (fun _ _ _ => trivial) (fun _ => trivial) ran
  rcases outcome with ⟨rfl, flags⟩ | ⟨taken, rfl, takes, flags⟩
  · cases rest
    refine ⟨⟨kept.1, kept.2, awaited, fun u i set => ?_⟩, Or.inl rfl⟩
    dsimp only at set
    rw [flags] at set
    exact accounted.since u i set
  · cases rest
    refine ⟨⟨kept.1, kept.2, awaited, fun u i set => ?_⟩, Or.inr ⟨taken, rfl, takes, flags⟩⟩
    exact accounted.since_taken flags set

theorem caller_own {cpu : Cpu} (called : sys.caller cpu = some t) : sys.scheduler.currentTid cpu = some t :=
  executing_own (Option.filter_eq_some_iff.mp called).1

/-- The flags that a wait returns are the ones that it takes. -/
theorem iterate_takes (accounted : Accounted sys) (own : sys.scheduler.currentTid cpu = some t)
    (done : sys.iterate cpu t wait mask = .ok sys') :
    Accounted sys' ∧ ∀ t wait mask taken, sys'.log = .returned t wait mask taken :: sys.log →
      wait.Takes mask (sys.scheduler.flagsOf t) taken ∧ sys'.scheduler.flagsOf =
        Function.update sys.scheduler.flagsOf t (sys.scheduler.flagsOf t &&& ~~~taken) := by
  obtain ⟨accounted', same | ⟨taken, log, takes, flags⟩⟩ := iterate_ok accounted own done
  · refine ⟨accounted', fun t wait mask taken log => ?_⟩
    rw [same] at log
    exact absurd log (List.cons_ne_self _ _).symm
  · refine ⟨accounted', fun t wait mask taken log' => ?_⟩
    rw [log, List.cons.injEq] at log'
    obtain ⟨same, -⟩ := log'
    cases same
    exact ⟨takes, flags⟩

theorem step_ok {e : Nat × FlagEvent} (accounted : Accounted sys) (done : step config e sys = .ok sys') :
    Accounted sys' ∧ ∀ t wait mask taken, sys'.log = .returned t wait mask taken :: sys.log →
      wait.Takes mask (sys.scheduler.flagsOf t) taken ∧ sys'.scheduler.flagsOf =
        Function.update sys.scheduler.flagsOf t (sys.scheduler.flagsOf t &&& ~~~taken) := by
  obtain ⟨core, e⟩ := e
  simp only [step] at done
  split at done
  · cases e with
    | op o =>
      dsimp only at done
      split at done
      · cases done
      · rename_i guard
        obtain ⟨s', ran, rest⟩ := bind_ok_iff.mp done
        cases rest
        have spares : o.sparesFlags = true := by
          by_contra touches
          exact guard (Or.inl touches)
        obtain ⟨awaits, flags⟩ := op_flags spares ran
        obtain ⟨named, queue⟩ := (queueNamed_keeps _ _).run accounted.named accounted.queue
          (o.permitted_true _) (fun _ _ _ => trivial) (fun _ => trivial) ran
        refine ⟨⟨named, queue, awaits accounted.awaited, fun u i set => ?_⟩, fun t wait mask taken log => ?_⟩
        · dsimp only at set
          rw [flags] at set
          exact accounted.since u i set
        · exact absurd log (List.cons_ne_self _ _).symm
    | set t mask =>
      obtain ⟨s', set, rest⟩ := bind_ok_iff.mp done
      cases rest
      obtain ⟨awaits, flags⟩ := flagSet_flags set
      obtain ⟨named, queue⟩ := (queueNamed_keeps ⟨config, core⟩ _).run accounted.named
        accounted.queue (Op.permitted_true (.flagSet t mask) _) (fun _ _ _ => trivial)
        (fun _ => trivial) set
      refine ⟨⟨named, queue, awaits accounted.awaited, fun u i set => ?_⟩,
        fun t wait mask taken log => by cases log⟩
      exact accounted.since_set flags set
    | wait wait mask =>
      dsimp only at done
      split at done
      · cases done
      · rename_i t called
        exact iterate_takes accounted (caller_own called) done
    | waitAgain =>
      dsimp only at done
      split at done
      · cases done
      · rename_i t executes
        split at done
        · cases done
        · exact iterate_takes accounted (executing_own executes) done
    | clear mask =>
      dsimp only at done
      split at done
      · cases done
      · rename_i t own
        obtain ⟨⟨s', flags⟩, cleared, rest⟩ := bind_ok_iff.mp done
        cases rest
        obtain ⟨awaits, flags⟩ := flagClear_flags own cleared
        obtain ⟨named, queue⟩ := (queueNamed_keeps ⟨config, core⟩ _).run accounted.named
          accounted.queue (Op.permitted_true (.flagClear mask) _) (fun _ _ _ => trivial)
          (fun _ => trivial) (bind_ok_iff.mpr ⟨_, cleared, rfl⟩)
        refine ⟨⟨named, queue, awaits accounted.awaited, fun u i set => ?_⟩,
          fun t wait mask taken log => by cases log⟩
        exact accounted.since_taken flags set
  · cases done

/-- Threads only wait for flags that they do not have, and waits return flags that were set. -/
theorem flags_accounted (reached : Reachable (step config) (new config) sys) :
    (∀ t bits, sys.scheduler.stateOf t = .flagBlocked (.any bits) →
      sys.scheduler.flagsOf t &&& bits = 0) ∧
    (∀ t bits, sys.scheduler.stateOf t = .flagBlocked (.all bits) →
      sys.scheduler.flagsOf t &&& bits ≠ bits) ∧
    ∀ e sys', step config e sys = .ok sys' →
      ∀ t wait mask taken, sys'.log = .returned t wait mask taken :: sys.log →
        (∀ i, taken.getLsbD i = true → mask.getLsbD i = true ∧ SetSince t i sys.log) ∧
        wait.Takes mask (sys.scheduler.flagsOf t) taken ∧ sys'.scheduler.flagsOf =
          Function.update sys.scheduler.flagsOf t (sys.scheduler.flagsOf t &&& ~~~taken) := by
  have accounted : Accounted sys := reached.invariant Accounted (new_accounted config)
    fun _ _ _ accounted _ done => (step_ok accounted done).1
  refine ⟨?_, ?_, ?_⟩
  · intro t bits blocked
    have awaits := accounted.awaited t
    rw [blocked] at awaits
    simpa [wokenBy] using awaits
  · intro t bits blocked
    have awaits := accounted.awaited t
    rw [blocked] at awaits
    simpa [wokenBy] using awaits
  · intro e sys' done t wait mask taken log
    obtain ⟨takes, flags⟩ := (step_ok accounted done).2 t wait mask taken log
    refine ⟨fun i bit => ?_, takes, flags⟩
    obtain ⟨asked, present⟩ := takes.subset bit
    exact ⟨asked, accounted.since t i present⟩

/-- Whether the waiting thread 0 returns next, with this record. -/
def returnsNext (record : FlagRecord) (sys : FlagSystem) : Bool :=
  match step .singleCore (0, .waitAgain) sys with
  | .ok sys' => sys'.log = record :: sys.log
  | .error _ => false

/-- Thread 0 waits for one of flags 0 and 2, and an interrupt sets flags 2 and 3. -/
theorem flags_accounted_sample : ∃ sys sys', step .singleCore (0, .waitAgain) sys = .ok sys' ∧
    sys'.log = .returned 0 .one 5 4 :: sys.log ∧ SetSince 0 2 sys.log ∧
    sys'.scheduler.flagsOf 0 = sys.scheduler.flagsOf 0 &&& ~~~4 := by
  have run : ∃ sys, Reachable (step .singleCore) (new .singleCore) sys ∧
      returnsNext (.returned 0 .one 5 4) sys = true :=
    reaches_of_check [(0, .op (.create 0 512 1 none)), (0, .op .startThreading),
      (0, .op .enterPendsv), (0, .op .sched), (0, .wait .one 5), (0, .set 0 12),
      (0, .op .enterPendsv), (0, .op .sched)] (by decide +kernel)
  obtain ⟨sys, reached, next⟩ := run
  unfold returnsNext at next
  split at next
  · rename_i sys' done
    have log : sys'.log = .returned 0 .one 5 4 :: sys.log := by simpa using next
    obtain ⟨bits, -, flags⟩ := (flags_accounted reached).2.2 _ _ done _ _ _ _ log
    exact ⟨sys, sys', done, log, (bits 2 (by decide)).2, by rw [flags, Function.update_self]⟩
  · cases next

end FlagSystem

end ArielOS
