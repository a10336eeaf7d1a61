import ArielOS.Lib.Counted
import ArielOS.Threads.Moves
import ArielOS.Threads.SingleCoreRuns

namespace ArielOS.SingleCore

open Machine Queues Relation Scheduler

variable {s s' : Scheduler} {sys sys' : System} {L L' : Queues Nat} {e : Nat × Event}
  {t p k : Nat}

/-- What a move does to the queues. -/
inductive Shift (current : Option Nat) (L : Queues Nat) : Queues Nat → Prop
  | stays : Shift current L L
  | joins (u q : Nat) : Shift current L (enqueue L u q)
  | leaves {u : Nat} (own : current = some u) : Shift current L (remove L u)

theorem Coherent.move {Ready : Scheduler → Nat → Prop} (coherent : Coherent s L)
    (self : s.SelfNamed cpu) (move : Move cpu Ready s s') :
    ∃ L', Coherent s' L' ∧ Shift (s.currentThreads 0) L L' := by
  cases move with
  | quiet h => exact ⟨L, coherent.quiet h, .stays⟩
  | link | request => exact ⟨L, ⟨coherent.represents, coherent.queued⟩, .stays⟩
  | @ready _ t _ _ set =>
    obtain ⟨-, -, r, q, added, -, rfl⟩ := setState_running_ok set
    obtain ⟨-, -, holds⟩ := ReadyQueue.add_ok coherent.represents coherent.elsewhere added
    exact ⟨_, coherent.started q holds, .joins t _⟩
  | @stop _ t u _ _ own which stops set =>
    obtain rfl : u = t := which.elim id fun same => same.trans (self t own)
    by_cases ready : s.stateOf u = .running
    · obtain ⟨-, -, r, popped, -, rfl⟩ := setState_block_ok stops ready set
      obtain ⟨-, holds⟩ := ReadyQueue.popHead_ok coherent.represents (popped rfl)
      exact ⟨_, coherent.blocked stops _ holds, .leaves own⟩
    · obtain ⟨-, rfl⟩ := setState_idle_ok stops ready set
      exact ⟨L, coherent.idled stops ready _, .stays⟩
  | @create _ _ _ _ t _ made =>
    obtain ⟨-, free, thread, rfl, parked, -⟩ := create_ok made
    refine ⟨L, coherent.unready (t := t) (by simp [free]) rfl ?_ ?_, .stays⟩
    · rw [setThread_stateOf, Function.update_self, parked]
      simp
    · intro u other
      rw [setThread_stateOf, setThread_prioOf, Function.update_of_ne other,
        Function.update_of_ne other]
      exact ⟨rfl, rfl⟩

theorem Shift.ahead {current : Option Nat} (shift : Shift current L L') (off : current ≠ some t)
    (member : t ∈ L p) : t ∈ L' p ∧ (L' p).idxOf t ≤ (L p).idxOf t := by
  cases shift with
  | stays => exact ⟨member, Nat.le_refl _⟩
  | joins u q => exact ⟨mem_enqueue.mpr (Or.inl member), (idxOf_enqueue member).le⟩
  | @leaves u own =>
    have other : t ≠ u := fun same => off (same ▸ own)
    exact ⟨(List.mem_erase_of_ne other).mpr member, idxOf_remove_le other⟩

/-- No thread joins in front of another one, and no other thread than the current one leaves. -/
theorem Coherent.moves {Ready : Scheduler → Nat → Prop} (coherent : Coherent s L)
    (self : s.SelfNamed cpu) (off : s.currentThreads 0 ≠ some t) (member : t ∈ L p)
    (moves : Moves cpu Ready s s') :
    ∃ L', Coherent s' L' ∧ t ∈ L' p ∧ (L' p).idxOf t ≤ (L p).idxOf t := by
  induction moves with
  | refl => exact ⟨L, coherent, member, Nat.le_refl _⟩
  | @tail s₁ s₂ before move ih =>
    obtain ⟨L₁, coherent₁, member₁, le₁⟩ := ih
    obtain ⟨L₂, coherent₂, shift⟩ := coherent₁.move (Moves.self before self) move
    obtain ⟨member₂, le₂⟩ := shift.ahead (Moves.currentThreads before ▸ off) member₁
    exact ⟨L₂, coherent₂, member₂, le₂.trans le₁⟩

/-- The thread is ready at the priority, and has to wait for its turn. -/
structure Waits (t p : Nat) (s : Scheduler) : Prop where
  ready : s.stateOf t = .running
  level : s.prioOf t = p
  off : s.currentThreads 0 ≠ some t

theorem Waits.member (waits : Waits t p s) (coherent : Coherent s L) : t ∈ L p :=
  coherent.queued.mpr ⟨waits.ready, waits.level⟩

/-- Another thread changes its priority. -/
theorem Coherent.setPriority {u prio : Nat} (coherent : Coherent s L) (waits : Waits t p s)
    (waits' : Waits t p s') (done : s.setPriority cpu u prio = .ok s') :
    ∃ L', Coherent s' L' ∧ (L' p).idxOf t ≤ (L p).idxOf t := by
  rcases setPriority_ok done with ⟨rfl, -⟩ | ⟨-, -, changed, ⟨stopped, rfl⟩ |
    ⟨-, _, _, _, multi, -⟩ | ⟨ready, r, moved, outcome⟩⟩
  · exact ⟨L, coherent, Nat.le_refl _⟩
  · refine ⟨L, coherent.unready stopped rfl ?_ ?_, Nat.le_refl _⟩
    · rwa [withPrio_stateOf]
    · intro w other
      rw [withPrio_stateOf, withPrio_prioOf, Function.update_of_ne other]
      exact ⟨rfl, rfl⟩
  · cases multi
  have holds := ReadyQueue.requeue_ok coherent.represents moved
  have made : ∃ q, s' = s.withPrio u prio r q := by
    rcases outcome with ⟨-, -, rfl⟩ | ⟨-, -, scheduled⟩ | ⟨-, -, rfl⟩
    · exact ⟨_, rfl⟩
    · obtain ⟨q, rfl⟩ := scheduleIfHigherPrio_ok scheduled
      exact ⟨q, rfl⟩
    · exact ⟨_, rfl⟩
  obtain ⟨q, rfl⟩ := made
  have other : t ≠ u := by
    rintro rfl
    have level := waits'.level
    rw [withPrio_prioOf, Function.update_self] at level
    exact changed (waits.level.trans level.symm)
  have stays : t ∈ remove L u p := (List.mem_erase_of_ne other).mpr (waits.member coherent)
  refine ⟨_, coherent.reprioritised ready q holds, ?_⟩
  rw [idxOf_enqueue stays]
  exact idxOf_remove_le other

def yields : Event → Bool
  | .op .yieldSame => true
  | _ => false

/-- A `yield_same` of a thread with the same priority. -/
def passes (t : Nat) (e : Nat × Event) (sys : System) : Nat :=
  if yields e.2 ∧ (sys.scheduler.executing ⟨.singleCore, e.1⟩).any fun c =>
      sys.scheduler.prioOf c = sys.scheduler.prioOf t then 1 else 0

/-- Only the thread that is executed yields. -/
def YieldsExecuting (e : Nat × Event) (sys : System) : Prop :=
  yields e.2 = true → sys.scheduler.executing ⟨.singleCore, e.1⟩ ≠ none

instance : Decidable (YieldsExecuting e sys) := inferInstanceAs (Decidable (_ → _))

theorem executing_isTop (inv : Invariant s) (coherent : Coherent s L) {c : Nat}
    (executes : s.executing cpu = some c) : s.currentThreads 0 = some c ∧ IsTop L c := by
  obtain ⟨L₀, coherent₀, settled⟩ := inv
  unfold executing at executes
  split at executes
  · cases executes
  · rename_i idle
    simp only [not_or, Bool.not_eq_true] at idle
    have own : s.currentThreads 0 = some c := executes
    have first := (ReadyQueue.getNext_eq_some coherent₀.represents).mpr
      (settled c own idle.1 idle.2)
    exact ⟨own, (ReadyQueue.getNext_eq_some coherent.represents).mp first⟩

/-- A yield of the executed thread brings each other thread of its priority forward. -/
theorem Coherent.yieldSame {c : Nat} (coherent : Coherent s L) (waits : Waits t p s)
    (own : s.currentThreads 0 = some c) (top : IsTop L c)
    (done : s.yieldSame cpu = .ok s') :
    ∃ L', Coherent s' L' ∧
      (L' p).idxOf t + (if s.prioOf c = p then 1 else 0) ≤ (L p).idxOf t := by
  have current : s.current cpu = some (s.threads c) := by
    simp [Scheduler.current, currentTid, cpu, own]
  unfold Scheduler.yieldSame at done
  rw [current] at done
  dsimp only [cpu] at done
  obtain ⟨⟨r, advanced⟩, moved, rest⟩ := bind_ok_iff.mp done
  obtain ⟨-, holds⟩ := ReadyQueue.advance_ok coherent.represents moved
  have kept : s'.runqueue = r ∧ s'.threads = s.threads := by
    cases rest
    dsimp only
    split
    · exact ⟨rfl, rfl⟩
    · exact ⟨rfl, rfl⟩
  have coherent' : Coherent s' (rotate L (s.prioOf c)) := by
    refine ⟨kept.1 ▸ holds, fun {u q} => ?_⟩
    rw [mem_rotate, coherent.queued, stateOf, stateOf, prioOf, prioOf, kept.2]
  refine ⟨_, coherent', ?_⟩
  by_cases level : s.prioOf c = p
  · obtain ⟨q, first, -⟩ := top
    obtain rfl : q = p := (coherent.elsewhere q (List.mem_of_head? first)).trans level
    have other : t ≠ c := fun same => waits.off (same ▸ own)
    rw [if_pos level, level, idxOf_rotate first other (waits.member coherent)]
  · rw [if_neg level, rotate, Function.update_of_ne (Ne.symm level)]
    exact Nat.le_refl _

/-- A step brings a waiting thread forward by the yields that pass, or further. -/
theorem step_ahead (named : sys.scheduler.Named sys.heads) (inv : Invariant sys.scheduler)
    (permitted : YieldsExecuting e sys) (done : System.step .singleCore e sys = .ok sys')
    (waits : Waits t p sys.scheduler) (waits' : Waits t p sys'.scheduler)
    (coherent : Coherent sys.scheduler L) :
    ∃ L', Coherent sys'.scheduler L' ∧ (L' p).idxOf t + passes t e sys ≤ (L p).idxOf t := by
  obtain ⟨core, event⟩ := e
  obtain ⟨bound, -, ran⟩ := System.step_ok done
  obtain rfl : core = 0 := Nat.lt_one_iff.mp bound
  by_cases plain : event.plain = true
  · obtain ⟨L', coherent', -, le⟩ :=
      coherent.moves named.self waits.off (waits.member coherent) (Event.run_moves_true plain ran)
    have other : yields event = false := by
      unfold yields
      split
      · cases plain
      · rfl
    refine ⟨L', coherent', ?_⟩
    simpa [passes, other] using le
  cases event with
  | op o =>
    obtain ⟨s, changed, rfl⟩ := Event.run_op ran
    cases o with
    | setPriority u prio => exact coherent.setPriority waits waits' changed
    | yieldSame =>
      obtain ⟨c, executes⟩ := Option.ne_none_iff_exists'.mp (permitted rfl)
      obtain ⟨own, top⟩ := executing_isTop inv coherent executes
      have passing : passes t (0, .op .yieldSame) sys =
          if sys.scheduler.prioOf c = p then 1 else 0 := by
        simp [passes, yields, executes, waits.level]
      rw [passing]
      exact coherent.yieldSame waits own top changed
    | sched =>
      obtain ⟨-, s₁, passed, once, rfl⟩ := sched_ok changed
      refine ⟨L, ?_, Nat.le_refl _⟩
      rcases schedOnce_single rfl once with ⟨-, rfl, rfl⟩ | ⟨n, -, rfl, rfl⟩
      · exact coherent
      · exact ⟨coherent.represents, coherent.queued⟩
    | _ => exact absurd rfl plain
  | _ => exact absurd rfl plain

/-- A run throughout which the thread waits, with the number of yields that pass. -/
abbrev Waiting (t p : Nat) : System → System → Nat → Prop :=
  Counted (System.step .singleCore) YieldsExecuting (fun sys => Waits t p sys.scheduler)
    fun e sys _ => passes t e sys

theorem Waiting.ahead (waiting : Waiting t p sys sys' k)
    (reached : Reachable (System.step .singleCore) (.new .singleCore) sys)
    (coherent : Coherent sys.scheduler L) :
    ∃ L', Coherent sys'.scheduler L' ∧ t ∈ L' p ∧ (L' p).idxOf t + k ≤ (L p).idxOf t := by
  obtain ⟨m, waits, ⟨L', coherent', place⟩, le⟩ := Counted.bounded
    (fun sys => Reachable (System.step .singleCore) (.new .singleCore) sys)
    (fun sys n => ∃ L, Coherent sys.scheduler L ∧ (L p).idxOf t = n)
    (fun _ e _ reached _ done => reached.next e trivial done)
    (fun _ e _ n reached yields waits waits' done place => by
      obtain ⟨L, coherent, rfl⟩ := place
      obtain ⟨named, inv⟩ := reachable_invariant reached
      obtain ⟨L₁, coherent₁, le⟩ := step_ahead named inv yields done waits waits' coherent
      exact ⟨_, ⟨L₁, coherent₁, rfl⟩, le⟩)
    waiting reached ⟨L, coherent, rfl⟩
  exact ⟨L', coherent', waits.member coherent', place ▸ le⟩

/-- The number of ready threads with the priority. -/
def readyAt (s : Scheduler) (p : Nat) : Nat :=
  (List.range threadCount).countP fun t => s.stateOf t = .running ∧ s.prioOf t = p

theorem Coherent.length_eq (coherent : Coherent s L) (p : Nat) : (L p).length = readyAt s p := by
  unfold readyAt
  rw [List.countP_eq_length_filter]
  apply List.Perm.length_eq
  rw [List.perm_ext_iff_of_nodup (coherent.represents.queues.separate.nodup p)
    (List.nodup_range.filter _)]
  intro t
  simp only [List.mem_filter, List.mem_range, decide_eq_true_eq, coherent.queued]
  apply Iff.intro
  · intro ready
    exact ⟨coherent.represents.queues.thread_lt (coherent.queued.mpr ready), ready⟩
  · exact fun here => here.2

/-- Round-robin: while a ready thread waits, fewer yields of threads of its priority pass than there
    were ready ones when it began to wait, by the number of threads that are still ahead of it. -/
theorem bounded_waiting (reached : Reachable (System.step .singleCore) (.new .singleCore) sys)
    (waiting : Waiting t p sys sys' k) : ∃ L, sys'.scheduler.runqueue.Represents L ∧ t ∈ L p ∧
      (L p).idxOf t + k < readyAt sys.scheduler p := by
  obtain ⟨-, L, coherent, -⟩ := reachable_invariant reached
  obtain ⟨L', coherent', member, le⟩ := waiting.ahead reached coherent
  have bound := List.idxOf_lt_length_of_mem ((Counted.holds waiting).member coherent)
  rw [coherent.length_eq] at bound
  exact ⟨L', coherent'.represents, member, le.trans_lt bound⟩

section Samples

instance : Decidable (Waits t p s) :=
  decidable_of_iff (s.stateOf t = .running ∧ s.prioOf t = p ∧ s.currentThreads 0 ≠ some t)
    ⟨fun ⟨ready, level, off⟩ => ⟨ready, level, off⟩, fun waits => ⟨waits.ready, waits.level, waits.off⟩⟩

def threeStart : List (Nat × Event) :=
  [(0, .op (.create 0 512 2 none)), (0, .op (.create 512 512 2 none)),
    (0, .op (.create 1024 512 2 none)), (0, .op .startThreading), (0, .op .enterPendsv),
    (0, .op .sched)]

def twoYield : List (Nat × Event) :=
  [(0, .op .yieldSame), (0, .op .enterPendsv), (0, .op .sched), (0, .op .yieldSame)]

/-- Two of three threads yield before it is the turn of the third one. -/
theorem bounded_waiting_sample : ∃ (sys sys' : System) (L : Queues Nat),
    readyAt sys.scheduler 2 = 3 ∧ Waiting 2 2 sys sys' 2 ∧
      sys'.scheduler.runqueue.Represents L ∧ (L 2).idxOf 2 + 2 < readyAt sys.scheduler 2 := by
  have run : ∃ sys, Reachable (System.step .singleCore) (.new .singleCore) sys ∧
      (readyAt sys.scheduler 2 == 3 &&
        (Counted.runCounted (System.step .singleCore) YieldsExecuting
          (fun sys => Waits 2 2 sys.scheduler) (fun e sys _ => passes 2 e sys) twoYield sys).any
          fun last => last.2 == 2) = true :=
    reaches_of_check threeStart (by decide +kernel)
  obtain ⟨sys, reached, checked⟩ := run
  simp only [Bool.and_eq_true, beq_iff_eq, Option.any_eq_true] at checked
  obtain ⟨three, ⟨sys', k⟩, waited, rfl⟩ := checked
  have waiting : Waiting 2 2 sys sys' 2 := Counted.of_runCounted waited
  obtain ⟨L, represents, -, bound⟩ := bounded_waiting reached waiting
  exact ⟨sys, sys', L, three, waiting, represents, bound⟩

end Samples

end ArielOS.SingleCore
