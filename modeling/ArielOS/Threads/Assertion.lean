import ArielOS.Threads.SingleCore

namespace ArielOS.SingleCore

open Machine Queues Scheduler

variable {s s' : Scheduler} {L : Queues Nat} {t prio : Nat} {state old : ThreadState}
  {list : ThreadList} {sys : System}

/-- The `assert_eq!` in `RunQueue::pop_head` does not fail. -/
def Holds {α : Type} (x : Except Fault α) : Prop := x ≠ .error .poppedOtherThread

theorem Holds.bind {α β : Type} {x : Except Fault α} {f : α → Except Fault β} (first : Holds x)
    (rest : ∀ a, x = .ok a → Holds (f a)) : Holds (x >>= f) := bind_ne_error first rest

theorem holds_ok {α : Type} (a : α) : Holds (.ok a : Except Fault α) := ok_ne_error a _

theorem holds_pure {α : Type} (a : α) : Holds (pure a : Except Fault α) := ok_ne_error a _

theorem getUnchecked_holds (s : Scheduler) (t : Nat) : Holds (s.getUnchecked t) := by
  unfold getUnchecked
  split <;> simp [Holds]

theorem expectCurrent_holds (s : Scheduler) : Holds (s.expectCurrent cpu) := by
  unfold expectCurrent
  split <;> simp [Holds]

theorem scheduleIfHigherPrio_holds (s : Scheduler) (t prio : Nat) :
    Holds (s.scheduleIfHigherPrio cpu t prio) := by
  simp only [scheduleIfHigherPrio, cpu]
  split <;> simp [Holds]

theorem add_holds {r : RunQueue usizeBits schedPrioLevels threadCount} {n q : Nat}
    (h : r.Represents L) (elsewhere : ∀ p, n ∈ L p → p = q) : Holds (r.add n q) := by
  intro failed
  cases ReadyQueue.add_error h elsewhere failed

theorem setState_running_holds (coherent : Coherent s L) : Holds (s.setState cpu t .running) := by
  unfold setState
  apply (getUnchecked_holds s t).bind
  intro thread read
  obtain ⟨-, rfl⟩ := getUnchecked_ok.mp read
  apply (add_holds coherent.represents coherent.elsewhere).bind
  intro r _
  apply (scheduleIfHigherPrio_holds _ _ _).bind
  intro s₁ _
  exact holds_pure _

theorem setState_stop_holds (coherent : Coherent s L)
    (front : s.stateOf t = .running → (L (s.prioOf t)).head? = some t)
    (stops : state ≠ .running) : Holds (s.setState cpu t state) := by
  unfold setState
  apply (getUnchecked_holds s t).bind
  intro thread read
  obtain ⟨bound, rfl⟩ := getUnchecked_ok.mp read
  simp only [stops, ↓reduceIte]
  split
  · rename_i ready
    split
    · simp [Holds]
    · have head := front ready
      have queue := coherent.represents.queues.queue_lt (List.mem_of_head? head)
      obtain ⟨r, popped, -⟩ := RunQueue.popHead_spec coherent.represents ReadyQueue.small bound
        queue head
      have popped : s.runqueue.popHead t (s.threads t).prio = .ok r := popped
      simp only [cpu]
      apply Holds.bind
      · rw [show (s.setThread t _).runqueue = s.runqueue from rfl, popped]
        exact holds_ok r
      · intro r' _
        exact holds_pure _
  · exact holds_pure _

/-- The current thread is ready and at the head of its queue. -/
def Fronted (s : Scheduler) : Prop :=
  ∃ L, Coherent s L ∧ ∀ c, s.currentThreads 0 = some c → (L (s.prioOf c)).head? = some c

theorem fronted_quiet (fronted : Fronted s) (h : Quiet s s') : Fronted s' := by
  obtain ⟨L, coherent, front⟩ := fronted
  refine ⟨L, coherent.quiet h, ?_⟩
  intro c own
  rw [h.currentThreads] at own
  rw [h.prioOf]
  exact front c own

theorem fronted_ready (fronted : Fronted s) (done : s.setState cpu t .running = .ok (s', old)) :
    Fronted s' := by
  obtain ⟨L, coherent, front⟩ := fronted
  obtain ⟨-, -, r, q, added, -, rfl⟩ := setState_running_ok done
  obtain ⟨-, -, holds⟩ := ReadyQueue.add_ok coherent.represents coherent.elsewhere added
  refine ⟨_, coherent.started q holds, ?_⟩
  intro c own
  rw [withState_prioOf]
  exact head_enqueue (front c own)

theorem fronted_link (i : Nat) (next : Option Nat) (fronted : Fronted s) :
    Fronted (ThreadList.link s i next) := by
  obtain ⟨L, coherent, front⟩ := fronted
  exact ⟨L, ⟨coherent.represents, coherent.queued⟩, front⟩

theorem fronted_wake {now : Nat} (fronted : Fronted s) (done : s.wake cpu t now = .ok s') :
    Fronted s' := by
  rcases wake_ok done with ⟨-, rfl⟩ | ⟨-, s₁, quiet, -, ⟨-, rfl⟩ | ⟨-, old, set⟩⟩
  · exact fronted
  · exact fronted_quiet fronted quiet
  · exact fronted_ready (fronted_quiet fronted quiet) set

theorem fronted_wakeAll {expired : List (Nat × Nat)} (fronted : Fronted s)
    (done : wakeAll cpu expired s = .ok s') : Fronted s' := by
  induction expired generalizing s with
  | nil => cases done; exact fronted
  | cons first expired ih =>
    obtain ⟨s₁, woken, rest⟩ := bind_ok_iff.mp done
    exact ih (fronted_wake fronted woken) rest

/-- While a thread is executed, it is the one to run, and so in front. -/
theorem fronted_of_executing (inv : Invariant s) (executes : s.executing cpu = some t) :
    Fronted s := by
  obtain ⟨L, coherent, settled⟩ := inv
  unfold executing at executes
  split at executes
  · cases executes
  · rename_i idle
    simp only [not_or, Bool.not_eq_true] at idle
    refine ⟨L, coherent, ?_⟩
    intro c own
    obtain ⟨q, first, -⟩ := settled c own idle.1 idle.2
    rwa [← coherent.elsewhere q (List.mem_of_head? first)]

theorem flagSet_holds (mask : ThreadFlags) (coherent : Coherent s L) :
    Holds (s.flagSet cpu t mask) := by
  unfold flagSet
  apply (getUnchecked_holds s t).bind
  intro thread read
  obtain ⟨-, rfl⟩ := getUnchecked_ok.mp read
  dsimp only
  split
  · apply (setState_running_holds (coherent.quiet (setThread_flags _).1)).bind
    intro out _
    exact holds_pure _
  · exact holds_pure _

theorem wake_holds (now : Nat) (coherent : Coherent s L) : Holds (s.wake cpu t now) := by
  unfold wake
  apply (getUnchecked_holds s t).bind
  intro thread read
  obtain ⟨-, rfl⟩ := getUnchecked_ok.mp read
  split
  · have cleared := coherent.quiet (quiet_withoutDeadline s t)
    apply (flagSet_holds threadFlagTimeout cleared).bind
    intro s₂ set
    obtain ⟨-, s₁, quiet, -, outcome⟩ := flagSet_ok set
    have coherent₂ : ∃ L₂, Coherent s₂ L₂ := by
      rcases outcome with rfl | ⟨-, old, awake⟩
      · exact ⟨L, cleared.quiet quiet⟩
      · obtain ⟨-, -, r, q, added, -, rfl⟩ := setState_running_ok awake
        have before := cleared.quiet quiet
        exact ⟨_, before.started q
          (ReadyQueue.add_ok before.represents before.elsewhere added).2.2⟩
    obtain ⟨L₂, coherent₂⟩ := coherent₂
    split
    · exact holds_pure _
    · apply (setState_running_holds coherent₂).bind
      intro out _
      exact holds_pure _
  · exact holds_pure _

theorem wakeAll_holds (expired : List (Nat × Nat)) (fronted : Fronted s) :
    Holds (wakeAll cpu expired s) := by
  induction expired generalizing s with
  | nil => exact holds_ok s
  | cons first expired ih =>
    have ⟨L, coherent, _⟩ := fronted
    apply (wake_holds first.2 coherent).bind
    intro s₁ woken
    exact ih (fronted_wake fronted woken)

theorem stop_holds (fronted : Fronted s) (own : s.currentTid cpu = some t)
    (stops : state ≠ .running) : Holds (s.setState cpu t state) := by
  obtain ⟨L, coherent, front⟩ := fronted
  exact setState_stop_holds coherent (fun _ => front t own) stops

theorem park_holds (fronted : Fronted s) : Holds (s.park cpu) := by
  unfold park
  split
  · exact holds_pure _
  · rename_i t own
    apply (stop_holds fronted own (by simp)).bind
    intro out _
    exact holds_pure _

theorem cleanup_holds (fronted : Fronted s) : Holds (s.cleanup cpu) := by
  unfold cleanup
  split
  · simp [Holds]
  · rename_i t own
    apply (stop_holds fronted own (by simp)).bind
    intro out _
    exact holds_pure _

section Blocking

variable {refs : Nat → Prop} (named : s.Named refs) (fronted : Fronted s)

include named fronted

theorem flagWaitAll_holds (mask : ThreadFlags) : Holds (s.flagWaitAll cpu mask) := by
  unfold flagWaitAll
  apply (expectCurrent_holds s).bind
  intro thread read
  obtain ⟨t, own, rfl⟩ := expectCurrent_ok read
  split
  · exact holds_pure _
  · have self : (s.threads t).tid = t := named.current _ t own
    rw [self]
    apply (stop_holds fronted own (by simp)).bind
    intro out _
    exact holds_pure _

theorem flagWaitFor_holds (select : ThreadFlags → ThreadFlags) (mask : ThreadFlags) :
    Holds (s.flagWaitFor cpu select mask) := by
  unfold flagWaitFor
  apply (expectCurrent_holds s).bind
  intro thread read
  obtain ⟨t, own, rfl⟩ := expectCurrent_ok read
  split
  · exact holds_pure _
  · have self : (s.threads t).tid = t := named.current _ t own
    rw [self]
    apply (stop_holds fronted own (by simp)).bind
    intro out _
    exact holds_pure _

omit named fronted in
theorem seek_holds (prio : Nat) {fuel : Nat} {curr next : Option Nat} :
    Holds (ThreadList.seek s prio fuel curr next) := by
  induction fuel generalizing curr next with
  | zero => simp [Holds, ThreadList.seek]
  | succ fuel ih =>
    cases next with
    | none => exact holds_pure _
    | some n =>
      apply (getUnchecked_holds s n).bind
      intro thread _
      split
      · exact holds_pure _
      · exact ih

theorem putCurrent_holds (stops : state ≠ .running) :
    Holds (list.putCurrent cpu s state) := by
  unfold ThreadList.putCurrent
  apply (expectCurrent_holds s).bind
  intro thread read
  obtain ⟨t, own, rfl⟩ := expectCurrent_ok read
  have self : (s.threads t).tid = t := named.current _ t own
  dsimp only
  rw [self]
  apply (seek_holds _).bind
  intro ⟨curr, next⟩ _
  cases curr with
  | none =>
    have fronted₁ := fronted_link t next fronted
    apply (stop_holds fronted₁ own stops).bind
    intro out _
    exact holds_pure _
  | some c =>
    have fronted₂ := fronted_link c (some t) (fronted_link t next fronted)
    apply (stop_holds fronted₂ own stops).bind
    intro out _
    exact holds_pure _

omit named in
theorem setDeadline_holds (deadline : Nat) (expired : List (Nat × Nat)) :
    Holds (s.setDeadline cpu deadline expired) := by
  unfold setDeadline
  have armable : Holds (s.armDeadline cpu deadline) := by
    apply (expectCurrent_holds s).bind
    intro thread _
    exact holds_pure _
  apply armable.bind
  intro s₁ armed
  have fronted₁ := fronted_quiet fronted (armDeadline_ok armed).1
  apply (wakeAll_holds expired fronted₁).bind
  intro s₂ woken
  apply (expectCurrent_holds s₂).bind
  intro thread _
  exact holds_pure _

omit named in
theorem clearDeadline_holds (expired : List (Nat × Nat)) :
    Holds (s.clearDeadline cpu expired) := by
  unfold clearDeadline
  apply (expectCurrent_holds s).bind
  intro thread read
  obtain ⟨t, own, rfl⟩ := expectCurrent_ok read
  rw [setCurrent_eq own]
  dsimp only
  split
  · apply (wakeAll_holds expired (fronted_quiet fronted (quiet_withoutDeadline s t))).bind
    intro s₁ _
    exact holds_pure _
  · exact holds_pure _

end Blocking

theorem removeCurrent_holds (coherent : Coherent s L) : Holds (list.removeCurrent cpu s) := by
  have linked : ∀ {s : Scheduler} {i : Nat} {next : Option Nat},
      Coherent s L → Coherent (ThreadList.link s i next) L :=
    fun h => ⟨h.represents, h.queued⟩
  have searched : ∀ {fuel t cur : Nat}, Holds (ThreadList.findBefore s t fuel cur) := by
    intro fuel t cur
    induction fuel generalizing cur with
    | zero => simp [Holds, ThreadList.findBefore]
    | succ fuel ih =>
      unfold ThreadList.findBefore
      split
      · exact holds_pure _
      · split
        · exact holds_pure _
        · exact ih
  unfold ThreadList.removeCurrent
  split
  · simp [Holds]
  · unfold ThreadList.removeInner
    split
    · exact holds_pure _
    · split
      · apply (setState_running_holds (linked coherent)).bind
        intro out _
        exact holds_pure _
      · apply searched.bind
        intro found _
        cases found with
        | none => exact holds_pure _
        | some before =>
          apply (setState_running_holds (linked (linked coherent))).bind
          intro out _
          exact holds_pure _

theorem pop_holds (coherent : Coherent s L) : Holds (list.pop cpu s) := by
  unfold ThreadList.pop
  split
  · exact holds_pure _
  · rename_i head _
    have linked : Coherent (ThreadList.link s head none) L :=
      ⟨coherent.represents, coherent.queued⟩
    apply (setState_running_holds linked).bind
    intro out _
    exact holds_pure _

theorem createRaw_holds (stackStart stackLen prio : Nat) (affinity : Option CoreAffinity)
    (inv : Invariant s) : Holds (s.createRaw cpu stackStart stackLen prio affinity) := by
  unfold createRaw
  split
  · simp [Holds]
  · rename_i s₁ tid made
    obtain ⟨L, coherent, -⟩ := invariant_create inv made
    apply (setState_running_holds coherent).bind
    intro out _
    exact holds_pure _

/-- `set_priority` only pops the head of a queue that it has just read. -/
theorem setPriority_holds (coherent : Coherent s L) : Holds (s.setPriority cpu t prio) := by
  unfold setPriority
  cases valid : s.isValidTid t with
  | false => simp [Holds]
  | true =>
    simp only [Bool.not_true, Bool.false_eq_true, ↓reduceIte]
    obtain ⟨bound, -⟩ := isValidTid_iff.mp valid
    apply (getUnchecked_holds s t).bind
    intro thread read
    obtain ⟨-, rfl⟩ := getUnchecked_ok.mp read
    split
    · exact holds_pure _
    split
    · exact holds_pure _
    rename_i ready
    have ready : s.stateOf t = .running := not_not.mp ready
    have member : t ∈ L (s.prioOf t) := coherent.queued.mpr ⟨ready, rfl⟩
    have queue := coherent.represents.queues.queue_lt member
    have moved : Holds (requeue s.runqueue t (s.prioOf t) prio) := by
      have left := fun {r : RunQueue usizeBits schedPrioLevels threadCount}
        (h : r.Represents (remove L t)) => add_holds (n := t) (q := prio) h fun p here =>
          absurd rfl ((mem_remove coherent.represents.queues.separate).mp here).2
      unfold requeue
      rw [RunQueue.peekHead_spec coherent.represents ReadyQueue.small queue]
      by_cases head : (L (s.prioOf t)).head? = some t
      · obtain ⟨r, popped, _⟩ := RunQueue.popHead_spec coherent.represents ReadyQueue.small bound
          queue head
        simp only [ok_bind, head, ↓reduceIte, popped]
        exact left (ReadyQueue.popHead_ok coherent.represents popped).2
      · obtain ⟨r, deleted, holds⟩ := RunQueue.del_spec coherent.represents ReadyQueue.small bound
        simp only [ok_bind, head, ↓reduceIte, deleted]
        exact left holds
    simp only [cpu]
    apply moved.bind
    intro r _
    split
    · exact holds_pure _
    · split
      · exact scheduleIfHigherPrio_holds _ _ _
      · exact holds_pure _

theorem yieldSame_holds (coherent : Coherent s L) : Holds (s.yieldSame cpu) := by
  unfold yieldSame
  split
  · exact holds_pure _
  · rename_i thread _
    simp only [cpu]
    have advanced : Holds (s.runqueue.advance thread.prio) := by
      by_cases queue : thread.prio < schedPrioLevels
      · obtain ⟨r, moved, -⟩ := RunQueue.advance_spec coherent.represents ReadyQueue.small queue
        rw [moved]
        exact holds_ok _
      · simp [Holds, RunQueue.advance, RunQueue.checkQueue, queue]
    apply advanced.bind
    intro out _
    exact holds_pure _

theorem sched_holds (coherent : Coherent s L) : Holds (s.sched cpu) := by
  unfold sched
  split
  · simp [Holds]
  · have read : Holds (s.getNextTid cpu) := by
      apply Holds.bind
      · rw [RunQueue.getNext_spec coherent.represents ReadyQueue.small]
        exact holds_ok _
      · intro next _
        exact holds_pure _
    have once : Holds (s.schedOnce cpu) := by
      apply (holds_pure s).bind
      intro s₁ same
      obtain rfl : s = s₁ := Except.ok.inj same
      apply read.bind
      intro ⟨s₂, next⟩ _
      cases next with
      | none => exact holds_pure _
      | some n =>
        dsimp only
        split <;> exact holds_pure _
    apply once.bind
    intro out _
    exact holds_pure _

theorem op_holds {refs : Nat → Prop} {op : Op} (named : s.Named refs) (inv : Invariant s)
    (blocks : op.blocking = true → Fronted s) : Holds (op.run cpu s) := by
  have ⟨L, coherent, _⟩ := inv
  cases op with
  | create stackStart stackLen prio affinity =>
    exact (createRaw_holds stackStart stackLen prio affinity inv).bind fun _ _ => holds_pure _
  | exit => exact cleanup_holds (blocks rfl)
  | park => exact park_holds (blocks rfl)
  | unpark t =>
    have unparked : Holds (s.unpark cpu t) := by
      unfold unpark
      split
      · exact (setState_running_holds coherent).bind fun _ _ => holds_pure _
      · exact holds_pure _
    exact unparked.bind fun _ _ => holds_pure _
  | setPriority t prio => exact setPriority_holds coherent
  | yieldSame => exact yieldSame_holds coherent
  | flagSet t mask => exact flagSet_holds mask coherent
  | flagWaitAll mask =>
    exact (flagWaitAll_holds named (blocks rfl) mask).bind fun _ _ => holds_pure _
  | flagWaitAny mask =>
    exact (flagWaitFor_holds named (blocks rfl) _ mask).bind fun _ _ => holds_pure _
  | flagWaitOne mask =>
    exact (flagWaitFor_holds named (blocks rfl) _ mask).bind fun _ _ => holds_pure _
  | flagClear mask =>
    have cleared : Holds (s.flagClear cpu mask) :=
      (expectCurrent_holds s).bind fun _ _ => holds_pure _
    exact cleared.bind fun _ _ => holds_pure _
  | sleepUntil deadline expired =>
    apply (setDeadline_holds (blocks rfl) deadline expired).bind
    intro ⟨s₂, inFuture⟩ armed
    obtain ⟨s₁, arm, woken⟩ := setDeadline_ok armed
    have fronted := fronted_wakeAll (fronted_quiet (blocks rfl) (armDeadline_ok arm).1) woken
    dsimp only
    split
    · exact park_holds fronted
    · exact holds_pure _
  | wake t now => exact wake_holds now coherent
  | startThreading =>
    simp only [Op.run, startThreading]
    split <;> simp [Holds]
  | fifoToken =>
    simp only [Op.run, handleFifoToken]
    split <;> simp [Holds]
  | enterPendsv =>
    simp only [Op.run, enterPendsv]
    split <;> simp [Holds]
  | sched => exact sched_holds coherent

theorem event_holds {refs : Nat → Prop} {e : Event} (named : sys.scheduler.Named refs)
    (inv : Invariant sys.scheduler) (blocks : e.blocking = true → Fronted sys.scheduler) :
    Holds (e.run cpu sys) := by
  have ⟨L, coherent, _⟩ := inv
  cases e with
  | op o =>
    simp only [Event.run]
    split
    · simp [Holds]
    · exact (op_holds named inv blocks).bind fun _ _ => holds_pure _
  | setupIdleThread stackStart stackLen =>
    simp only [Event.run]
    split
    · simp [Holds]
    · exact (createRaw_holds stackStart stackLen 0 none inv).bind fun _ _ => holds_pure _
  | putCurrent list state =>
    simp only [Event.run]
    split
    · rename_i waits
      have stops : state ≠ .running := by
        intro same
        simp [same, ThreadState.inList] at waits
      exact (putCurrent_holds named (blocks rfl) stops).bind fun _ _ => holds_pure _
    · simp [Holds]
  | pop list => exact (pop_holds coherent).bind fun _ _ => holds_pure _
  | waitUntil list deadline expired =>
    have waited : Holds (WaitQueue.waitUntil cpu (sys.lists list) sys.scheduler deadline expired) := by
      apply (setDeadline_holds (blocks rfl) deadline expired).bind
      intro outcome armed
      obtain ⟨s₂, inFuture⟩ := outcome
      obtain ⟨s₁, arm, woken⟩ := setDeadline_ok armed
      have fronted := fronted_wakeAll (fronted_quiet (blocks rfl) (armDeadline_ok arm).1) woken
      have armedKeeps := (keeps refs).armDeadline named inv arm
      have named₂ := ((keeps refs).wakeAll armedKeeps.1 armedKeeps.2 (wakesPermitted_true expired s₁)
        woken).1
      dsimp only
      split
      · exact (putCurrent_holds named₂ fronted (by simp)).bind fun _ _ => holds_pure _
      · exact holds_pure _
    exact waited.bind fun _ _ => holds_pure _
  | waitUntilResume list expired =>
    have resumed : Holds (WaitQueue.waitUntilResume cpu (sys.lists list) sys.scheduler expired) := by
      apply (clearDeadline_holds (blocks rfl) expired).bind
      intro result clear
      obtain ⟨s₂, cleared⟩ := result
      obtain ⟨t, s₁, own, -, rfl, outcome⟩ := clearDeadline_ok clear
      have quiet := quiet_withoutDeadline sys.scheduler t
      dsimp only
      split
      · exact holds_pure _
      · rcases outcome with ⟨set, -⟩ | ⟨-, rfl⟩
        · rename_i unset
          exact absurd set unset
        · exact (removeCurrent_holds (coherent.quiet quiet)).bind fun _ _ => holds_pure _
    exact resumed.bind fun _ _ => holds_pure _

end ArielOS.SingleCore
