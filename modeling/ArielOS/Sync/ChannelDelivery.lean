import ArielOS.Sync.ChannelSpec

namespace ArielOS

open Machine Scheduler Pairing ChannelState

/-- What is known of the scheduler in every state of a configuration. -/
def Scheduler.Sound (config : Config) (s : Scheduler) : Prop :=
  match config with
  | .singleCore => SingleCore.Invariant s
  | .multiCore .. => s.QueueNamed

namespace Scheduler.Sound

theorem new (config : Config) : (Scheduler.new config).Sound config := by
  cases config with
  | singleCore => exact SingleCore.invariant_new
  | multiCore chip affinity => exact queueNamed_new _

theorem keeps {config : Config} {core : Nat} (bound : core < config.coreCount) :
    Keeps ⟨config, core⟩ (fun _ => False) (fun _ _ => True) (fun _ _ _ => True) (fun _ => True) True
      (Sound config) := by
  cases config with
  | singleCore =>
    obtain rfl : core = 0 := Nat.lt_one_iff.mp bound
    exact SingleCore.keeps _
  | multiCore chip affinity => exact queueNamed_keeps _ _

theorem link {config : Config} {s : Scheduler} {i : Nat} {next : Option Nat} (sound : s.Sound config) :
    (ThreadList.link s i next).Sound config := by
  cases config with
  | singleCore => exact SingleCore.invariant_link sound
  | multiCore chip affinity => exact QueueNamed.keep sound rfl rfl

end Scheduler.Sound

namespace ChannelSystem

variable {V : Type} {config : Config} {core : Nat} {s s' : Scheduler} {sys sys' : ChannelSystem V}
  {partner : Nat → Option Nat} {W : List Nat} {place : Nat → ThreadState} {c : ChannelCall}
  {receives : Bool} {ptr : Nat}
  {state' : ChannelState} {memory' : Nat → V} {t : Nat}

/-- The family that has the only wait list as list 0. -/
def only {α : Type} (empty list : α) : Nat → α := Function.update (fun _ => empty) 0 list

@[simp] theorem update_only {α : Type} (empty list list' : α) :
    Function.update (only empty list) 0 list' = only empty list' := by simp [only]

@[simp] theorem only_zero {α : Type} (empty list : α) : only empty list 0 = list := by simp [only]

theorem mem_only {n : Nat} : t ∈ only [] W n ↔ n = 0 ∧ t ∈ W := by
  by_cases same : n = 0
  · simp [same]
  · simp [only, same]

/-- The waiting threads `W` are those whose calls have no partner, and the kind of the channel's
    state is that of their calls. -/
structure Queued (sys : ChannelSystem V) (partner : Nat → Option Nat) (W : List Nat)
    (place : Nat → ThreadState) : Prop where
  waiters : Waiters place (only .new sys.channel.waiters) (only [] W) sys.scheduler
  calling : ∀ {t}, t ∈ W → ∃ c ∈ sys.calls, c.thread = t ∧ place t = blockedOn c.receives c.ptr ∧
    sys.channel = waiting c.receives sys.channel.waiters
  unpaired : ∀ {c}, c ∈ sys.calls → (c.thread ∈ W ↔ partner c.id = none)

/-- The invariant of the runs. -/
structure Consistent (config : Config) (sys : ChannelSystem V) (partner : Nat → Option Nat) : Prop where
  named : sys.scheduler.Named fun _ => False
  sound : sys.scheduler.Sound config
  recorded : Recorded sys partner
  queued : ∃ W place, Queued sys partner W place

theorem new_consistent (memory : Nat → V) :
    Consistent config (new config memory) fun _ => none := by
  refine ⟨Named.new _, .new config, .new config memory, [], fun _ => .invalid, ⟨?_, ?_, ?_, ?_⟩, ?_, ?_⟩
  · intro n
    have none : only [] [] n = ([] : List Nat) := by simp [only]
    rw [none]
    have none : only ThreadList.new (new config memory).channel.waiters n = .new := by
      simp [only, new, ChannelState.waiters]
    rw [none]
    exact ThreadList.links_new _
  · intro n t member
    cases (mem_only.mp member).2
  · intro n
    simp [only]
  · intro n n' t member
    cases (mem_only.mp member).2
  · intro t member
    cases member
  · intro c member
    cases member

theorem waiting_inj {r r' : Bool} {list list' : ThreadList} (same : waiting r list = waiting r' list') :
    r = r' := by
  cases r <;> cases r' <;> simp [waiting] at same ⊢

theorem blockedOn_inj {r r' : Bool} {ptr ptr' : Nat} (same : blockedOn r ptr = blockedOn r' ptr') :
    r = r' ∧ ptr = ptr' := by
  cases r <;> cases r' <;> simp [blockedOn] at same ⊢ <;> exact same

theorem blockedOn_onChannel (r : Bool) (ptr : Nat) : (blockedOn r ptr).onChannel = true := by
  cases r <;> rfl

theorem caller_eq_some {cpu : Cpu} (called : sys.caller cpu = some t) :
    sys.scheduler.currentTid cpu = some t ∧ ∀ d ∈ sys.calls, d.thread ≠ t := by
  obtain ⟨executes, outside⟩ := Option.filter_eq_some_iff.mp called
  refine ⟨executing_own executes, ?_⟩
  simpa [callOf] using outside

theorem callOf_eq_some (called : sys.callOf t = some c) : c ∈ sys.calls ∧ c.thread = t :=
  ⟨List.mem_of_find?_eq_some called, by simpa using List.find?_some called⟩

/-- A call that begins is new, and its pointer does not interfere. -/
theorem beginCall_ok {cpu : Cpu} (begun : sys.beginCall cpu receives ptr = some c) :
    c.id = sys.count ∧ c.receives = receives ∧ c.ptr = ptr ∧
      sys.scheduler.currentTid cpu = some c.thread ∧ (∀ d ∈ sys.calls, d.thread ≠ c.thread) ∧
      ∀ d ∈ sys.calls, c.receives = true ∨ d.receives = true → d.ptr ≠ c.ptr := by
  unfold beginCall at begun
  split at begun
  · rename_i t called
    split at begun
    · rename_i unshared
      cases begun
      obtain ⟨own, outside⟩ := caller_eq_some called
      exact ⟨rfl, rfl, rfl, own, outside, unshared⟩
    · cases begun
  · cases begun

theorem Queued.absent (queued : Queued sys partner W place) (outside : ∀ d ∈ sys.calls, d.thread ≠ t) :
    t ∉ W := by
  intro member
  obtain ⟨d, among, same, -⟩ := queued.calling member
  exact outside d among same

theorem Queued.heads (queued : Queued sys partner W place)
    (named : sys.scheduler.Named fun _ => False) :
    ∀ h, sys.channel.waiters.head = some h → sys.scheduler.tidOf h = h := by
  intro h first
  have member := queued.waiters.head_mem (m := 0) (h := h) (by simpa using first)
  obtain ⟨d, -, -, blocked, -⟩ := queued.calling (mem_only.mp member).2
  refine named.created h ?_
  rw [queued.waiters.placed member, blocked]
  cases d.receives <;> simp [blockedOn]

theorem op_consistent {o : Op} (here : core < config.coreCount) (consistent : Consistent config sys partner)
    (permitted : o.Permitted ⟨config, core⟩ (fun s t => ¬ (s.stateOf t).onChannel = true)
      (fun _ _ _ => True) sys.scheduler)
    (may : o.blocking = true → sys.caller ⟨config, core⟩ ≠ none)
    (done : o.run ⟨config, core⟩ sys.scheduler = .ok s') :
    Consistent config { sys with scheduler := s' } partner := by
  obtain ⟨named, sound, recorded, W, place, queued⟩ := consistent
  have mayStop : o.blocking = true → ∀ t, sys.scheduler.currentTid ⟨config, core⟩ = some t →
      ∀ n, t ∉ only [] W n := by
    intro blocks t own n member
    obtain ⟨u, called⟩ := Option.ne_none_iff_exists'.mp (may blocks)
    obtain ⟨own', outside⟩ := caller_eq_some called
    obtain rfl : t = u := Option.some.inj (own.symm.trans own')
    exact queued.absent outside (mem_only.mp member).2
  have blocked : ∀ {n t}, t ∈ only [] W n → (place t).onChannel = true := by
    intro n t member
    obtain ⟨d, -, -, blocked, -⟩ := queued.calling (mem_only.mp member).2
    rw [blocked]
    exact blockedOn_onChannel _ _
  have kept : Keeps ⟨config, core⟩ (fun _ => False) (fun s t => ¬ (s.stateOf t).onChannel = true)
      (fun _ _ _ => True) (fun t => ∀ n, t ∉ only [] W n) True (fun s => s.Sound config ∧
        Waiters place (only .new sys.channel.waiters) (only [] W) s) :=
    Waiters.keeps (·.onChannel = true) (Sound.keeps here) blocked (by simp [ThreadState.onChannel])
  obtain ⟨named', sound', waiters'⟩ :=
    kept.run named ⟨sound, queued.waiters⟩ permitted mayStop (fun _ => trivial) done
  exact ⟨named', sound', recorded.reschedule _ _, W, place, waiters', queued.calling,
    queued.unpaired⟩

/-- A call that finds nobody to meet waits. -/
theorem waits_consistent (here : core < config.coreCount) (consistent : Consistent config sys partner)
    (begun : sys.beginCall ⟨config, core⟩ receives ptr = some c)
    (waits : Waits ⟨config, core⟩ receives ptr sys.channel state' sys.scheduler s') :
    Consistent config (sys.start c state' s' sys.memory) partner := by
  obtain ⟨named, sound, recorded, W, place, queued⟩ := consistent
  obtain ⟨number, rfl, rfl, own, outside, unshared⟩ := beginCall_ok begun
  obtain ⟨kind, list', inherit, put, rfl⟩ := waits
  have absent := queued.absent outside
  obtain ⟨recorded', free⟩ := recorded.start number outside unshared (waiting c.receives list') s'
  obtain ⟨named', sound', -⟩ := (Sound.keeps here).putCurrent Sound.link named sound
    (queued.heads named) (fun _ _ => trivial) (by cases c.receives <;> simp [blockedOn]) put
  obtain ⟨A, B, split, waiters'⟩ := queued.waiters.put (m := 0) named own
    (fun n member => absent (mem_only.mp member).2) (by simpa using put)
  simp only [only_zero, update_only] at split waiters'
  have among : ∀ u, u ∈ A ++ c.thread :: B ↔ u ∈ W ∨ u = c.thread := by
    intro u
    rw [split]
    simp only [List.mem_append, List.mem_cons]
    tauto
  refine ⟨named', sound', recorded', A ++ c.thread :: B,
    Function.update place c.thread (blockedOn c.receives c.ptr), ?_, ?_, ?_⟩
  · simpa [ChannelSystem.start] using waiters'
  · intro u member
    rcases (among u).mp member with before | rfl
    · obtain ⟨d, old, thread, blocked, state⟩ := queued.calling before
      have other : u ≠ c.thread := fun same => absent (same ▸ before)
      have same : d.receives = c.receives := by
        rcases kind with idle | waiting
        · rw [idle] at state
          cases receives : d.receives <;> simp [receives, ChannelState.waiting] at state
        · exact waiting_inj (state.symm.trans waiting)
      refine ⟨d, List.mem_cons_of_mem _ old, thread, ?_, ?_⟩
      · rw [Function.update_of_ne other, blocked]
      · simp [ChannelSystem.start, same]
    · exact ⟨c, List.mem_cons_self, rfl, Function.update_self .., by simp [ChannelSystem.start]⟩
  · intro d member
    rw [among]
    rcases List.mem_cons.mp member with rfl | old
    · simp [free]
    · simp [queued.unpaired old, outside d old]

/-- The call whose thread is at the front of the list. -/
theorem Queued.front {h : Nat} {rest : List Nat} (queued : Queued sys partner (h :: rest) place) :
    ∃ d ∈ sys.calls, d.thread = h ∧ place h = blockedOn d.receives d.ptr ∧ partner d.id = none := by
  obtain ⟨d, member, thread, blocked, -⟩ := queued.calling List.mem_cons_self
  exact ⟨d, member, thread, blocked, (queued.unpaired member).mp (by simp [thread])⟩

/-- A call that finds another one waiting meets it. -/
theorem meets_consistent (here : core < config.coreCount) (consistent : Consistent config sys partner)
    (begun : sys.beginCall ⟨config, core⟩ receives ptr = some c)
    (meets : Meets ⟨config, core⟩ receives ptr sys.channel state' sys.scheduler s' sys.memory
      memory') :
    ∃ partner', Consistent config (sys.start c state' s' memory') partner' ∧
      ∃ b, partner' c.id = some b := by
  obtain ⟨named, sound, recorded, W, place, queued⟩ := consistent
  obtain ⟨number, rfl, rfl, own, outside, unshared⟩ := beginCall_ok begun
  obtain ⟨kind, list', h, otherPtr, took, rfl, rfl⟩ := meets
  obtain ⟨recorded₁, free⟩ := recorded.start number outside unshared (afterPop (!c.receives) list') s'
  obtain ⟨named', sound', -⟩ := (Sound.keeps here).pop Sound.link (fun _ => trivial) named sound
    (queued.heads named) (fun _ _ => trivial) took
  obtain ⟨-, -, -, none⟩ | ⟨h', rest, front, same, -, waiters'⟩ :=
    queued.waiters.pop (m := 0) (by simpa using took)
  · cases none
  simp only [only_zero, update_only] at front waiters'
  subst front
  simp only [Option.some.injEq, Prod.mk.injEq] at same
  obtain ⟨rfl, shape⟩ := same
  obtain ⟨d, member, thread, blocked, alone⟩ := queued.front
  obtain ⟨opposite, rfl⟩ := blockedOn_inj (shape.trans blocked)
  obtain ⟨partner', recorded', unmet⟩ := recorded₁.deliver List.mem_cons_self
    (List.mem_cons_of_mem _ member) opposite free alone
  have once : h ∉ rest := by
    have distinct := queued.waiters.nodup 0
    rw [only_zero] at distinct
    exact (List.nodup_cons.mp distinct).1
  refine ⟨partner', ⟨named', sound', recorded', rest, place, ?_, ?_, ?_⟩, ?_⟩
  · simpa [ChannelSystem.start, afterPop_waiters] using waiters'
  · intro u later
    obtain ⟨e, old, thread', blocked', state⟩ := queued.calling (List.mem_cons_of_mem _ later)
    refine ⟨e, List.mem_cons_of_mem _ old, thread', blocked', ?_⟩
    have same : e.receives = !c.receives := waiting_inj (state.symm.trans kind)
    have nonempty : list'.isEmpty = false := by
      rw [ThreadList.isEmpty, Bool.eq_false_iff, ne_eq, Option.isNone_iff_eq_none]
      intro empty
      have links := waiters'.links 0
      rw [only_zero, only_zero] at links
      rw [(ThreadList.links_nil links).mp empty] at later
      cases later
    simp [ChannelSystem.start, afterPop, nonempty, same]
  · intro e among
    rw [unmet]
    rcases List.mem_cons.mp among with rfl | old
    · have absent := queued.absent outside
      simp only [ne_eq, not_true_eq_false, false_and, and_false, iff_false]
      exact fun later => absent (List.mem_cons_of_mem _ later)
    · have older : e.id ≠ c.id := number ▸ recorded.older old
      rw [← queued.unpaired old, List.mem_cons]
      apply Iff.intro
      · intro later
        refine ⟨Or.inr later, older, fun same => once ?_⟩
        rwa [← thread, ← recorded.ids old member same]
      · intro elsewhere
        obtain ⟨waits, -, other⟩ := elsewhere
        refine waits.resolve_left fun same => other ?_
        rw [recorded.threads old member (same.trans thread.symm)]
  · exact Option.ne_none_iff_exists'.mp fun none => ((unmet c.id).mp none).2.1 rfl

/-- A call that met another one returns. -/
theorem finish_consistent {b : Nat} (consistent : Consistent config sys partner) (member : c ∈ sys.calls)
    (met : partner c.id = some b) : Consistent config (sys.finish c) partner := by
  obtain ⟨named, sound, recorded, W, place, queued⟩ := consistent
  refine ⟨named, sound, recorded.finish member met, W, place, queued.waiters, ?_, ?_⟩
  · intro t waits
    obtain ⟨d, among, thread, rest⟩ := queued.calling waits
    have alone := (queued.unpaired among).mp (thread ▸ waits)
    have other : d ≠ c := fun same => by rw [same, met] at alone; cases alone
    exact ⟨d, (List.mem_erase_of_ne other).mpr among, thread, rest⟩
  · exact fun among => queued.unpaired (List.mem_of_mem_erase among)

/-- `send` and `recv`: the call waits or meets another one. -/
theorem call_consistent (here : core < config.coreCount) (consistent : Consistent config sys partner)
    (begun : sys.beginCall ⟨config, core⟩ receives ptr = some c)
    (outcome : (Waits ⟨config, core⟩ receives ptr sys.channel state' sys.scheduler s' ∧
        memory' = sys.memory) ∨
      Meets ⟨config, core⟩ receives ptr sys.channel state' sys.scheduler s' sys.memory memory') :
    ∃ partner', Consistent config (sys.start c state' s' memory') partner' := by
  rcases outcome with ⟨waits, rfl⟩ | meets
  · exact ⟨partner, waits_consistent here consistent begun waits⟩
  · obtain ⟨partner', consistent', -⟩ := meets_consistent here consistent begun meets
    exact ⟨partner', consistent'⟩

/-- `try_send` and `try_recv`: nothing happens, or the call meets another one and returns. -/
theorem tryCall_consistent {met : Bool} (here : core < config.coreCount)
    (consistent : Consistent config sys partner)
    (begun : sys.beginCall ⟨config, core⟩ receives ptr = some c)
    (outcome : (met = false ∧ state' = sys.channel ∧ s' = sys.scheduler ∧ memory' = sys.memory) ∨
      (met = true ∧ Meets ⟨config, core⟩ receives ptr sys.channel state' sys.scheduler s' sys.memory
        memory'))
    (rest : (if met then pure ((sys.start c state' s' memory').finish c)
      else pure { sys with channel := state', scheduler := s', memory := memory' } :
        Except Fault (ChannelSystem V)) = .ok sys') :
    ∃ partner', Consistent config sys' partner' := by
  rcases outcome with ⟨rfl, rfl, rfl, rfl⟩ | ⟨rfl, meets⟩
  · cases rest
    exact ⟨partner, consistent⟩
  · obtain ⟨partner', consistent', b, paired⟩ := meets_consistent here consistent begun meets
    cases rest
    exact ⟨partner', finish_consistent consistent' List.mem_cons_self paired⟩

/-- A thread that is ready has met another one in its call. -/
theorem Queued.met_of_running (queued : Queued sys partner W place) (member : c ∈ sys.calls)
    (ready : sys.scheduler.stateOf c.thread = .running) : ∃ b, partner c.id = some b := by
  refine Option.ne_none_iff_exists'.mp fun alone => ?_
  have waits := (queued.unpaired member).mpr alone
  obtain ⟨d, -, -, blocked, -⟩ := queued.calling waits
  rw [queued.waiters.placed (m := 0) (by simpa using waits), blocked] at ready
  cases receives : d.receives <;> simp [blockedOn, receives] at ready

/-- The runs in which no timer expires for a thread that is blocked on the channel. -/
def TimersSpareWaiters (config : Config) (e : Nat × ChannelEvent V) (sys : ChannelSystem V) : Prop :=
  match e.2 with
  | .op o => o.Permitted ⟨config, e.1⟩ (fun s t => ¬ (s.stateOf t).onChannel = true)
      (fun _ _ _ => True) sys.scheduler
  | _ => True

/-- Those in which also `send` is not called while another sender waits, and no core returns from a
    call of a blocked thread. On a single core the latter is so in every run. -/
def Undisturbed (config : Config) (e : Nat × ChannelEvent V) (sys : ChannelSystem V) : Prop :=
  TimersSpareWaiters config e sys ∧
  match e.2 with
  | .send _ => sys.channel.hasSenders = false
  | .callReturn =>
    match config with
    | .singleCore => True
    | .multiCore .. => ∀ t, sys.scheduler.executing ⟨config, e.1⟩ = some t →
        sys.scheduler.stateOf t = .running
  | _ => True

theorem step_consistent {self : Nat} {e : Nat × ChannelEvent V}
    (consistent : Consistent config sys partner) (undisturbed : Undisturbed config e sys)
    (done : step config self e sys = .ok sys') : ∃ partner', Consistent config sys' partner' := by
  obtain ⟨core, e⟩ := e
  simp only [step] at done
  split at done
  · rename_i here
    cases e with
    | op o =>
      dsimp only at done
      split at done
      · cases done
      · rename_i guard
        obtain ⟨s', ran, rest⟩ := bind_ok_iff.mp done
        cases rest
        refine ⟨partner, op_consistent here consistent undisturbed.1 (fun blocks none => ?_) ran⟩
        exact guard ⟨blocks, by simp [none]⟩
    | store addr v =>
      dsimp only at done
      split at done
      · rename_i unused
        cases done
        obtain ⟨named, sound, recorded, W, place, queued⟩ := consistent
        exact ⟨partner, named, sound, recorded.store unused v, W, place, queued.waiters,
          queued.calling, queued.unpaired⟩
      · cases done
    | send something =>
      dsimp only at done
      split at done
      · cases done
      · rename_i c begun
        obtain ⟨⟨channel, s', memory'⟩, sent, rest⟩ := bind_ok_iff.mp done
        cases rest
        exact call_consistent here consistent begun (ChannelState.send_ok undisturbed.2 sent)
    | trySend something =>
      dsimp only at done
      split at done
      · cases done
      · rename_i c begun
        obtain ⟨⟨channel, s', memory', sent⟩, tried, rest⟩ := bind_ok_iff.mp done
        exact tryCall_consistent here consistent begun (ChannelState.trySend_ok tried) rest
    | recv res =>
      dsimp only at done
      split at done
      · cases done
      · rename_i c begun
        obtain ⟨⟨channel, s', memory'⟩, got, rest⟩ := bind_ok_iff.mp done
        cases rest
        exact call_consistent here consistent begun (ChannelState.recv_ok got)
    | tryRecv res =>
      dsimp only at done
      split at done
      · cases done
      · rename_i c begun
        obtain ⟨⟨channel, s', memory', haveReceived⟩, tried, rest⟩ := bind_ok_iff.mp done
        exact tryCall_consistent here consistent begun (ChannelState.tryRecv_ok tried) rest
    | callReturn =>
      dsimp only at done
      split at done
      · cases done
      · rename_i c called
        cases done
        obtain ⟨t, executes, inside⟩ := Option.bind_eq_some_iff.mp called
        obtain ⟨member, rfl⟩ := callOf_eq_some inside
        have ready : sys.scheduler.stateOf c.thread = .running := by
          cases config with
          | singleCore =>
            obtain rfl : core = 0 := Nat.lt_one_iff.mp here
            exact (SingleCore.executing_running consistent.sound executes).2
          | multiCore chip affinity => exact undisturbed.2 _ executes
        obtain ⟨W, place, queued⟩ := consistent.queued
        obtain ⟨b, met⟩ := queued.met_of_running member ready
        exact ⟨partner, finish_consistent consistent member met⟩
  · cases done

instance (config : Config) (e : Nat × ChannelEvent V) (sys : ChannelSystem V) :
    Decidable (TimersSpareWaiters config e sys) :=
  match e with
  | (core, .op o) => inferInstanceAs (Decidable (o.Permitted ⟨config, core⟩
      (fun s t => ¬ (s.stateOf t).onChannel = true) (fun _ _ _ => True) sys.scheduler))
  | (_, .store ..) | (_, .send _) | (_, .trySend _) | (_, .recv _) | (_, .tryRecv _)
  | (_, .callReturn) => isTrue trivial

instance (config : Config) (e : Nat × ChannelEvent V) (sys : ChannelSystem V) :
    Decidable (Undisturbed config e sys) :=
  match e with
  | (_, .send _) => inferInstanceAs (Decidable (_ ∧ _ = _))
  | (core, .callReturn) =>
    match config with
    | .singleCore => isTrue ⟨trivial, trivial⟩
    | .multiCore chip affinity => inferInstanceAs (Decidable (TimersSpareWaiters
        (.multiCore chip affinity) (core, ChannelEvent.callReturn) sys ∧
        ∀ t, sys.scheduler.executing ⟨.multiCore chip affinity, core⟩ = some t →
          sys.scheduler.stateOf t = .running))
  | (_, .op _) | (_, .store ..) | (_, .trySend _) | (_, .recv _) | (_, .tryRecv _) =>
    inferInstanceAs (Decidable (_ ∧ True))

/-- Each value that is received was passed to the send that met the receiving call, and a send that
    returned met a call that has its value. -/
theorem values_delivered {self : Nat} {memory : Nat → V}
    (reached : Reaches (step config self) (Undisturbed config) (new config memory) sys) :
    ∃ partner : Nat → Option Nat, Paired partner ∧
      (∀ r v, (r, v) ∈ sys.received → ∃ a < sys.count, partner r = some a ∧ sys.passed a = some v) ∧
      ∀ a ∈ sys.returned, ∃ r v, partner a = some r ∧ sys.passed a = some v ∧
        ((r, v) ∈ sys.received ∨
          ∃ c ∈ sys.calls, c.id = r ∧ c.receives = true ∧ sys.memory c.ptr = v) := by
  obtain ⟨partner, -, -, recorded, -⟩ := reached.invariant
    (fun sys => ∃ partner, Consistent config sys partner) ⟨_, new_consistent memory⟩
    fun _ _ _ ⟨_, consistent⟩ undisturbed done => step_consistent consistent undisturbed done
  refine ⟨partner, recorded.paired, ?_, ?_⟩
  · intro r v member
    obtain ⟨a, met, passed⟩ := recorded.received member
    exact ⟨a, recorded.passedBy passed, met, passed⟩
  · intro a member
    obtain ⟨r, v, met, passed⟩ := recorded.returned member
    refine ⟨r, v, met, passed, ?_⟩
    rcases recorded.handed met passed with got | ⟨c, among, rfl, receives⟩
    · exact Or.inl got
    · have value := (recorded.receives among receives).2 a (recorded.paired _ _ met)
      rw [passed, Option.some.injEq] at value
      exact Or.inr ⟨c, among, rfl, receives, value.symm⟩

section Samples

def switch : List (Nat × ChannelEvent Nat) := [(0, .op .enterPendsv), (0, .op .sched)]

def bootEvents : List (Nat × ChannelEvent Nat) :=
  [(0, .op (.create 0 512 1 none)), (0, .op (.create 512 512 2 none)),
    (0, .op (.create 1024 512 3 none)), (0, .op .startThreading)] ++ switch

/-- Memory that holds at each address the address itself, with a channel at 100. -/
def boot : ChannelSystem Nat := new .singleCore id

def hasReceived (r v : Nat) (sys : ChannelSystem Nat) : Bool := sys.received.contains (r, v)

/-- Thread 2 waits to send what is at 1, and thread 1 receives it. -/
theorem values_delivered_sample : ∃ (sys : ChannelSystem Nat) (partner : Nat → Option Nat),
    Paired partner ∧ (1, 1) ∈ sys.received ∧
      ∃ a < sys.count, partner 1 = some a ∧ sys.passed a = some 1 := by
  have run : ∃ sys, Reaches (step .singleCore 100) (Undisturbed .singleCore) boot sys ∧
      hasReceived 1 1 sys = true :=
    reaches_of_check (bootEvents ++ [(0, .send 1)] ++ switch ++ [(0, .tryRecv 2)])
      (by decide +kernel)
  obtain ⟨sys, reached, here⟩ := run
  have here : (1, 1) ∈ sys.received := by simpa [hasReceived] using here
  obtain ⟨partner, paired, received, -⟩ := values_delivered reached
  exact ⟨sys, partner, paired, here, received 1 1 here⟩

/-- Threads 2 and 1 wait to send, and two calls receive: the second gets what is at the address of
    the channel, which nobody passed to a send. -/
theorem channel_read_as_value : ∃ sys,
    Reaches (step .singleCore 100) (TimersSpareWaiters .singleCore) boot sys ∧
      (3, 100) ∈ sys.received ∧ ∀ a < sys.count, sys.passed a ≠ some 100 := by
  have run : ∃ sys, Reaches (step .singleCore 100) (TimersSpareWaiters .singleCore) boot sys ∧
      (hasReceived 3 100 sys && (List.range sys.count).all fun a => sys.passed a != some 100) = true :=
    reaches_of_check (bootEvents ++ [(0, .send 1)] ++ switch ++ [(0, .send 2)] ++ switch ++
      [(0, .recv 3)] ++ switch ++ [(0, .callReturn), (0, .recv 4), (0, .callReturn)])
      (by decide +kernel)
  obtain ⟨sys, reached, here⟩ := run
  simp only [hasReceived, Bool.and_eq_true, List.contains_iff_mem, List.all_eq_true, List.mem_range,
    bne_iff_ne] at here
  exact ⟨sys, reached, here.1, here.2⟩

end Samples

end ChannelSystem

end ArielOS
