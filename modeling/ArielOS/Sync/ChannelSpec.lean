import ArielOS.Lib.Pairing
import ArielOS.Sync.Channel
import ArielOS.Threads.QueuedThreads
import ArielOS.Threads.SingleCore
import ArielOS.Threads.Waiters

namespace ArielOS

open Machine Scheduler Pairing

variable {cpu : Cpu} {s s' : Scheduler} {V : Type} {memory memory' : Nat → V}

def ThreadState.onChannel : ThreadState → Bool
  | .channelRxBlocked _ | .channelTxBlocked _ => true
  | _ => false

/-- The state in which a thread waits to receive or to send. -/
def blockedOn (receives : Bool) (ptr : Nat) : ThreadState :=
  if receives then .channelRxBlocked ptr else .channelTxBlocked ptr

namespace ChannelState

variable {state state' : ChannelState} {list list' : ThreadList} {ptr : Nat} {receives : Bool}

def hasSenders : ChannelState → Bool
  | .sendersWaiting _ => true
  | _ => false

/-- The list of threads that wait to receive or to send. -/
def waiting (receives : Bool) (list : ThreadList) : ChannelState :=
  if receives then .receiversWaiting list else .sendersWaiting list

def afterPop (receives : Bool) (list : ThreadList) : ChannelState :=
  if list.isEmpty then .idle else waiting receives list

/-- The receiver's memory gets the sender's value. -/
def deliver (receives : Bool) (ptr otherPtr : Nat) (memory : Nat → V) : Nat → V :=
  if receives then Function.update memory ptr (memory otherPtr)
  else Function.update memory otherPtr (memory ptr)

/-- The calling thread enters the list of its direction. -/
def Waits (cpu : Cpu) (receives : Bool) (ptr : Nat) (state state' : ChannelState)
    (s s' : Scheduler) : Prop :=
  (state = .idle ∨ state = waiting receives state.waiters) ∧ ∃ list inherit,
    state.waiters.putCurrent cpu s (blockedOn receives ptr) = .ok (list, s', inherit) ∧
      state' = waiting receives list

/-- The calling thread meets the first waiting thread of the other direction. -/
def Meets (cpu : Cpu) (receives : Bool) (ptr : Nat) (state state' : ChannelState)
    (s s' : Scheduler) (memory memory' : Nat → V) : Prop :=
  state = waiting (!receives) state.waiters ∧ ∃ list h otherPtr,
    state.waiters.pop cpu s = .ok (list, s', some (h, blockedOn (!receives) otherPtr)) ∧
      state' = afterPop (!receives) list ∧ memory' = deliver receives ptr otherPtr memory

@[simp] theorem waiting_waiters : (waiting receives list).waiters = list := by
  cases receives <;> rfl

theorem afterPop_waiters : (afterPop receives list).waiters = list := by
  unfold afterPop ThreadList.isEmpty
  split
  · rename_i empty
    cases list
    cases Option.isNone_iff_eq_none.mp empty
    rfl
  · exact waiting_waiters

theorem popReceiver_ok (done : popReceiver cpu s list = .ok (state', s', ptr)) :
    ∃ list' h, list.pop cpu s = .ok (list', s', some (h, .channelRxBlocked ptr)) ∧
      state' = afterPop true list' := by
  obtain ⟨⟨list', s₁, popped⟩, took, rest⟩ := bind_ok_iff.mp done
  split at rest
  · rename_i same
    cases same
    cases rest
    exact ⟨_, _, took, rfl⟩
  · cases rest

theorem popSender_ok (done : popSender cpu s list = .ok (state', s', ptr)) :
    ∃ list' h, list.pop cpu s = .ok (list', s', some (h, .channelTxBlocked ptr)) ∧
      state' = afterPop false list' := by
  obtain ⟨⟨list', s₁, popped⟩, took, rest⟩ := bind_ok_iff.mp done
  split at rest
  · rename_i same
    cases same
    cases rest
    exact ⟨_, _, took, rfl⟩
  · cases rest

theorem send_ok {self : Nat} (alone : state.hasSenders = false)
    (done : state.send cpu s memory self ptr = .ok (state', s', memory')) :
    (Waits cpu false ptr state state' s s' ∧ memory' = memory) ∨
      Meets cpu false ptr state state' s s' memory memory' := by
  cases state with
  | idle =>
    obtain ⟨⟨list, s₁, inherit⟩, put, rest⟩ := bind_ok_iff.mp done
    cases rest
    exact Or.inl ⟨⟨Or.inl rfl, list, inherit, put, rfl⟩, rfl⟩
  | sendersWaiting list => cases alone
  | receiversWaiting list =>
    obtain ⟨⟨state₁, s₁, other⟩, popped, rest⟩ := bind_ok_iff.mp done
    cases rest
    obtain ⟨list', h, took, rfl⟩ := popReceiver_ok popped
    exact Or.inr ⟨rfl, list', h, other, took, rfl, rfl⟩

theorem recv_ok (done : state.recv cpu s memory ptr = .ok (state', s', memory')) :
    (Waits cpu true ptr state state' s s' ∧ memory' = memory) ∨
      Meets cpu true ptr state state' s s' memory memory' := by
  cases state with
  | idle =>
    obtain ⟨⟨list, s₁, inherit⟩, put, rest⟩ := bind_ok_iff.mp done
    cases rest
    exact Or.inl ⟨⟨Or.inl rfl, list, inherit, put, rfl⟩, rfl⟩
  | receiversWaiting list =>
    obtain ⟨⟨list', s₁, inherit⟩, put, rest⟩ := bind_ok_iff.mp done
    cases rest
    exact Or.inl ⟨⟨Or.inr rfl, list', inherit, put, rfl⟩, rfl⟩
  | sendersWaiting list =>
    obtain ⟨⟨state₁, s₁, other⟩, popped, rest⟩ := bind_ok_iff.mp done
    cases rest
    obtain ⟨list', h, took, rfl⟩ := popSender_ok popped
    exact Or.inr ⟨rfl, list', h, other, took, rfl, rfl⟩

theorem trySend_ok {sent : Bool}
    (done : state.trySend cpu s memory ptr = .ok (state', s', memory', sent)) :
    (sent = false ∧ state' = state ∧ s' = s ∧ memory' = memory) ∨
      (sent = true ∧ Meets cpu false ptr state state' s s' memory memory') := by
  cases state with
  | receiversWaiting list =>
    obtain ⟨⟨state₁, s₁, other⟩, popped, rest⟩ := bind_ok_iff.mp done
    cases rest
    obtain ⟨list', h, took, rfl⟩ := popReceiver_ok popped
    exact Or.inr ⟨rfl, rfl, list', h, other, took, rfl, rfl⟩
  | idle | sendersWaiting list =>
    cases done
    exact Or.inl ⟨rfl, rfl, rfl, rfl⟩

theorem tryRecv_ok {haveReceived : Bool}
    (done : state.tryRecv cpu s memory ptr = .ok (state', s', memory', haveReceived)) :
    (haveReceived = false ∧ state' = state ∧ s' = s ∧ memory' = memory) ∨
      (haveReceived = true ∧ Meets cpu true ptr state state' s s' memory memory') := by
  cases state with
  | sendersWaiting list =>
    obtain ⟨⟨state₁, s₁, other⟩, popped, rest⟩ := bind_ok_iff.mp done
    cases rest
    obtain ⟨list', h, took, rfl⟩ := popSender_ok popped
    exact Or.inr ⟨rfl, rfl, list', h, other, took, rfl, rfl⟩
  | idle | receiversWaiting list =>
    cases done
    exact Or.inl ⟨rfl, rfl, rfl, rfl⟩

end ChannelState

namespace ChannelSystem

variable {sys : ChannelSystem V} {partner : Nat → Option Nat} {c : ChannelCall}

/-- The books of the calls: `partner` pairs each call that met another one. -/
structure Recorded (sys : ChannelSystem V) (partner : Nat → Option Nat) : Prop where
  paired : Paired partner
  nodup : sys.calls.Nodup
  threads : ∀ {c d}, c ∈ sys.calls → d ∈ sys.calls → c.thread = d.thread → c = d
  ids : ∀ {c d}, c ∈ sys.calls → d ∈ sys.calls → c.id = d.id → c = d
  numbered : ∀ {c}, c ∈ sys.calls → c.id < sys.count
  met : ∀ {a b}, partner a = some b → a < sys.count
  passedBy : ∀ {a v}, sys.passed a = some v → a < sys.count
  apart : ∀ {c d}, c ∈ sys.calls → d ∈ sys.calls → c.receives = true → c.ptr = d.ptr → c = d
  sends : ∀ {c}, c ∈ sys.calls → c.receives = false → sys.passed c.id = some (sys.memory c.ptr)
  receives : ∀ {c}, c ∈ sys.calls → c.receives = true → sys.passed c.id = none ∧
    ∀ a, partner c.id = some a → sys.passed a = some (sys.memory c.ptr)
  received : ∀ {r v}, (r, v) ∈ sys.received → ∃ a, partner r = some a ∧ sys.passed a = some v
  returned : ∀ {a}, a ∈ sys.returned → ∃ r v, partner a = some r ∧ sys.passed a = some v
  handed : ∀ {a r v}, partner a = some r → sys.passed a = some v →
    (r, v) ∈ sys.received ∨ ∃ c ∈ sys.calls, c.id = r ∧ c.receives = true

/-- What tells old calls apart tells them apart from a new one too. -/
theorem eq_of_mem_cons {P : ChannelCall → ChannelCall → Prop} {calls : List ChannelCall}
    (old : ∀ {d e}, d ∈ calls → e ∈ calls → P d e → d = e) (fresh : ∀ d ∈ calls, ¬ P d c ∧ ¬ P c d)
    {d e : ChannelCall} (first : d ∈ c :: calls) (second : e ∈ c :: calls) (same : P d e) : d = e := by
  rcases List.mem_cons.mp first with rfl | left
  · rcases List.mem_cons.mp second with rfl | right
    · rfl
    · exact absurd same (fresh e right).2
  · rcases List.mem_cons.mp second with rfl | right
    · exact absurd same (fresh d left).1
    · exact old left right same

namespace Recorded

theorem new (config : Config) (memory : Nat → V) :
    Recorded (ChannelSystem.new config memory) fun _ => none where
  paired := paired_none
  nodup := List.nodup_nil
  threads := fun member => by cases member
  ids := fun member => by cases member
  numbered := fun member => by cases member
  met := fun met => by cases met
  passedBy := fun passed => by cases passed
  apart := fun member => by cases member
  sends := fun member => by cases member
  receives := fun member => by cases member
  received := fun member => by cases member
  returned := fun member => by cases member
  handed := fun met => by cases met

theorem reschedule (recorded : Recorded sys partner) (channel : ChannelState) (s : Scheduler) :
    Recorded { sys with channel, scheduler := s } partner :=
  ⟨recorded.paired, recorded.nodup, recorded.threads, recorded.ids, recorded.numbered, recorded.met,
    recorded.passedBy, recorded.apart, recorded.sends, recorded.receives, recorded.received,
    recorded.returned, recorded.handed⟩

/-- Memory that no call refers to does not matter. -/
theorem store {addr : Nat} (recorded : Recorded sys partner) (unused : ∀ c ∈ sys.calls, c.ptr ≠ addr)
    (v : V) : Recorded { sys with memory := Function.update sys.memory addr v } partner := by
  have same : ∀ c ∈ sys.calls, Function.update sys.memory addr v c.ptr = sys.memory c.ptr :=
    fun c member => Function.update_of_ne (unused c member) _ _
  refine ⟨recorded.paired, recorded.nodup, recorded.threads, recorded.ids, recorded.numbered, recorded.met,
    recorded.passedBy, recorded.apart, ?_, ?_, recorded.received, recorded.returned,
    recorded.handed⟩
  · intro c member sends
    dsimp only
    rw [same c member]
    exact recorded.sends member sends
  · intro c member receives
    dsimp only
    rw [same c member]
    exact recorded.receives member receives

theorem older {d : ChannelCall} (recorded : Recorded sys partner) (member : d ∈ sys.calls) :
    d.id ≠ sys.count :=
  Nat.ne_of_lt (recorded.numbered member)

theorem unpassed (recorded : Recorded sys partner) : sys.passed sys.count = none := by
  cases passed : sys.passed sys.count with
  | none => rfl
  | some v => exact absurd (recorded.passedBy passed) (Nat.lt_irrefl _)

theorem unmet (recorded : Recorded sys partner) : partner sys.count = none := by
  cases met : partner sys.count with
  | none => rfl
  | some b => exact absurd (recorded.met met) (Nat.lt_irrefl _)

theorem passed_start {a : Nat} (channel : ChannelState) (s : Scheduler)
    (either : c.receives = true ∨ a ≠ c.id) :
    (sys.start c channel s sys.memory).passed a = sys.passed a := by
  unfold ChannelSystem.start
  dsimp only
  split
  · rfl
  · rename_i sends
    rw [Function.update_of_ne (either.resolve_left sends)]

/-- A call begins without a partner. -/
theorem start (recorded : Recorded sys partner) (number : c.id = sys.count)
    (outside : ∀ d ∈ sys.calls, d.thread ≠ c.thread)
    (unshared : ∀ d ∈ sys.calls, c.receives = true ∨ d.receives = true → d.ptr ≠ c.ptr)
    (channel : ChannelState) (s : Scheduler) :
    Recorded (sys.start c channel s sys.memory) partner ∧ partner c.id = none := by
  have older : ∀ {d}, d ∈ sys.calls → d.id ≠ c.id := fun member => number ▸ recorded.older member
  have fresh : sys.passed c.id = none := number ▸ recorded.unpassed
  have free : partner c.id = none := number ▸ recorded.unmet
  have kept : ∀ {a v}, sys.passed a = some v →
      (sys.start c channel s sys.memory).passed a = some v := by
    intro a v passed
    have other : a ≠ c.id := fun same => by rw [same, fresh] at passed; cases passed
    rw [passed_start channel s (Or.inr other), passed]
  refine ⟨⟨recorded.paired, ?_, ?_, ?_, ?_, ?_, ?_, ?_, ?_, ?_, ?_, ?_, ?_⟩, free⟩
  · exact List.nodup_cons.mpr ⟨fun member => outside c member rfl, recorded.nodup⟩
  · exact eq_of_mem_cons recorded.threads fun d member =>
      ⟨outside d member, (outside d member).symm⟩
  · exact eq_of_mem_cons recorded.ids fun d member => ⟨older member, (older member).symm⟩
  · intro d member
    rcases List.mem_cons.mp member with rfl | member
    · exact number ▸ Nat.lt_succ_self _
    · exact Nat.lt_succ_of_lt (recorded.numbered member)
  · exact fun met => Nat.lt_succ_of_lt (recorded.met met)
  · intro a v passed
    by_cases same : a = c.id
    · rw [same, number]
      exact Nat.lt_succ_self _
    · rw [passed_start channel s (Or.inr same)] at passed
      exact Nat.lt_succ_of_lt (recorded.passedBy passed)
  · intro d e first second receives same
    refine eq_of_mem_cons (P := fun d e => d.receives = true ∧ d.ptr = e.ptr)
      (fun left right both => recorded.apart left right both.1 both.2) (fun d member => ?_)
      first second ⟨receives, same⟩
    exact ⟨fun both => unshared d member (Or.inr both.1) both.2,
      fun both => unshared d member (Or.inl both.1) both.2.symm⟩
  · intro d member sends
    rcases List.mem_cons.mp member with rfl | member
    · simp [ChannelSystem.start, sends]
    · exact kept (recorded.sends member sends)
  · intro d member receives
    rcases List.mem_cons.mp member with rfl | member
    · refine ⟨(passed_start channel s (Or.inl receives)).trans fresh, fun a met => ?_⟩
      rw [free] at met
      cases met
    · obtain ⟨silent, delivered⟩ := recorded.receives member receives
      refine ⟨(passed_start channel s (Or.inr (older member))).trans silent, fun a met => ?_⟩
      exact kept (delivered a met)
  · intro r v member
    obtain ⟨a, met, passed⟩ := recorded.received member
    exact ⟨a, met, kept passed⟩
  · intro a member
    obtain ⟨r, v, met, passed⟩ := recorded.returned member
    exact ⟨r, v, met, kept passed⟩
  · intro a r v met passed
    have other : a ≠ c.id := fun same => by rw [same, free] at met; cases met
    rw [passed_start channel s (Or.inr other)] at passed
    rcases recorded.handed met passed with got | ⟨d, member, rest⟩
    · exact Or.inl got
    · exact Or.inr ⟨d, List.mem_cons_of_mem _ member, rest⟩

/-- A sender and a receiver meet: the value is copied. -/
theorem meet {sender receiver : ChannelCall} (recorded : Recorded sys partner)
    (sending : sender ∈ sys.calls) (sends : sender.receives = false)
    (receiving : receiver ∈ sys.calls) (receives : receiver.receives = true)
    (alone : partner sender.id = none) (alone' : partner receiver.id = none) :
    Recorded
      { sys with memory := Function.update sys.memory receiver.ptr (sys.memory sender.ptr) }
      (join partner sender.id receiver.id) := by
  have passed := recorded.sends sending sends
  have silent := (recorded.receives receiving receives).1
  have apart : sender.id ≠ receiver.id := by
    intro same
    rw [same, silent] at passed
    cases passed
  have elsewhere : ∀ {d}, d ∈ sys.calls → d ≠ receiver →
      Function.update sys.memory receiver.ptr (sys.memory sender.ptr) d.ptr = sys.memory d.ptr := by
    intro d member other
    refine Function.update_of_ne (fun same => other ?_) _ _
    exact (recorded.apart receiving member receives same.symm).symm
  refine ⟨recorded.paired.join alone alone' apart, recorded.nodup, recorded.threads, recorded.ids,
    recorded.numbered, ?_, recorded.passedBy, recorded.apart, ?_, ?_, ?_, ?_, ?_⟩
  · intro a b met
    rcases join_cases apart met with ⟨rfl, -⟩ | ⟨rfl, -⟩ | before
    · exact recorded.numbered sending
    · exact recorded.numbered receiving
    · exact recorded.met before
  · intro d member sends
    have other : d ≠ receiver := fun same => by rw [same, receives] at sends; cases sends
    dsimp only
    rw [elsewhere member other]
    exact recorded.sends member sends
  · intro d member receives
    refine ⟨(recorded.receives member receives).1, fun a met => ?_⟩
    dsimp only
    by_cases same : d = receiver
    · subst same
      rw [join_right, Option.some.injEq] at met
      rw [← met, Function.update_self, passed]
    · rw [elsewhere member same]
      rcases join_cases apart met with ⟨here, -⟩ | ⟨here, rfl⟩ | before
      · rw [← here, (recorded.receives member receives).1] at passed
        cases passed
      · exact absurd (recorded.ids member receiving here) same
      · exact (recorded.receives member receives).2 a before
  · intro r v member
    obtain ⟨a, met, passed⟩ := recorded.received member
    exact ⟨a, join_of_some alone alone' met, passed⟩
  · intro a member
    obtain ⟨r, v, met, passed⟩ := recorded.returned member
    exact ⟨r, v, join_of_some alone alone' met, passed⟩
  · intro a r v met passed
    rcases join_cases apart met with ⟨rfl, rfl⟩ | ⟨rfl, -⟩ | before
    · exact Or.inr ⟨receiver, receiving, rfl, receives⟩
    · rw [silent] at passed
      cases passed
    · exact recorded.handed before passed

/-- Two calls of opposite directions meet. -/
theorem deliver {d : ChannelCall} (recorded : Recorded sys partner) (first : c ∈ sys.calls)
    (second : d ∈ sys.calls) (opposite : (!c.receives) = d.receives) (alone : partner c.id = none)
    (alone' : partner d.id = none) :
    ∃ partner', Recorded { sys with memory := ChannelState.deliver c.receives c.ptr d.ptr sys.memory }
      partner' ∧ ∀ i, partner' i = none ↔ partner i = none ∧ i ≠ c.id ∧ i ≠ d.id := by
  cases receives : c.receives with
  | false =>
    refine ⟨_, recorded.meet first receives second ?_ alone alone', fun i => join_eq_none⟩
    rw [← opposite, receives]
    rfl
  | true =>
    refine ⟨_, recorded.meet second ?_ first receives alone' alone, fun i => ?_⟩
    · rw [← opposite, receives]
      rfl
    · rw [join_eq_none]
      tauto

/-- A call that met another one returns. -/
theorem finish {b : Nat} (recorded : Recorded sys partner) (member : c ∈ sys.calls)
    (met : partner c.id = some b) : Recorded (sys.finish c) partner := by
  have inside : ∀ {d}, d ∈ sys.calls.erase c → d ∈ sys.calls := List.mem_of_mem_erase
  refine ⟨recorded.paired, recorded.nodup.erase c, ?_, ?_, ?_, recorded.met, recorded.passedBy, ?_, ?_,
    ?_, ?_, ?_, ?_⟩
  · exact fun first second => recorded.threads (inside first) (inside second)
  · exact fun first second => recorded.ids (inside first) (inside second)
  · exact fun first => recorded.numbered (inside first)
  · exact fun first second => recorded.apart (inside first) (inside second)
  · exact fun first => recorded.sends (inside first)
  · exact fun first => recorded.receives (inside first)
  · intro r v got
    unfold ChannelSystem.finish at got
    dsimp only at got
    split at got
    · rename_i receives
      rcases List.mem_cons.mp got with same | before
      · cases same
        exact ⟨b, met, (recorded.receives member receives).2 b met⟩
      · exact recorded.received before
    · exact recorded.received got
  · intro a back
    unfold ChannelSystem.finish at back
    dsimp only at back
    split at back
    · exact recorded.returned back
    · rename_i sends
      rcases List.mem_cons.mp back with rfl | before
      · exact ⟨b, _, met, recorded.sends member (by simpa using sends)⟩
      · exact recorded.returned before
  · intro a r v met' passed
    rcases recorded.handed met' passed with got | ⟨d, among, rfl, receives⟩
    · refine Or.inl ?_
      unfold ChannelSystem.finish
      dsimp only
      split
      · exact List.mem_cons_of_mem _ got
      · exact got
    · by_cases same : d = c
      · subst same
        have value := (recorded.receives among receives).2 a (recorded.paired _ _ met')
        have passed : sys.passed a = some v := passed
        rw [passed, Option.some.injEq] at value
        refine Or.inl ?_
        simp [ChannelSystem.finish, receives, value]
      · exact Or.inr ⟨d, (List.mem_erase_of_ne same).mpr among, rfl, receives⟩

end Recorded

end ChannelSystem

end ArielOS
