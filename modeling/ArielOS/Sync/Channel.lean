import ArielOS.Threads.Kernel

namespace ArielOS

inductive ChannelState
  | idle
  | sendersWaiting (waiters : ThreadList)
  | receiversWaiting (waiters : ThreadList)
  deriving DecidableEq, Repr

namespace ChannelState

def waiters : ChannelState → ThreadList
  | .idle => .new
  | .sendersWaiting waiters | .receiversWaiting waiters => waiters

variable (cpu : Cpu) (s : Scheduler)

/-- Takes the first receiver off the list, and returns where it waits for its value. -/
def popReceiver (waiters : ThreadList) : Except Fault (ChannelState × Scheduler × Nat) := do
  match ← waiters.pop cpu s with
  | (waiters, s, some (_, .channelRxBlocked ptr)) =>
    return (if waiters.isEmpty then .idle else .receiversWaiting waiters, s, ptr)
  | _ => throw .unreachableCode

/-- Takes the first sender off the list, and returns where its value is. -/
def popSender (waiters : ThreadList) : Except Fault (ChannelState × Scheduler × Nat) := do
  match ← waiters.pop cpu s with
  | (waiters, s, some (_, .channelTxBlocked otherPtr)) =>
    return (if waiters.isEmpty then .idle else .sendersWaiting waiters, s, otherPtr)
  | _ => throw .unreachableCode

variable {V : Type} (memory : Nat → V)

/-- `Channel::send` on the channel at `self`, where `memory` is read and written at the addresses
    of values of the channel's type. -/
def send (self something : Nat) : ChannelState → Except Fault (ChannelState × Scheduler × (Nat → V))
  | .idle => do
    let (waiters, s, _) ← ThreadList.new.putCurrent cpu s (.channelTxBlocked something)
    return (.sendersWaiting waiters, s, memory)
  | .receiversWaiting waiters => do
    let (state, s, ptr) ← popReceiver cpu s waiters
    return (state, s, Function.update memory ptr (memory something))
  | .sendersWaiting waiters => do
    -- the address of the channel, where `idle` passes on the address of the value
    let (waiters, s, _) ← waiters.putCurrent cpu s (.channelTxBlocked self)
    return (.sendersWaiting waiters, s, memory)

def trySend (something : Nat) :
    ChannelState → Except Fault (ChannelState × Scheduler × (Nat → V) × Bool)
  | .receiversWaiting waiters => do
    let (state, s, ptr) ← popReceiver cpu s waiters
    return (state, s, Function.update memory ptr (memory something), true)
  | state => return (state, s, memory, false)

/-- The critical section of `Channel::recv`; what follows it reads the result at `ptr`. -/
def recv (ptr : Nat) : ChannelState → Except Fault (ChannelState × Scheduler × (Nat → V))
  | .idle => do
    let (waiters, s, _) ← ThreadList.new.putCurrent cpu s (.channelRxBlocked ptr)
    return (.receiversWaiting waiters, s, memory)
  | .receiversWaiting waiters => do
    let (waiters, s, _) ← waiters.putCurrent cpu s (.channelRxBlocked ptr)
    return (.receiversWaiting waiters, s, memory)
  | .sendersWaiting waiters => do
    let (state, s, otherPtr) ← popSender cpu s waiters
    return (state, s, Function.update memory ptr (memory otherPtr))

/-- The critical section of `Channel::try_recv`; true if the result at `ptr` is then returned. -/
def tryRecv (ptr : Nat) :
    ChannelState → Except Fault (ChannelState × Scheduler × (Nat → V) × Bool)
  | .sendersWaiting waiters => do
    let (state, s, otherPtr) ← popSender cpu s waiters
    return (state, s, Function.update memory ptr (memory otherPtr), true)
  | state => return (state, s, memory, false)

end ChannelState

/-- A call of `send` or `recv` that has not returned: the thread, the number of the call, and where
    `something` or `res` is. -/
structure ChannelCall where
  thread : Nat
  id : Nat
  receives : Bool
  ptr : Nat
  deriving DecidableEq

/-- Any number of threads that use one channel. `calls` have not returned yet, and `count` numbers
    all calls; `passed` are the values that sends were called with, `returned` are the sends that
    returned, and `received` are the receiving calls that returned, with their results. -/
structure ChannelSystem (V : Type) where
  scheduler : Scheduler
  channel : ChannelState
  memory : Nat → V
  calls : List ChannelCall
  count : Nat
  passed : Nat → Option V
  returned : List Nat
  received : List (Nat × V)

inductive ChannelEvent (V : Type)
  | op (o : Op)
  | store (addr : Nat) (v : V)
  | send (something : Nat)
  | trySend (something : Nat)
  | recv (res : Nat)
  | tryRecv (res : Nat)
  | callReturn

namespace ChannelSystem

variable {V : Type}

def new (config : Config) (memory : Nat → V) : ChannelSystem V where
  scheduler := .new config
  channel := .idle
  memory := memory
  calls := []
  count := 0
  passed := fun _ => none
  returned := []
  received := []

variable (cpu : Cpu) (sys : ChannelSystem V)

def callOf (t : Nat) : Option ChannelCall := sys.calls.find? fun c => c.thread = t

/-- The thread that is executed, if it is outside of a call. -/
def caller : Option Nat :=
  (sys.scheduler.executing cpu).filter fun t => (sys.callOf t).isNone

/-- The call that the executed thread begins. A result is written to memory that no other call
    refers to. -/
def beginCall (receives : Bool) (ptr : Nat) : Option ChannelCall :=
  match sys.caller cpu with
  | some t =>
    if ∀ c ∈ sys.calls, receives = true ∨ c.receives = true → c.ptr ≠ ptr then
      some ⟨t, sys.count, receives, ptr⟩
    else
      none
  | none => none

def start (c : ChannelCall) (channel : ChannelState) (scheduler : Scheduler) (memory : Nat → V) :
    ChannelSystem V :=
  { sys with
    scheduler, channel, memory
    calls := c :: sys.calls
    count := sys.count + 1
    passed := if c.receives then sys.passed
      else Function.update sys.passed c.id (some (sys.memory c.ptr)) }

def finish (c : ChannelCall) : ChannelSystem V :=
  { sys with
    calls := sys.calls.erase c
    returned := if c.receives then sys.returned else c.id :: sys.returned
    received := if c.receives then (c.id, sys.memory c.ptr) :: sys.received else sys.received }

/-- One critical section of one core, on a channel at `self`. `store` is any other write to memory,
    which leaves alone what the calls refer to. -/
def step (config : Config) (self : Nat) (e : Nat × ChannelEvent V) (sys : ChannelSystem V) :
    Except Fault (ChannelSystem V) :=
  let cpu : Cpu := ⟨config, e.1⟩
  if e.1 < config.coreCount then
    match e.2 with
    | .op o =>
      if o.blocking ∧ (sys.caller cpu).isNone then
        .error .disabled
      else do
        return { sys with scheduler := ← o.run cpu sys.scheduler }
    | .store addr v =>
      if ∀ c ∈ sys.calls, c.ptr ≠ addr then
        .ok { sys with memory := Function.update sys.memory addr v }
      else
        .error .disabled
    | .send something =>
      match sys.beginCall cpu false something with
      | none => .error .disabled
      | some c => do
        let (channel, s, memory) ← sys.channel.send cpu sys.scheduler sys.memory self something
        return sys.start c channel s memory
    | .trySend something =>
      match sys.beginCall cpu false something with
      | none => .error .disabled
      | some c => do
        let (channel, s, memory, sent) ← sys.channel.trySend cpu sys.scheduler sys.memory something
        if sent then
          return (sys.start c channel s memory).finish c
        else
          return { sys with channel, scheduler := s, memory }
    | .recv res =>
      match sys.beginCall cpu true res with
      | none => .error .disabled
      | some c => do
        let (channel, s, memory) ← sys.channel.recv cpu sys.scheduler sys.memory res
        return sys.start c channel s memory
    | .tryRecv res =>
      match sys.beginCall cpu true res with
      | none => .error .disabled
      | some c => do
        let (channel, s, memory, haveReceived) ←
          sys.channel.tryRecv cpu sys.scheduler sys.memory res
        if haveReceived then
          return (sys.start c channel s memory).finish c
        else
          return { sys with channel, scheduler := s, memory }
    | .callReturn =>
      match (sys.scheduler.executing cpu).bind sys.callOf with
      | none => .error .disabled
      | some c => .ok (sys.finish c)
  else
    .error .disabled

end ChannelSystem

end ArielOS
