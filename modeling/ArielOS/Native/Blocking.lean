import ArielOS.Native.InfiniCore

namespace ArielOS.Native

open Machine

namespace InfiniCore

variable {sys sys' : InfiniCore} {h tid : Nat} {host : HostThread} {state : ThreadState}

/-- A thread only continues if it was runnable since its wait began. -/
def BlocksSoundly (sys : InfiniCore) : Prop := ∀ c ∈ sys.continued, c.2 = true

/-- Between the state's change and the end of `set_running`. -/
def InSetRunning (sys : InfiniCore) (tid : Nat) : Prop :=
  (sys.pending = .setRunning tid ∧ sys.threadRunnable tid = 0) ∨ sys.pending = .wakeOne tid

/-- No thread that is to run sleeps, but for the time that `set_running` takes. -/
def WakesCompletely (sys : InfiniCore) : Prop :=
  ∀ tid h, sys.waitsOn tid h = true → sys.live h = true → sys.states tid = .running →
    sys.InSetRunning tid

/-- No thread wakes up before it is runnable, and none that is finished in the place of one that is
    not. -/
def WakesRightly : InfiniEvent → InfiniCore → Prop
  | .wakeSpuriously h, sys => ∀ host ∈ sys.hosts h, host.phase ≠ .waiting false
  | .wakeOne (some h), sys => sys.live h = true ∨ ∀ h' < sys.spawned, ∀ tid < threadCount,
      sys.waitsOn tid h = true → sys.waitsOn tid h' = true → sys.live h' = false
  | _, _ => True

theorem waitsOn_iff : sys.waitsOn tid h = true ↔
    ∃ wasRunnable finished, sys.hosts h = some ⟨tid, .waiting wasRunnable, finished⟩ := by
  unfold waitsOn
  cases here : sys.hosts h with
  | none => simp
  | some host =>
    obtain ⟨tid', phase, finished⟩ := host
    cases phase with
    | waiting wasRunnable =>
      simp only [decide_eq_true_eq, Option.some.injEq, HostThread.mk.injEq, HostPhase.waiting.injEq]
      exact ⟨fun same => ⟨wasRunnable, finished, same, rfl, rfl⟩, fun ⟨_, _, same, _, _⟩ => same⟩
    | _ => simp

theorem live_iff : sys.live h = true ↔ ∃ host, sys.hosts h = some host ∧ host.finished = false := by
  unfold live
  cases sys.hosts h <;> simp

/-- What the host threads and the words are like in every state, whoever was woken. -/
structure Consistent (sys : InfiniCore) : Prop where
  bound : ∀ h host, sys.hosts h = some host → h < sys.spawned ∧ host.tid < threadCount
  unique : ∀ h h' host host', sys.hosts h = some host → sys.hosts h' = some host' →
    host.finished = false → host'.finished = false → host.tid = host'.tid → h = h'
  valid : ∀ h host, sys.hosts h = some host → host.finished = false →
    sys.states host.tid ≠ .invalid
  word : ∀ tid, sys.pending ≠ .setRunning tid → sys.pending ≠ .setStopped tid →
    (sys.threadRunnable tid ≠ 0 ↔ sys.states tid = .running)
  readied : ∀ tid, sys.pending = .setRunning tid ∨ sys.pending = .wakeOne tid →
    sys.states tid = .running
  stopped : ∀ tid, sys.pending = .setStopped tid → sys.states tid ≠ .running
  marked : ∀ tid h host, sys.pending = .wakeOne tid → sys.hosts h = some host → host.tid = tid →
    host.phase ≠ .waiting false

/-- As long as threads are woken rightly, no thread sleeps at a word that is not 0. -/
structure Rested (sys : InfiniCore) : Prop where
  sound : sys.BlocksSoundly
  asleep : ∀ h host wasRunnable, sys.hosts h = some host → host.finished = false →
    host.phase = .waiting wasRunnable →
    sys.threadRunnable host.tid = 0 ∨ sys.pending = .wakeOne host.tid

theorem Rested.wakesCompletely (rested : Rested sys) (consistent : Consistent sys) :
    sys.WakesCompletely := by
  intro tid h waits live running
  obtain ⟨wasRunnable, finished, here⟩ := waitsOn_iff.mp waits
  obtain ⟨host, here', unfinished⟩ := live_iff.mp live
  obtain rfl := Option.some.inj (here.symm.trans here')
  rcases rested.asleep h _ wasRunnable here unfinished rfl with zero | waking
  · left
    refine ⟨?_, zero⟩
    by_contra other
    have stops : sys.pending ≠ .setStopped tid := fun stops => consistent.stopped tid stops running
    exact (consistent.word tid other stops).mpr running zero
  · exact Or.inr waking

theorem new_consistent : Consistent new where
  bound := fun _ _ => nofun
  unique := fun _ _ _ _ => nofun
  valid := fun _ _ => nofun
  word := fun _ _ _ => ⟨fun used => absurd rfl used, nofun⟩
  readied := fun _ => by rintro (same | same) <;> cases same
  stopped := fun _ => nofun
  marked := fun _ _ _ => nofun

theorem new_rested : Rested new where
  sound := nofun
  asleep := fun _ _ _ => nofun

section Updates

variable {host' : HostThread} {wasRunnable : Bool}

theorem Consistent.congr (consistent : Consistent sys) (hosts : sys'.hosts = sys.hosts)
    (states : sys'.states = sys.states) (words : sys'.threadRunnable = sys.threadRunnable)
    (pending : sys'.pending = sys.pending) (spawned : sys'.spawned = sys.spawned) :
    Consistent sys' := by
  obtain ⟨_, _, _, _, _, _, _⟩ := sys
  obtain ⟨_, _, _, _, _, _, _⟩ := sys'
  cases hosts
  cases states
  cases words
  cases pending
  cases spawned
  exact ⟨consistent.bound, consistent.unique, consistent.valid, consistent.word,
    consistent.readied, consistent.stopped, consistent.marked⟩

theorem Consistent.wakeOne_word (consistent : Consistent sys) (waking : sys.pending = .wakeOne tid) :
    sys.threadRunnable tid ≠ 0 := by
  refine (consistent.word tid ?_ ?_).mpr (consistent.readied tid (Or.inr waking))
  · rw [waking]
    exact nofun
  · rw [waking]
    exact nofun

theorem hosts_setHost {u : Nat} {other : HostThread} (found : (sys.setHost h host').hosts u = some other) :
    (u = h ∧ other = host') ∨ (u ≠ h ∧ sys.hosts u = some other) := by
  change Function.update sys.hosts h (some host') u = some other at found
  by_cases own : u = h
  · rw [own, Function.update_self] at found
    exact Or.inl ⟨own, (Option.some.inj found).symm⟩
  · rw [Function.update_of_ne own] at found
    exact Or.inr ⟨own, found⟩

/-- A host thread goes on, and stays with its thread. -/
theorem Consistent.setHost (consistent : Consistent sys) (here : sys.hosts h = some host)
    (same : host'.tid = host.tid) (finishes : host'.finished = false → host.finished = false)
    (marked : ∀ tid, sys.pending = .wakeOne tid → host'.tid = tid → host'.phase ≠ .waiting false) :
    Consistent (sys.setHost h host') := by
  have before : ∀ u other, (sys.setHost h host').hosts u = some other →
      ∃ old, sys.hosts u = some old ∧ other.tid = old.tid ∧
        (other.finished = false → old.finished = false) := by
    intro u other found
    rcases hosts_setHost found with ⟨rfl, rfl⟩ | ⟨-, found⟩
    · exact ⟨host, here, same, finishes⟩
    · exact ⟨other, found, rfl, id⟩
  refine ⟨?_, ?_, ?_, consistent.word, consistent.readied, consistent.stopped, ?_⟩
  · intro u other found
    obtain ⟨old, found, tid, -⟩ := before u other found
    rw [tid]
    exact consistent.bound u old found
  · intro u u' other other' found found' unfinished unfinished' tids
    obtain ⟨old, found, tid, live⟩ := before u other found
    obtain ⟨old', found', tid', live'⟩ := before u' other' found'
    exact consistent.unique u u' old old' found found' (live unfinished) (live' unfinished')
      (tid.symm.trans (tids.trans tid'))
  · intro u other found unfinished
    obtain ⟨old, found, tid, live⟩ := before u other found
    rw [tid]
    exact consistent.valid u old found (live unfinished)
  · intro tid u other waking found own
    rcases hosts_setHost found with ⟨rfl, rfl⟩ | ⟨-, found⟩
    · exact marked tid waking own
    · exact consistent.marked tid u other waking found own

theorem Rested.setHost (rested : Rested sys)
    (asleep : ∀ wasRunnable, host'.finished = false → host'.phase = .waiting wasRunnable →
      sys.threadRunnable host'.tid = 0 ∨ sys.pending = .wakeOne host'.tid) :
    Rested (sys.setHost h host') := by
  refine ⟨rested.sound, fun u other wasRunnable found unfinished waits => ?_⟩
  rcases hosts_setHost found with ⟨rfl, rfl⟩ | ⟨-, found⟩
  · exact asleep wasRunnable unfinished waits
  · exact rested.asleep u other wasRunnable found unfinished waits

theorem resumed_phase (host : HostThread) (wasRunnable : Bool) :
    (if host.finished then HostPhase.ended else .running) ≠ .waiting wasRunnable := by
  split <;> exact nofun

theorem Consistent.resume (consistent : Consistent sys) (here : sys.hosts h = some host) :
    Consistent (sys.resume h host wasRunnable) := by
  have set : Consistent (sys.setHost h
      { host with phase := if host.finished then .ended else .running }) :=
    consistent.setHost here rfl id fun _ _ _ => resumed_phase host false
  exact set.congr rfl rfl rfl rfl rfl

theorem Rested.resume (rested : Rested sys) (runnable : wasRunnable = true) :
    Rested (sys.resume h host wasRunnable) := by
  have set : Rested (sys.setHost h
      { host with phase := if host.finished then .ended else .running }) :=
    rested.setHost fun _ _ waits => absurd waits (resumed_phase host _)
  refine ⟨fun c member => ?_, set.asleep⟩
  rcases List.mem_cons.mp member with rfl | earlier
  · exact runnable
  · exact rested.sound c earlier

/-- The critical section does something new. -/
def Idle (sys : InfiniCore) : Prop := sys.pending = .none ∨ ∃ tid, sys.pending = .created tid

theorem Idle.ne_setRunning (idle : sys.Idle) : sys.pending ≠ .setRunning tid := by
  rcases idle with same | ⟨tid, same⟩ <;> rw [same] <;> exact nofun

theorem Idle.ne_setStopped (idle : sys.Idle) : sys.pending ≠ .setStopped tid := by
  rcases idle with same | ⟨tid, same⟩ <;> rw [same] <;> exact nofun

theorem Idle.ne_wakeOne (idle : sys.Idle) : sys.pending ≠ .wakeOne tid := by
  rcases idle with same | ⟨tid, same⟩ <;> rw [same] <;> exact nofun

theorem Idle.word (idle : sys.Idle) (consistent : Consistent sys) (tid : Nat) :
    sys.threadRunnable tid ≠ 0 ↔ sys.states tid = .running :=
  consistent.word tid idle.ne_setRunning idle.ne_setStopped

theorem Rested.idle (rested : Rested sys) (other : ∀ tid, sys.pending ≠ .wakeOne tid)
    (hosts : sys'.hosts = sys.hosts)
    (words : ∀ tid, sys.threadRunnable tid = 0 → sys'.threadRunnable tid = 0)
    (continued : sys'.continued = sys.continued) : Rested sys' where
  sound := by
    rw [BlocksSoundly, continued]
    exact rested.sound
  asleep := by
    intro u host wasRunnable found unfinished waits
    rw [hosts] at found
    rcases rested.asleep u host wasRunnable found unfinished waits with zero | waking
    · exact Or.inl (words _ zero)
    · exact absurd waking (other _)

theorem Consistent.ready (consistent : Consistent sys) (idle : sys.Idle) (tid : Nat) :
    Consistent (sys.ready tid) := by
  refine ⟨consistent.bound, consistent.unique, ?_, ?_, ?_, fun _ => nofun, fun _ _ _ => nofun⟩
  · intro u other found unfinished
    change Function.update sys.states tid .running other.tid ≠ .invalid
    by_cases own : other.tid = tid
    · rw [own, Function.update_self]
      exact nofun
    · rw [Function.update_of_ne own]
      exact consistent.valid u other found unfinished
  · intro n other _
    have apart : n ≠ tid := fun same => other (same ▸ rfl)
    change sys.threadRunnable n ≠ 0 ↔ Function.update sys.states tid .running n = .running
    rw [Function.update_of_ne apart]
    exact idle.word consistent n
  · rintro n (same | same)
    · cases same
      exact Function.update_self ..
    · cases same

theorem pending_stop (sys : InfiniCore) (tid : Nat) (state : ThreadState) :
    ((sys.stop tid state).pending = .setStopped tid ∧ sys.states tid = .running) ∨
      ((sys.stop tid state).pending = .none ∧ sys.states tid ≠ .running) := by
  by_cases running : sys.states tid = .running
  · exact Or.inl ⟨if_pos running, running⟩
  · exact Or.inr ⟨if_neg running, running⟩

theorem Consistent.stop (consistent : Consistent sys) (idle : sys.Idle) (stops : state ≠ .running)
    (left : ∀ u other, sys.hosts u = some other → other.finished = false → other.tid = tid →
      state ≠ .invalid) : Consistent (sys.stop tid state) := by
  have pending := pending_stop sys tid state
  refine ⟨consistent.bound, consistent.unique, ?_, ?_, ?_, ?_, ?_⟩
  · intro u other found unfinished
    change Function.update sys.states tid state other.tid ≠ .invalid
    by_cases own : other.tid = tid
    · rw [own, Function.update_self]
      exact left u other found unfinished own
    · rw [Function.update_of_ne own]
      exact consistent.valid u other found unfinished
  · intro n _ other
    change sys.threadRunnable n ≠ 0 ↔ Function.update sys.states tid state n = .running
    by_cases own : n = tid
    · subst own
      have before : sys.states n ≠ .running := by
        rcases pending with ⟨due, -⟩ | ⟨-, before⟩
        · exact absurd due other
        · exact before
      rw [Function.update_self, idle.word consistent n]
      exact ⟨fun running => absurd running before, fun running => absurd running stops⟩
    · rw [Function.update_of_ne own]
      exact idle.word consistent n
  · intro n either
    rcases pending with ⟨due, -⟩ | ⟨due, -⟩ <;> rw [due] at either <;>
      rcases either with same | same <;> cases same
  · intro n same
    rcases pending with ⟨due, -⟩ | ⟨due, -⟩ <;> rw [due] at same <;> cases same
    change Function.update sys.states tid state tid ≠ .running
    rw [Function.update_self]
    exact stops
  · intro n u other same
    rcases pending with ⟨due, -⟩ | ⟨due, -⟩ <;> rw [due] at same <;> cases same

theorem markRunnable_tid (tid : Nat) (host : HostThread) : (markRunnable tid host).tid = host.tid := by
  unfold markRunnable
  split
  · split <;> rfl
  · rfl

theorem markRunnable_finished (tid : Nat) (host : HostThread) :
    (markRunnable tid host).finished = host.finished := by
  unfold markRunnable
  split
  · split <;> rfl
  · rfl

theorem markRunnable_waiting (waits : (markRunnable tid host).phase = .waiting wasRunnable) :
    (∃ before, host.phase = .waiting before) ∧ (host.tid = tid → wasRunnable = true) := by
  unfold markRunnable at waits
  split at waits
  · rename_i before here
    refine ⟨⟨before, here⟩, fun own => ?_⟩
    rw [if_pos own] at waits
    cases waits
    rfl
  · rename_i other
    exact absurd waits (other wasRunnable)

theorem hosts_swap {u : Nat} {other : HostThread} (found : (sys.swap tid).hosts u = some other) :
    ∃ old, sys.hosts u = some old ∧ other = markRunnable tid old := by
  obtain ⟨old, here, same⟩ := Option.map_eq_some_iff.mp found
  exact ⟨old, here, same.symm⟩

theorem pending_swap (sys : InfiniCore) (tid : Nat) :
    (sys.swap tid).pending = .wakeOne tid ∨ (sys.swap tid).pending = .none := by
  by_cases zero : sys.threadRunnable tid = 0
  · exact Or.inl (if_pos zero)
  · exact Or.inr (if_neg zero)

theorem Consistent.swap (consistent : Consistent sys) (due : sys.pending = .setRunning tid) :
    Consistent (sys.swap tid) := by
  have pending : ∀ n, (sys.swap tid).pending = .wakeOne n → n = tid := by
    intro n same
    rcases pending_swap sys tid with due | due <;> rw [due] at same <;> cases same
    rfl
  have running := consistent.readied tid (Or.inl due)
  refine ⟨?_, ?_, ?_, ?_, ?_, ?_, ?_⟩
  · intro u other found
    obtain ⟨old, here, rfl⟩ := hosts_swap found
    rw [markRunnable_tid]
    exact consistent.bound u old here
  · intro u u' other other' found found' unfinished unfinished' tids
    obtain ⟨old, here, rfl⟩ := hosts_swap found
    obtain ⟨old', here', rfl⟩ := hosts_swap found'
    rw [markRunnable_finished] at unfinished unfinished'
    rw [markRunnable_tid, markRunnable_tid] at tids
    exact consistent.unique u u' old old' here here' unfinished unfinished' tids
  · intro u other found unfinished
    obtain ⟨old, here, rfl⟩ := hosts_swap found
    rw [markRunnable_finished] at unfinished
    rw [markRunnable_tid]
    exact consistent.valid u old here unfinished
  · intro n _ _
    change Function.update sys.threadRunnable tid 1 n ≠ 0 ↔ sys.states n = .running
    by_cases own : n = tid
    · rw [own, Function.update_self]
      exact ⟨fun _ => running, fun _ => Nat.one_ne_zero⟩
    · rw [Function.update_of_ne own]
      refine consistent.word n ?_ ?_
      · rw [due]
        intro same
        cases same
        exact own rfl
      · rw [due]
        exact nofun
  · rintro n (same | same)
    · rcases pending_swap sys tid with due | due <;> rw [due] at same <;> cases same
    · rw [pending n same]
      exact running
  · intro n same
    rcases pending_swap sys tid with due | due <;> rw [due] at same <;> cases same
  · intro n u other same found own waits
    obtain ⟨old, here, rfl⟩ := hosts_swap found
    rw [markRunnable_tid, pending n same] at own
    cases (markRunnable_waiting waits).2 own

theorem Rested.swap (rested : Rested sys) (due : sys.pending = .setRunning tid) :
    Rested (sys.swap tid) := by
  refine ⟨rested.sound, fun u other wasRunnable found unfinished waits => ?_⟩
  obtain ⟨old, here, rfl⟩ := hosts_swap found
  obtain ⟨⟨before, waited⟩, -⟩ := markRunnable_waiting waits
  rw [markRunnable_finished] at unfinished
  rw [markRunnable_tid]
  have zero : sys.threadRunnable old.tid = 0 := by
    rcases rested.asleep u old before here unfinished waited with zero | waking
    · exact zero
    · rw [due] at waking
      cases waking
  by_cases own : old.tid = tid
  · rw [own] at zero ⊢
    exact Or.inr (if_pos zero)
  · left
    change Function.update sys.threadRunnable tid 1 old.tid = 0
    rw [Function.update_of_ne own]
    exact zero

theorem Consistent.store (consistent : Consistent sys) (due : sys.pending = .setStopped tid) :
    Consistent (sys.store tid) := by
  refine ⟨consistent.bound, consistent.unique, consistent.valid, ?_, ?_, fun _ => nofun,
    fun _ _ _ => nofun⟩
  · intro n _ _
    change Function.update sys.threadRunnable tid 0 n ≠ 0 ↔ sys.states n = .running
    by_cases own : n = tid
    · rw [own, Function.update_self]
      exact ⟨fun used => absurd rfl used, fun running => absurd running (consistent.stopped tid due)⟩
    · rw [Function.update_of_ne own]
      refine consistent.word n ?_ ?_
      · rw [due]
        exact nofun
      · rw [due]
        intro same
        cases same
        exact own rfl
  · rintro n (same | same) <;> cases same

end Updates

theorem acts_idle (acts : sys.acts = true) : sys.Idle := by
  unfold InfiniCore.acts at acts
  split at acts
  · cases acts
  · exact Or.inl (of_decide_eq_true acts)
  · exact Or.inl (of_decide_eq_true (Bool.and_eq_true_iff.mp acts).1)

theorem getUnused_ok (found : sys.getUnused = some tid) : tid < threadCount ∧ sys.states tid = .invalid := by
  have member := List.mem_of_find?_eq_some found
  have chosen := List.find?_some (p := fun i => decide (sys.states i = .invalid)) found
  exact ⟨List.mem_range.mp member, of_decide_eq_true chosen⟩

/-- A new thread gets a slot that no thread has which is not finished. -/
theorem Consistent.create (consistent : Consistent sys) (idle : sys.Idle)
    (found : sys.getUnused = some tid) :
    Consistent { sys.setHost sys.spawned ⟨tid, .spawned, false⟩ with
      states := Function.update sys.states tid .parked
      spawned := sys.spawned + 1
      pending := .created tid } := by
  obtain ⟨bound, unused⟩ := getUnused_ok found
  have free : ∀ u other, sys.hosts u = some other → other.finished = false → other.tid ≠ tid := by
    intro u other here unfinished own
    exact consistent.valid u other here unfinished (own ▸ unused)
  refine ⟨?_, ?_, ?_, ?_, ?_, fun _ => nofun, fun _ _ _ => nofun⟩
  · intro u other here
    rcases hosts_setHost here with ⟨rfl, rfl⟩ | ⟨-, here⟩
    · exact ⟨Nat.lt_succ_self _, bound⟩
    · obtain ⟨below, small⟩ := consistent.bound u other here
      exact ⟨Nat.lt_succ_of_lt below, small⟩
  · intro u u' other other' here here' unfinished unfinished' tids
    rcases hosts_setHost here with ⟨rfl, rfl⟩ | ⟨-, here⟩
    · rcases hosts_setHost here' with ⟨rfl, -⟩ | ⟨-, here'⟩
      · rfl
      · exact absurd tids.symm (free u' other' here' unfinished')
    · rcases hosts_setHost here' with ⟨rfl, rfl⟩ | ⟨-, here'⟩
      · exact absurd tids (free u other here unfinished)
      · exact consistent.unique u u' other other' here here' unfinished unfinished' tids
  · intro u other here unfinished
    dsimp only
    rcases hosts_setHost here with ⟨-, rfl⟩ | ⟨-, here⟩
    · rw [Function.update_self]
      exact nofun
    · rw [Function.update_of_ne (free u other here unfinished)]
      exact consistent.valid u other here unfinished
  · intro n _ _
    change sys.threadRunnable n ≠ 0 ↔ Function.update sys.states tid .parked n = .running
    rw [idle.word consistent n]
    by_cases own : n = tid
    · rw [own, Function.update_self, unused]
      exact ⟨nofun, nofun⟩
    · rw [Function.update_of_ne own]
  · rintro n (same | same) <;> cases same

theorem Rested.create (rested : Rested sys) (idle : sys.Idle) :
    Rested { sys.setHost sys.spawned ⟨tid, .spawned, false⟩ with
      states := Function.update sys.states tid .parked
      spawned := sys.spawned + 1
      pending := .created tid } := by
  have set : Rested (sys.setHost sys.spawned ⟨tid, .spawned, false⟩) :=
    rested.setHost fun _ _ => nofun
  exact set.idle (fun _ => idle.ne_wakeOne) rfl (fun _ => id) rfl

theorem Consistent.finish (consistent : Consistent sys) (idle : sys.Idle)
    (here : sys.hosts h = some host) (unfinished : host.finished = false) :
    Consistent ((sys.setHost h { host with finished := true }).stop host.tid .invalid) := by
  have set : Consistent (sys.setHost h { host with finished := true }) :=
    consistent.setHost here rfl nofun fun tid waking => absurd waking idle.ne_wakeOne
  refine set.stop idle nofun fun u other found live own => ?_
  rcases hosts_setHost found with ⟨-, rfl⟩ | ⟨apart, found⟩
  · cases live
  · exact absurd (consistent.unique u h other host found here live unfinished own) apart

theorem Consistent.wait (consistent : Consistent sys) (here : sys.hosts h = some host)
    (zero : sys.threadRunnable host.tid = 0) :
    Consistent (sys.setHost h { host with phase := .waiting false }) := by
  refine consistent.setHost here rfl id fun tid waking own => ?_
  have own : host.tid = tid := own
  exact absurd (own ▸ zero) (consistent.wakeOne_word waking)

/-- A host thread goes on outside of the waits, and the critical section is left or entered. -/
theorem Consistent.move (consistent : Consistent sys) (here : sys.hosts h = some host)
    (phase : HostPhase) (awake : ∀ wasRunnable, phase ≠ .waiting wasRunnable)
    (holder : Option Holder) :
    Consistent { sys.setHost h { host with phase } with holder } ∧
      (Rested sys → Rested { sys.setHost h { host with phase } with holder }) := by
  have set : Consistent (sys.setHost h { host with phase }) :=
    consistent.setHost here rfl id fun _ _ _ => awake false
  refine ⟨set.congr rfl rfl rfl rfl rfl, fun rested => ?_⟩
  have next : Rested (sys.setHost h { host with phase }) :=
    rested.setHost fun wasRunnable _ waits => absurd waits (awake wasRunnable)
  exact ⟨next.sound, next.asleep⟩

theorem Consistent.woken (consistent : Consistent sys) (waking : sys.pending = .wakeOne tid) :
    Consistent { sys with pending := .none } where
  bound := consistent.bound
  unique := consistent.unique
  valid := consistent.valid
  word := fun n _ _ => by
    refine consistent.word n ?_ ?_
    · rw [waking]
      exact nofun
    · rw [waking]
      exact nofun
  readied := fun n => by rintro (same | same) <;> cases same
  stopped := fun _ => nofun
  marked := fun _ _ _ => nofun

/-- After `wake_one` all that sleep do so at a word that is 0, if no other sleeps there. -/
theorem Rested.woken (rested : Rested sys) (waking : sys.pending = .wakeOne tid)
    (others : ∀ u, sys.waitsOn tid u = true → sys.live u = false) :
    Rested { sys with pending := .none } := by
  refine ⟨rested.sound, fun u host wasRunnable here unfinished waits => Or.inl ?_⟩
  rcases rested.asleep u host wasRunnable here unfinished waits with zero | waking'
  · exact zero
  · have same : host.tid = tid := by
      rw [waking] at waking'
      cases waking'
      rfl
    have sleeps : sys.waitsOn tid u = true := by
      obtain ⟨tid', phase, finished⟩ := host
      cases waits
      cases same
      exact waitsOn_iff.mpr ⟨wasRunnable, finished, here⟩
    have lives : sys.live u = true := live_iff.mpr ⟨host, here, unfinished⟩
    rw [others u sleeps] at lives
    cases lives

theorem resume_apart {u : Nat} (sys : InfiniCore) (tid : Nat) (host : HostThread)
    (wasRunnable : Bool) (apart : u ≠ h) :
    (sys.resume h host wasRunnable).waitsOn tid u = sys.waitsOn tid u ∧
      (sys.resume h host wasRunnable).live u = sys.live u := by
  have same : (sys.resume h host wasRunnable).hosts u = sys.hosts u := Function.update_of_ne apart ..
  rw [waitsOn, waitsOn, live, live, same]
  exact ⟨rfl, rfl⟩

theorem resume_awake {wasRunnable : Bool} :
    (sys.resume h host wasRunnable).waitsOn tid h = false := by
  refine Bool.not_eq_true _ ▸ fun waits => ?_
  obtain ⟨seen, finished, here⟩ := waitsOn_iff.mp waits
  rcases hosts_setHost here with ⟨-, same⟩ | ⟨apart, -⟩
  · exact absurd (congrArg HostThread.phase same).symm (resumed_phase host seen)
  · exact apart rfl

/-- One that is woken rightly leaves no thread asleep that is not finished. -/
theorem Consistent.others {u : Nat} {wasRunnable finished : Bool} (consistent : Consistent sys)
    (here : sys.hosts h = some ⟨tid, .waiting wasRunnable, finished⟩)
    (rightly : WakesRightly (.wakeOne (some h)) sys) (apart : u ≠ h)
    (sleeps : sys.waitsOn tid u = true) : sys.live u = false := by
  obtain ⟨seen, finished', here'⟩ := waitsOn_iff.mp sleeps
  rcases rightly with lives | alone
  · cases finished' with
    | true => rw [live, here']; rfl
    | false =>
      obtain ⟨other, same, unfinished⟩ := live_iff.mp lives
      obtain rfl := Option.some.inj (here.symm.trans same)
      exact absurd (consistent.unique u h _ _ here' here rfl unfinished rfl) apart
  · exact alone u (consistent.bound u _ here').1 tid (consistent.bound h _ here).2
      (waitsOn_iff.mpr ⟨wasRunnable, finished, here⟩) sleeps

/-- What a step does, and what it does so for. -/
inductive Effect (sys : InfiniCore) : InfiniEvent → InfiniCore → Prop
  | locked : Effect sys (.acquire .other) { sys with holder := some .other }
  | entered (h tid : Nat) (finished : Bool) (here : sys.hosts h = some ⟨tid, .running, finished⟩) :
      Effect sys (.acquire (.host h))
        { sys.setHost h ⟨tid, .critical, finished⟩ with holder := some (.host h) }
  | unlocked : Effect sys .release { sys with holder := none }
  | released (h : Nat) (host : HostThread) (here : sys.hosts h = some host) :
      Effect sys .release { sys.setHost h { host with phase := .released } with holder := none }
  | created (tid : Nat) (idle : sys.Idle) (found : sys.getUnused = some tid) : Effect sys .create
      { sys.setHost sys.spawned ⟨tid, .spawned, false⟩ with
        states := Function.update sys.states tid .parked
        spawned := sys.spawned + 1
        pending := .created tid }
  | readied (tid : Nat) (idle : sys.Idle) : Effect sys (.setRunning tid) (sys.ready tid)
  | stopped (tid : Nat) (state : ThreadState) (idle : sys.Idle) (stops : state ≠ .running)
      (valid : state ≠ .invalid) : Effect sys (.setStopped state) (sys.stop tid state)
  | finished (h : Nat) (host : HostThread) (idle : sys.Idle) (here : sys.hosts h = some host)
      (unfinished : host.finished = false) :
      Effect sys .finish ((sys.setHost h { host with finished := true }).stop host.tid .invalid)
  | started (tid : Nat) (idle : sys.Idle) (running : sys.states tid = .running) :
      Effect sys (.startThreading tid) { sys with pending := .setRunning tid }
  | begun (tid : Nat) (due : sys.pending = .created tid) : Effect sys .proceed (sys.ready tid)
  | swapped (tid : Nat) (due : sys.pending = .setRunning tid) : Effect sys .proceed (sys.swap tid)
  | stored (tid : Nat) (due : sys.pending = .setStopped tid) : Effect sys .proceed (sys.store tid)
  | woken (tid h : Nat) (wasRunnable finished : Bool) (due : sys.pending = .wakeOne tid)
      (here : sys.hosts h = some ⟨tid, .waiting wasRunnable, finished⟩) :
      Effect sys (.wakeOne (some h))
        { sys.resume h ⟨tid, .waiting wasRunnable, finished⟩ wasRunnable with pending := .none }
  | nobody (tid : Nat) (due : sys.pending = .wakeOne tid)
      (awake : ¬ ∃ h < sys.spawned, sys.waitsOn tid h = true) :
      Effect sys (.wakeOne none) { sys with pending := .none }
  | passed (h : Nat) (host : HostThread) (here : sys.hosts h = some host) :
      Effect sys (.wait h) (sys.resume h host true)
  | slept (h : Nat) (host : HostThread) (here : sys.hosts h = some host)
      (zero : sys.threadRunnable host.tid = 0) :
      Effect sys (.wait h) (sys.setHost h { host with phase := .waiting false })
  | woke (h tid : Nat) (wasRunnable finished : Bool)
      (here : sys.hosts h = some ⟨tid, .waiting wasRunnable, finished⟩) :
      Effect sys (.wakeSpuriously h) (sys.resume h ⟨tid, .waiting wasRunnable, finished⟩ wasRunnable)

theorem step_effect {e : InfiniEvent} (done : step e sys = .ok sys') : Effect sys e sys' := by
  unfold step at done
  cases e with
  | acquire who =>
    dsimp only at done
    split at done
    · cases done
    · cases done
      exact .locked
    · split at done
      · rename_i h _ _ tid finished here
        cases done
        exact .entered h tid finished here
      · cases done
  | release =>
    dsimp only at done
    split at done
    · cases done
      exact .unlocked
    · split at done
      · rename_i h _ _ _ host here
        cases done
        exact .released h host here
      · cases done
    · cases done
  | create =>
    dsimp only at done
    split at done
    · rename_i acts
      split at done
      · cases done
      · rename_i tid found
        cases done
        exact .created tid (acts_idle acts) found
    · cases done
  | setRunning tid =>
    dsimp only at done
    split at done
    · cases done
    · rename_i acts
      split at done
      · cases done
        exact .readied tid (acts_idle (not_not.mp acts))
      · cases done
  | setStopped state =>
    dsimp only at done
    split at done
    · split at done
      · rename_i host here
        split at done
        · rename_i may
          obtain ⟨acts, stops, valid⟩ := may
          cases done
          exact .stopped host.tid state (acts_idle acts) stops valid
        · cases done
      · cases done
    · cases done
  | finish =>
    dsimp only at done
    split at done
    · rename_i h holds
      split at done
      · rename_i host here
        split at done
        · rename_i acts
          have unfinished : host.finished = false := by
            have lives := acts
            unfold InfiniCore.acts at lives
            rw [holds] at lives
            obtain ⟨other, here', live⟩ := live_iff.mp (Bool.and_eq_true_iff.mp lives).2
            obtain rfl := Option.some.inj (here.symm.trans here')
            exact live
          cases done
          exact .finished h host (acts_idle acts) here unfinished
        · cases done
      · cases done
    · cases done
  | startThreading tid =>
    dsimp only at done
    split at done
    · rename_i starts
      obtain ⟨-, free, -, running⟩ := starts
      cases done
      exact .started tid (Or.inl free) running
    · cases done
  | proceed =>
    dsimp only at done
    split at done
    · rename_i tid due
      cases done
      exact .begun tid due
    · rename_i tid due
      cases done
      exact .swapped tid due
    · rename_i tid due
      cases done
      exact .stored tid due
    · cases done
  | wakeOne chosen =>
    dsimp only at done
    split at done
    · rename_i tid h due
      split at done
      · rename_i tid' wasRunnable finished here
        split at done
        · rename_i own
          subst own
          cases done
          exact .woken tid' h wasRunnable finished due here
        · cases done
      · cases done
    · rename_i tid due
      split at done
      · cases done
      · rename_i awake
        cases done
        exact .nobody tid due awake
    · cases done
  | wait h =>
    dsimp only at done
    split at done
    · rename_i host here
      split at done
      · split at done
        · cases done
          exact .passed h host here
        · rename_i zero
          cases done
          exact .slept h host here (not_not.mp zero)
      · cases done
    · cases done
  | wakeSpuriously h =>
    dsimp only at done
    split at done
    · rename_i tid wasRunnable finished here
      cases done
      exact .woke h tid wasRunnable finished here
    · cases done

theorem Effect.consistent {e : InfiniEvent} (effect : Effect sys e sys') (consistent : Consistent sys) :
    Consistent sys' := by
  cases effect with
  | locked => exact consistent.congr rfl rfl rfl rfl rfl
  | entered h tid finished here => exact (consistent.move here .critical (fun _ => nofun) _).1
  | unlocked => exact consistent.congr rfl rfl rfl rfl rfl
  | released h host here => exact (consistent.move here .released (fun _ => nofun) none).1
  | created tid idle found => exact consistent.create idle found
  | readied tid idle => exact consistent.ready idle tid
  | stopped tid state idle stops valid => exact consistent.stop idle stops fun _ _ _ _ _ => valid
  | finished h host idle here unfinished => exact consistent.finish idle here unfinished
  | started tid idle running =>
    refine ⟨consistent.bound, consistent.unique, consistent.valid, fun n _ _ => idle.word consistent n,
      ?_, fun _ => nofun, fun _ _ _ => nofun⟩
    rintro n (same | same) <;> cases same
    exact running
  | begun tid due => exact consistent.ready (Or.inr ⟨tid, due⟩) tid
  | swapped tid due => exact consistent.swap due
  | stored tid due => exact consistent.store due
  | woken tid h wasRunnable finished due here => exact (consistent.resume here).woken due
  | nobody tid due awake => exact consistent.woken due
  | passed h host here => exact consistent.resume here
  | slept h host here zero => exact consistent.wait here zero
  | woke h tid wasRunnable finished here => exact consistent.resume here

theorem Effect.rested {e : InfiniEvent} (effect : Effect sys e sys') (consistent : Consistent sys)
    (rightly : WakesRightly e sys) (rested : Rested sys) : Rested sys' := by
  cases effect with
  | locked => exact ⟨rested.sound, rested.asleep⟩
  | entered h tid finished here => exact (consistent.move here .critical (fun _ => nofun) _).2 rested
  | unlocked => exact ⟨rested.sound, rested.asleep⟩
  | released h host here => exact (consistent.move here .released (fun _ => nofun) none).2 rested
  | created tid idle found => exact rested.create idle
  | readied tid idle => exact rested.idle (fun _ => idle.ne_wakeOne) rfl (fun _ => id) rfl
  | stopped tid state idle stops valid =>
    exact rested.idle (fun _ => idle.ne_wakeOne) rfl (fun _ => id) rfl
  | finished h host idle here unfinished =>
    have set : Rested (sys.setHost h { host with finished := true }) := rested.setHost fun _ => nofun
    exact set.idle (fun _ => idle.ne_wakeOne) rfl (fun _ => id) rfl
  | started tid idle running => exact rested.idle (fun _ => idle.ne_wakeOne) rfl (fun _ => id) rfl
  | begun tid due =>
    have idle : sys.Idle := Or.inr ⟨tid, due⟩
    exact rested.idle (fun _ => idle.ne_wakeOne) rfl (fun _ => id) rfl
  | swapped tid due => exact rested.swap due
  | stored tid due =>
    refine rested.idle (fun n => ?_) rfl (fun n zero => ?_) rfl
    · rw [due]
      exact nofun
    · change Function.update sys.threadRunnable tid 0 n = 0
      by_cases own : n = tid
      · rw [own, Function.update_self]
      · rw [Function.update_of_ne own]
        exact zero
  | woken tid h wasRunnable finished due here =>
    have runnable : wasRunnable = true := by
      cases wasRunnable with
      | true => rfl
      | false => exact absurd rfl (consistent.marked _ h _ due here rfl)
    refine (rested.resume runnable).woken due fun u waits => ?_
    have apart : u ≠ h := by
      rintro rfl
      rw [resume_awake] at waits
      cases waits
    obtain ⟨sameWait, sameLife⟩ :=
      resume_apart sys tid ⟨tid, .waiting wasRunnable, finished⟩ wasRunnable apart
    rw [sameLife]
    exact consistent.others here rightly apart (sameWait.symm.trans waits)
  | nobody tid due awake =>
    refine rested.woken due fun u sleeps => ?_
    obtain ⟨wasRunnable, finished, here⟩ := waitsOn_iff.mp sleeps
    exact absurd ⟨u, (consistent.bound u _ here).1, sleeps⟩ awake
  | passed h host here => exact rested.resume rfl
  | slept h host here zero => exact rested.setHost fun _ _ _ => Or.inl zero
  | woke h tid wasRunnable finished here =>
    refine rested.resume ?_
    cases wasRunnable with
    | true => rfl
    | false => exact absurd rfl (rightly _ here)

/-- A wake-up that is not right shows at once. -/
theorem Effect.wrongly {e : InfiniEvent} (effect : Effect sys e sys') (consistent : Consistent sys)
    (wrongly : ¬ WakesRightly e sys) : ¬ (sys'.BlocksSoundly ∧ sys'.WakesCompletely) := by
  rintro ⟨sound, complete⟩
  cases effect with
  | woke h tid wasRunnable finished here =>
    refine wrongly fun host found => ?_
    obtain rfl := Option.some.inj (here.symm.trans found)
    have runnable : wasRunnable = true := sound (h, wasRunnable) (List.mem_cons_self ..)
    rw [runnable]
    exact nofun
  | woken tid h wasRunnable finished due here =>
    refine wrongly (or_iff_not_imp_left.mpr fun finishes u below n small waits sleeps => ?_)
    obtain ⟨seen, finished', found⟩ := waitsOn_iff.mp waits
    cases here.symm.trans found
    by_contra lives
    have lives := (Bool.not_eq_false _).mp lives
    have apart : u ≠ h := fun same => finishes (same ▸ lives)
    obtain ⟨sameWait, sameLife⟩ :=
      resume_apart sys tid ⟨tid, .waiting wasRunnable, finished⟩ wasRunnable apart
    rcases complete tid u (sameWait.trans sleeps) (sameLife.trans lives)
      (consistent.readied tid (Or.inr due)) with ⟨due', -⟩ | due'
    · cases due'
    · cases due'
  | _ => exact wrongly trivial

/-- As long as threads are woken rightly they only continue when they are to run, and all that are to
    run wake up. The first one that is not woken rightly ends this. -/
theorem blocking_sound_and_complete (reached : Reaches step WakesRightly new sys) :
    (sys.BlocksSoundly ∧ sys.WakesCompletely) ∧ ∀ e sys', step e sys = .ok sys' →
      ¬ WakesRightly e sys → ¬ (sys'.BlocksSoundly ∧ sys'.WakesCompletely) := by
  obtain ⟨consistent, rested⟩ := reached.invariant (fun sys => Consistent sys ∧ Rested sys)
    ⟨new_consistent, new_rested⟩ fun _ _ _ kept rightly done =>
      have effect := step_effect done
      ⟨effect.consistent kept.1, effect.rested kept.1 rightly kept.2⟩
  exact ⟨⟨rested.sound, rested.wakesCompletely consistent⟩,
    fun e sys' done => (step_effect done).wrongly consistent⟩

section Samples

instance (e : InfiniEvent) (sys : InfiniCore) : Decidable (WakesRightly e sys) :=
  match e with
  | .wakeSpuriously _ => inferInstanceAs (Decidable (∀ _ ∈ _, _))
  | .wakeOne (some _) => inferInstanceAs (Decidable (_ ∨ _))
  | .wakeOne none | .acquire _ | .release | .create | .setRunning _ | .setStopped _ | .finish
  | .startThreading _ | .proceed | .wait _ => .isTrue trivial

/-- A thread finishes, and its host thread sleeps. -/
def finishThread : List InfiniEvent :=
  [.acquire .other, .create, .proceed, .proceed, .wakeOne none, .release, .wait 0,
    .acquire (.host 0), .finish, .proceed, .release, .wait 0]

/-- The host thread of the next thread in the slot does not sleep yet. -/
theorem blocking_sound_and_complete_sample : ∃ sys : InfiniCore,
    sys.continued = [(1, true), (0, true), (0, true)] ∧ sys.BlocksSoundly ∧ sys.WakesCompletely := by
  have run : ∃ sys, Reaches step WakesRightly new sys ∧
      decide (sys.continued = [(1, true), (0, true), (0, true)]) = true :=
    reaches_of_check (finishThread ++ [.acquire .other, .create, .proceed, .proceed,
      .wakeOne (some 0), .release, .wait 1]) (by decide +kernel)
  obtain ⟨sys, reached, continued⟩ := run
  exact ⟨sys, of_decide_eq_true continued, (blocking_sound_and_complete reached).1⟩

/-- A host thread wakes up spuriously, and another one sleeps while that of a finished thread is woken
    in its place. -/
theorem wrong_wakes : (∃ sys, Reachable step new sys ∧ ¬ sys.BlocksSoundly) ∧
    ∃ sys, Reachable step new sys ∧ ¬ sys.WakesCompletely := by
  constructor
  · have run : ∃ sys, Reachable step new sys ∧ decide (sys.continued = [(0, false)]) = true :=
      reaches_of_check [.acquire .other, .create, .wait 0, .wakeSpuriously 0] (by decide +kernel)
    obtain ⟨sys, reached, continued⟩ := run
    refine ⟨sys, reached, fun sound => ?_⟩
    have early := sound (0, false) (by rw [of_decide_eq_true continued]; exact List.mem_singleton_self _)
    cases early
  · have run : ∃ sys, Reachable step new sys ∧
        (sys.waitsOn 0 1 && sys.live 1 && decide (sys.states 0 = .running ∧ sys.pending = .none)) =
          true :=
      reaches_of_check (finishThread ++ [.acquire .other, .create, .wait 1, .proceed, .proceed,
        .wakeOne (some 0), .release]) (by decide +kernel)
    obtain ⟨sys, reached, checked⟩ := run
    simp only [Bool.and_eq_true, decide_eq_true_eq] at checked
    obtain ⟨⟨sleeps, lives⟩, running, free⟩ := checked
    refine ⟨sys, reached, fun complete => ?_⟩
    rcases complete 0 1 sleeps lives running with ⟨due, -⟩ | due <;> rw [free] at due <;> cases due

end Samples

end InfiniCore

end ArielOS.Native
