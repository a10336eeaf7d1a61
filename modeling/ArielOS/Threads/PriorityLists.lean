import Mathlib.Data.List.Perm.Subperm
import ArielOS.Threads.Waiters

namespace ArielOS

open Machine Scheduler Linked

variable {cpu : Cpu} {s s' : Scheduler} {t m : Nat} {state : ThreadState} {list list' : ThreadList}
  {lists : Nat → ThreadList} {W : Nat → List Nat}

namespace Scheduler

def relink (s : Scheduler) (links : Nat → Option Nat) : Scheduler :=
  { s with threadBlocklist := links }

theorem scheduleIfHigherPrio_relink (s : Scheduler) (links : Nat → Option Nat) (tid prio : Nat) :
    (s.relink links).scheduleIfHigherPrio cpu tid prio =
      (relink · links) <$> s.scheduleIfHigherPrio cpu tid prio := by
  unfold scheduleIfHigherPrio
  cases cpu.config with
  | singleCore =>
    have same : (s.relink links).current cpu = s.current cpu := rfl
    dsimp only
    rw [same]
    cases s.current cpu with
    | none => rfl
    | some thread => exact congrArg Except.ok (by dsimp only; split <;> rfl)
  | multiCore chip affinity =>
    dsimp only
    rw [map_bind]
    change s.lowestRunningPrio chip affinity tid >>= _ = _
    congr 1
    funext found
    obtain ⟨core, lowest⟩ := found
    cases lowest with
    | none => rfl
    | some p => exact congrArg Except.ok (by dsimp only; split <;> rfl)

/-- What `set_state` does, and whether it panics, has nothing to do with the lists. -/
theorem setState_relink (s : Scheduler) (links : Nat → Option Nat) (tid : Nat)
    (state : ThreadState) :
    (s.relink links).setState cpu tid state =
      (fun out => (out.1.relink links, out.2)) <$> s.setState cpu tid state := by
  unfold setState
  rw [map_bind]
  change s.getUnchecked tid >>= _ = _
  congr 1
  funext thread
  dsimp only
  rw [apply_ite (Functor.map _)]
  by_cases runs : state = .running
  · rw [if_pos runs, if_pos runs, map_bind]
    change s.runqueue.add tid thread.prio >>= _ = _
    congr 1
    funext r
    rw [map_bind]
    change (({ s.setThread tid { thread with state } with runqueue := r } : Scheduler).relink
      links).scheduleIfHigherPrio cpu tid thread.prio >>= _ = _
    rw [scheduleIfHigherPrio_relink, bind_map_left]
    rfl
  · rw [if_neg runs, if_neg runs, apply_ite (Functor.map _)]
    by_cases was : thread.state = .running
    · rw [if_pos was, if_pos was, apply_ite (Functor.map _)]
      change (if some tid ≠ s.currentTid cpu then _ else _) =
        (if some tid ≠ s.currentTid cpu then _ else _)
      split
      · rfl
      · cases cpu.config with
        | singleCore =>
          dsimp only
          rw [map_bind]
          rfl
        | multiCore chip affinity => rfl
    · rw [if_neg was, if_neg was]
      rfl

end Scheduler

namespace ThreadList

theorem setState_link (i : Nat) (next : Option Nat) :
    ((link s i next).setState cpu t state).isOk = (s.setState cpu t state).isOk := by
  have same : link s i next = s.relink (Function.update s.threadBlocklist i next) := rfl
  rw [same, setState_relink]
  cases s.setState cpu t state <;> rfl

theorem isOk_bind_ok {α β : Type} (x : Except Fault α) (f : α → β) :
    (x >>= fun a => Except.ok (f a)).isOk = x.isOk := by
  cases x <;> rfl

theorem length_le {members : List Nat} (nodup : members.Nodup)
    (bounded : ∀ u ∈ members, u < threadCount) : members.length ≤ threadCount := by
  have within : members ⊆ List.range threadCount :=
    fun u member => List.mem_range.mpr (bounded u member)
  simpa using (nodup.subperm within).length_le

theorem seek_total {members : List Nat} {prio fuel : Nat} {curr next : Option Nat}
    (path : Segment some s.threadBlocklist next members none)
    (bounded : ∀ u ∈ members, u < threadCount) (enough : members.length < fuel) :
    ∃ found, seek s prio fuel curr next = .ok found := by
  induction fuel generalizing members curr next with
  | zero => exact absurd enough (Nat.not_lt_zero _)
  | succ fuel ih =>
    cases members with
    | nil =>
      have last : next = none := path
      exact ⟨(curr, none), by rw [last]; rfl⟩
    | cons u rest =>
      obtain ⟨rfl, onward⟩ := path
      have read : s.getUnchecked u = .ok (s.threads u) :=
        getUnchecked_ok.mpr ⟨bounded u List.mem_cons_self, rfl⟩
      rw [seek, read, ok_bind]
      split
      · exact ⟨_, rfl⟩
      · refine ih onward (fun v member => bounded v (List.mem_cons_of_mem _ member)) ?_
        rw [List.length_cons] at enough
        omega

theorem findBefore_total {rest : List Nat} {fuel cur : Nat}
    (path : Segment some s.threadBlocklist (s.threadBlocklist cur) rest none)
    (enough : rest.length < fuel) : ∃ found, findBefore s t fuel cur = .ok found := by
  induction fuel generalizing cur rest with
  | zero => exact absurd enough (Nat.not_lt_zero _)
  | succ fuel ih =>
    unfold findBefore
    cases rest with
    | nil =>
      have last : s.threadBlocklist cur = none := path
      rw [last]
      exact ⟨none, rfl⟩
    | cons next rest =>
      obtain ⟨follows, onward⟩ := path
      rw [follows]
      dsimp only
      split
      · exact ⟨_, rfl⟩
      · refine ih onward ?_
        rw [List.length_cons] at enough
        omega

section Total

variable {members : List Nat} (links : list.Links s members) (nodup : members.Nodup)
  (bounded : ∀ u ∈ members, u < threadCount)

include links nodup bounded

/-- The walks end, so that only `set_state` can panic. -/
theorem putCurrent_isOk (own : s.currentTid cpu = some t) (self : s.tidOf t = t) :
    (list.putCurrent cpu s state).isOk = (s.setState cpu t state).isOk := by
  have enough := Nat.lt_succ_of_le (length_le nodup bounded)
  obtain ⟨⟨curr, next⟩, walked⟩ : ∃ found,
      seek s (s.prioOf t) (threadCount + 1) none list.head = .ok found :=
    seek_total links bounded enough
  have current : s.expectCurrent cpu = .ok (s.threads t) := by
    rw [expectCurrent, Scheduler.current, own]
    rfl
  have self : (s.threads t).tid = t := self
  have walked : seek s (s.threads t).prio (threadCount + 1) none list.head = .ok (curr, next) := walked
  rw [putCurrent, current, ok_bind]
  dsimp only
  rw [walked, ok_bind, self]
  cases curr with
  | none => exact (isOk_bind_ok _ _).trans (setState_link _ _)
  | some c => exact (isOk_bind_ok _ _).trans ((setState_link _ _).trans (setState_link _ _))

theorem removeInner_isOk : (list.removeInner cpu s t).isOk =
    if t ∈ members then (s.setState cpu t .running).isOk else true := by
  unfold removeInner
  cases members with
  | nil =>
    rw [(links_nil links).mpr rfl]
    rfl
  | cons h rest =>
    obtain ⟨first, onward⟩ := links
    rw [first]
    dsimp only
    split
    · rename_i same
      subst same
      rw [if_pos List.mem_cons_self]
      exact (isOk_bind_ok _ _).trans (setState_link _ _)
    · rename_i other
      have short := length_le nodup bounded
      rw [List.length_cons] at short
      obtain ⟨found, walked⟩ : ∃ found, findBefore s t (threadCount + 1) h = .ok found :=
        findBefore_total onward (by omega)
      rw [walked, ok_bind]
      rcases findBefore_ok onward walked with ⟨rfl, absent⟩ | ⟨A, before, B, rfl, split⟩
      · rw [if_neg (by simp [Ne.symm other, absent])]
        rfl
      · rw [split, if_pos (by simp)]
        exact (isOk_bind_ok _ _).trans ((setState_link _ _).trans (setState_link _ _))

theorem contains_links : list.contains s t = decide (t ∈ members) := by
  unfold contains
  cases members with
  | nil =>
    rw [(links_nil links).mpr rfl]
    rfl
  | cons h rest =>
    obtain ⟨first, onward⟩ := links
    have short := length_le nodup bounded
    rw [List.length_cons] at short
    obtain ⟨found, walked⟩ : ∃ found, findBefore s t (threadCount + 1) h = .ok found :=
      findBefore_total onward (by omega)
    rw [first]
    dsimp only
    rw [walked]
    by_cases same : h = t
    · simp [same]
    · rcases findBefore_ok onward walked with ⟨rfl, absent⟩ | ⟨A, before, B, rfl, split⟩
      · simp [same, Ne.symm same, absent]
      · rw [split]
        simp

end Total

theorem pop_isOk : (list.pop cpu s).isOk =
    match list.head with
    | none => true
    | some h => (s.setState cpu h .running).isOk := by
  unfold pop
  cases list.head with
  | none => rfl
  | some h => exact (isOk_bind_ok _ _).trans (setState_link _ _)

/-- A pointer that is taken out of the array is reset. -/
theorem removeInner_unlinks {members : List Nat} (links : list.Links s members)
    (nodup : members.Nodup) (done : list.removeInner cpu s t = .ok (list', s', true)) :
    s'.threadBlocklist t = none := by
  unfold removeInner at done
  cases members with
  | nil =>
    rw [(links_nil links).mpr rfl] at done
    cases done
  | cons h rest =>
    obtain ⟨first, onward⟩ := links
    rw [first] at done
    dsimp only at done
    split at done
    · rename_i same
      subst same
      obtain ⟨⟨s₁, old⟩, set, done⟩ := bind_ok_iff.mp done
      cases done
      rw [setState_threadBlocklist set]
      exact Function.update_self ..
    · obtain ⟨found, walked, done⟩ := bind_ok_iff.mp done
      rcases findBefore_ok onward walked with ⟨rfl, -⟩ | ⟨A, before, B, rfl, split⟩
      · cases done
      · obtain ⟨⟨s₁, old⟩, set, done⟩ := bind_ok_iff.mp done
        cases done
        rw [split] at nodup
        have apart : t ≠ before := by
          rintro rfl
          simp [List.nodup_append] at nodup
        rw [setState_threadBlocklist set]
        exact (Function.update_of_ne apart _ _).trans (Function.update_self ..)

/-- The threads of the lists, each in the order of their priorities. -/
structure Stable (lists : Nat → ThreadList) (W : Nat → List Nat) (s : Scheduler) : Prop where
  chained : Chained lists W s
  bounded : ∀ m, ∀ u ∈ W m, u < threadCount
  sorted : ∀ m, (W m).Pairwise fun a b => s.prioOf b ≤ s.prioOf a

theorem Stable.change {members : List Nat} (stable : Stable lists W s)
    (chained : Chained (Function.update lists m list') (Function.update W m members) s')
    (bounded : ∀ u ∈ members, u < threadCount) (prios : s'.prioOf = s.prioOf)
    (sorted : members.Pairwise fun a b => s.prioOf b ≤ s.prioOf a) :
    Stable (Function.update lists m list') (Function.update W m members) s' := by
  refine ⟨chained, fun n => ?_, fun n => ?_⟩
  · by_cases own : n = m
    · rw [own, Function.update_self]
      exact bounded
    · rw [Function.update_of_ne own]
      exact stable.bounded n
  · rw [prios]
    by_cases own : n = m
    · rw [own, Function.update_self]
      exact sorted
    · rw [Function.update_of_ne own]
      exact stable.sorted n

/-- `put_current` enters `t` behind those of at least its priority and in front of the others. -/
def PutsStably (cpu : Cpu) (s : Scheduler) (lists : Nat → ThreadList) (W : Nat → List Nat)
    (m t : Nat) (state : ThreadState) : Prop :=
  ((lists m).putCurrent cpu s state).isOk = (s.setState cpu t state).isOk ∧
    ∀ list' s' inherit, (lists m).putCurrent cpu s state = .ok (list', s', inherit) →
      ∃ A B, W m = A ++ B ∧ (∀ a ∈ A, s.prioOf t ≤ s.prioOf a) ∧ (∀ b ∈ B, s.prioOf b < s.prioOf t) ∧
        Stable (Function.update lists m list') (Function.update W m (A ++ t :: B)) s' ∧
        (inherit = if list'.head = some t then some (s.prioOf t) else none) ∧
        s'.stateOf = Function.update s.stateOf t state ∧
        ∀ i, i ≠ t → i ∉ W m → s'.threadBlocklist i = s.threadBlocklist i

def PopsHead (cpu : Cpu) (s : Scheduler) (lists : Nat → ThreadList) (W : Nat → List Nat)
    (m : Nat) : Prop :=
  match W m with
  | [] => (lists m).pop cpu s = .ok (lists m, s, none)
  | h :: rest =>
    ((lists m).pop cpu s).isOk = (s.setState cpu h .running).isOk ∧
      ∀ list' s' popped, (lists m).pop cpu s = .ok (list', s', popped) →
        popped = some (h, s.stateOf h) ∧
          Stable (Function.update lists m list') (Function.update W m rest) s' ∧
          s'.stateOf = Function.update s.stateOf h .running ∧
          s'.threadBlocklist = Function.update s.threadBlocklist h none

/-- `remove_inner` takes `t` out if it is in the list, and does nothing otherwise. -/
def RemovesInner (cpu : Cpu) (s : Scheduler) (lists : Nat → ThreadList) (W : Nat → List Nat)
    (m t : Nat) : Prop :=
  if t ∈ W m then
    ((lists m).removeInner cpu s t).isOk = (s.setState cpu t .running).isOk ∧
      ∀ list' s' removed, (lists m).removeInner cpu s t = .ok (list', s', removed) →
        removed = true ∧
          Stable (Function.update lists m list') (Function.update W m ((W m).erase t)) s' ∧
          s'.stateOf = Function.update s.stateOf t .running ∧ s'.threadBlocklist t = none ∧
          ∀ i ∉ W m, s'.threadBlocklist i = s.threadBlocklist i
  else
    (lists m).removeInner cpu s t = .ok (lists m, s, false)

theorem Stable.puts (stable : Stable lists W s) (own : s.currentTid cpu = some t)
    (self : s.tidOf t = t) (fresh : ∀ n, t ∉ W n) (state : ThreadState) :
    PutsStably cpu s lists W m t state := by
  have links := stable.chained.links m
  have nodup := stable.chained.nodup m
  refine ⟨putCurrent_isOk links nodup (stable.bounded m) own self, fun list' s' inherit done => ?_⟩
  obtain ⟨A, B, split, links', states, frame, inherits, above, below⟩ :=
    putCurrent_links links nodup self own (fresh m) done
  have sorted := stable.sorted m
  rw [split] at sorted
  obtain ⟨front, back, across⟩ := List.pairwise_append.mp sorted
  have lower : ∀ b ∈ B, s.prioOf b < s.prioOf t := by
    intro b member
    cases B with
    | nil => cases member
    | cons c B =>
      have first := below c rfl
      rcases List.mem_cons.mp member with rfl | later
      · exact first
      · exact Nat.lt_of_le_of_lt (List.rel_of_pairwise_cons back later) first
  have bounded : ∀ u ∈ A ++ t :: B, u < threadCount := by
    intro u member
    by_cases same : u = t
    · exact same ▸ putCurrent_bound own self done
    · refine stable.bounded m u ?_
      rw [split]
      simpa [same] using member
  have sorted' : (A ++ t :: B).Pairwise fun a b => s.prioOf b ≤ s.prioOf a := by
    refine List.pairwise_append.mpr ⟨front, List.pairwise_cons.mpr ⟨?_, back⟩, ?_⟩
    · exact fun b member => Nat.le_of_lt (lower b member)
    · intro a here b there
      rcases List.mem_cons.mp there with rfl | there
      · exact above a here
      · exact across a here b there
  have head : A = [] ↔ list'.head = some t := by
    cases A with
    | nil => exact iff_of_true rfl links'.1
    | cons a A =>
      refine iff_of_false (List.cons_ne_nil a A) fun first => fresh m ?_
      rw [split, ← Option.some.inj (links'.1.symm.trans first)]
      exact List.mem_cons_self
  refine ⟨A, B, split, above, lower, ?_, ?_, states, frame⟩
  · exact stable.change (stable.chained.enter split fresh links' frame) bounded
      (putCurrent_prioOf done) sorted'
  · rw [inherits]
    exact if_congr head rfl rfl

theorem Stable.pops (stable : Stable lists W s) : PopsHead cpu s lists W m := by
  have links := stable.chained.links m
  unfold PopsHead
  cases front : W m with
  | nil =>
    rw [front] at links
    rw [pop, (links_nil links).mpr rfl]
    rfl
  | cons h rest =>
    rw [front] at links
    have bounded := stable.bounded m
    have sorted := stable.sorted m
    rw [front] at bounded sorted
    refine ⟨by rw [pop_isOk, links.1], fun list' s' popped done => ?_⟩
    rcases stable.chained.pop done with ⟨empty, -⟩ | ⟨h', rest', front', rfl, states, chained⟩
    · rw [front] at empty
      cases empty
    · obtain ⟨rfl, rfl⟩ := List.cons.inj (front.symm.trans front')
      refine ⟨rfl, stable.change chained ?_ (pop_prioOf done) (List.Pairwise.of_cons sorted), states, ?_⟩
      · exact fun u member => bounded u (List.mem_cons_of_mem _ member)
      · rcases pop_ok done with ⟨-, -, -, none_⟩ | ⟨head, old, -, -, same, set⟩
        · cases none_
        · cases same
          exact setState_threadBlocklist set

theorem Stable.removes (stable : Stable lists W s) : RemovesInner cpu s lists W m t := by
  have links := stable.chained.links m
  have nodup := stable.chained.nodup m
  have ends : ((lists m).removeInner cpu s t).isOk =
      if t ∈ W m then (s.setState cpu t .running).isOk else true :=
    removeInner_isOk links nodup (stable.bounded m)
  unfold RemovesInner
  split
  · rename_i member
    rw [if_pos member] at ends
    refine ⟨ends, fun list' s' removed done => ?_⟩
    obtain ⟨links', rfl, states, frame⟩ := removeInner_links links nodup done
    rw [if_pos member] at states
    have removed : decide (t ∈ W m) = true := decide_eq_true member
    rw [removed] at done ⊢
    refine ⟨rfl, ?_, states, removeInner_unlinks links nodup done, frame⟩
    refine stable.change (stable.chained.leave links' List.erase_sublist frame) ?_
      (removeInner_prioOf done) ((stable.sorted m).sublist List.erase_sublist)
    exact fun u here => stable.bounded m u (List.mem_of_mem_erase here)
  · rename_i absent
    rw [if_neg absent] at ends
    obtain ⟨⟨list', s', removed⟩, done⟩ : ∃ out, (lists m).removeInner cpu s t = .ok out := by
      cases outcome : (lists m).removeInner cpu s t with
      | error e =>
        rw [outcome] at ends
        cases ends
      | ok out => exact ⟨out, rfl⟩
    obtain ⟨-, same, -⟩ := removeInner_links links nodup done
    rcases removeInner_ok done with ⟨rfl, rfl, rfl⟩ | ⟨rfl, -⟩
    · exact done
    · exact absurd (of_decide_eq_true same.symm) absent

/-- Wait lists in order are priority lists, first-in first-out among equals. Only `set_state` can make
    the operations panic. -/
theorem thread_lists_stable (stable : Stable lists W s) (m : Nat) :
    (∀ t state, s.currentTid cpu = some t → s.tidOf t = t → (∀ n, t ∉ W n) →
      PutsStably cpu s lists W m t state) ∧
    PopsHead cpu s lists W m ∧ ∀ t, RemovesInner cpu s lists W m t :=
  ⟨fun _ state own self fresh => stable.puts own self fresh state, stable.pops,
    fun _ => stable.removes⟩

/-- Thread 3 runs, and threads 1 and 2 wait, the first of them with the priority of thread 3. -/
def waitingPair : Scheduler :=
  { Scheduler.new .singleCore with
    runqueue := (RunQueue.new.add 3 4).toOption.getD .new
    threads := fun t =>
      { Thread.default 1 with
        state := if t = 3 then .running else .lockBlocked
        prio := if t = 2 then 2 else 4
        tid := t }
    threadBlocklist := fun t => if t = 1 then some 2 else none
    currentThreads := fun _ => some 3 }

theorem waitingPair_stable :
    Stable (fun m => if m = 0 then ⟨some 1⟩ else .new) (fun m => if m = 0 then [1, 2] else [])
      waitingPair where
  chained :=
    { links := by
        intro m
        split
        · exact ⟨rfl, rfl, rfl⟩
        · rfl
      nodup := by
        intro m
        split <;> simp
      apart := by
        intro m n t here there
        split at here
        · split at there
          · simp [*]
          · cases there
        · cases here }
  bounded := by
    intro m
    split <;> decide
  sorted := by
    intro m
    split
    · decide
    · exact List.Pairwise.nil

theorem thread_lists_stable_sample :
    ∃ list s, (⟨some 1⟩ : ThreadList).putCurrent ⟨.singleCore, 0⟩ waitingPair .lockBlocked =
        .ok (list, s, none) ∧ list.Links s [1, 3, 2] ∧ s.stateOf 3 = .lockBlocked := by
  have stably : PutsStably ⟨.singleCore, 0⟩ waitingPair (fun m => if m = 0 then ⟨some 1⟩ else .new)
      (fun m => if m = 0 then [1, 2] else []) 0 3 .lockBlocked :=
    (thread_lists_stable waitingPair_stable 0).1 3 .lockBlocked rfl rfl fun n => by split <;> decide
  have ends : ((⟨some 1⟩ : ThreadList).putCurrent ⟨.singleCore, 0⟩ waitingPair .lockBlocked).isOk :=
    stably.1.trans (by decide +kernel)
  cases outcome : (⟨some 1⟩ : ThreadList).putCurrent ⟨.singleCore, 0⟩ waitingPair .lockBlocked with
  | error e =>
    rw [outcome] at ends
    cases ends
  | ok out =>
    obtain ⟨list, s, inherit⟩ := out
    obtain ⟨A, B, order, above, below, stable, inherits, states, -⟩ := stably.2 list s inherit outcome
    have order : [1, 2] = A ++ B := order
    have entered : A ++ 3 :: B = [1, 3, 2] := by
      match A, order with
      | [], order =>
        obtain rfl : [1, 2] = B := order
        have first : waitingPair.prioOf 1 < waitingPair.prioOf 3 := below 1 List.mem_cons_self
        exact absurd first (by decide)
      | [a], order =>
        obtain ⟨rfl, rfl⟩ : 1 = a ∧ [2] = B := by simpa using order
        rfl
      | a :: b :: A, order =>
        obtain ⟨rfl, rfl, -⟩ : 1 = a ∧ 2 = b ∧ _ := by simpa using order
        have last : waitingPair.prioOf 3 ≤ waitingPair.prioOf 2 := above 2 (by simp)
        exact absurd last (by decide)
    have links := stable.chained.links 0
    rw [Function.update_self, Function.update_self, entered] at links
    have behind : list.head ≠ some 3 := by
      rw [links.1]
      decide
    rw [if_neg behind] at inherits
    refine ⟨list, s, by rw [inherits], links, ?_⟩
    rw [states, Function.update_self]

end ThreadList

end ArielOS
