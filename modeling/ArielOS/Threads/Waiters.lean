import ArielOS.Lib.Segment
import ArielOS.Threads.SystemSpec

namespace ArielOS

open Machine Scheduler Linked

variable {cpu : Cpu} {s s' : Scheduler} {t prio : Nat} {state old : ThreadState}
  {refs : Nat → Prop} {list list' : ThreadList} {W : List Nat}

namespace ThreadList

/-- The threads of the list, in order. -/
def Links (s : Scheduler) (list : ThreadList) (W : List Nat) : Prop :=
  Segment some s.threadBlocklist list.head W none

theorem links_new (s : Scheduler) : new.Links s [] := rfl

theorem Links.congr (links : list.Links s W)
    (same : ∀ i ∈ W, s'.threadBlocklist i = s.threadBlocklist i) : list.Links s' W :=
  Segment.congr same links

theorem links_nil (links : list.Links s W) : list.head = none ↔ W = [] := by
  cases W with
  | nil => exact ⟨fun _ => rfl, fun _ => links⟩
  | cons h rest =>
    have first : list.head = some h := links.1
    simp [first]

/-- The walk of `put_current` splits the list where the priorities fall below the given one. -/
theorem seek_ok {fuel : Nat} {curr next curr' next' : Option Nat}
    (path : Segment some s.threadBlocklist next W none)
    (walked : seek s prio fuel curr next = .ok (curr', next')) :
    ∃ A B, W = A ++ B ∧ Segment some s.threadBlocklist next A next' ∧
      Segment some s.threadBlocklist next' B none ∧ curr' = A.getLast?.or curr ∧
      (∀ a ∈ A, prio ≤ s.prioOf a) ∧ ∀ b, next' = some b → s.prioOf b < prio := by
  induction fuel generalizing W curr next with
  | zero => cases walked
  | succ fuel ih =>
    cases W with
    | nil =>
      have last : next = none := path
      subst last
      cases walked
      exact ⟨[], [], rfl, rfl, rfl, rfl, by simp, by simp⟩
    | cons m rest =>
      obtain ⟨rfl, onward⟩ := path
      obtain ⟨thread, read, walked⟩ := bind_ok_iff.mp walked
      obtain ⟨-, rfl⟩ := getUnchecked_ok.mp read
      split at walked
      · rename_i lower
        cases walked
        refine ⟨[], m :: rest, rfl, rfl, ⟨rfl, onward⟩, rfl, by simp, ?_⟩
        intro b same
        cases same
        exact lower
      · rename_i higher
        obtain ⟨A, B, rfl, front, back, last, least, below⟩ := ih onward walked
        refine ⟨m :: A, B, rfl, ⟨rfl, front⟩, back, ?_, ?_, below⟩
        · rw [last, List.getLast?_cons]
          cases A.getLast? <;> rfl
        · intro a member
          rcases List.mem_cons.mp member with rfl | later
          · exact Nat.not_lt.mp higher
          · exact least a later

end ThreadList

namespace ThreadList

/-- `put_current` adds the current thread behind those of at least its priority, and returns its
    priority if it is the first. -/
theorem putCurrent_links {inherit : Option Nat} (links : list.Links s W) (nodup : W.Nodup)
    (self : s.tidOf t = t) (own : s.currentTid cpu = some t) (fresh : t ∉ W)
    (done : list.putCurrent cpu s state = .ok (list', s', inherit)) :
    ∃ A B, W = A ++ B ∧ list'.Links s' (A ++ t :: B) ∧
      s'.stateOf = Function.update s.stateOf t state ∧
      (∀ i, i ≠ t → i ∉ W → s'.threadBlocklist i = s.threadBlocklist i) ∧
      inherit = (if A = [] then some (s.prioOf t) else none) ∧
      (∀ a ∈ A, s.prioOf t ≤ s.prioOf a) ∧ ∀ b, B.head? = some b → s.prioOf b < s.prioOf t := by
  obtain ⟨u, curr, next, old, own', walked, outcome⟩ := putCurrent_ok done
  obtain rfl : t = u := Option.some.inj (own.symm.trans own')
  obtain ⟨A, B, rfl, front, back, last, least, below⟩ := seek_ok links walked
  rw [self] at outcome
  have lower : ∀ b, B.head? = some b → s.prioOf b < s.prioOf t := by
    intro b first
    apply below b
    cases B with
    | nil => cases first
    | cons c B =>
      cases first
      exact back.1
  rw [List.mem_append, not_or] at fresh
  rcases List.eq_nil_or_concat A with rfl | ⟨A, c, rfl⟩
  · obtain rfl : curr = none := last
    obtain ⟨rfl, rfl, set⟩ := outcome
    have states := setState_stateOf set
    refine ⟨[], B, rfl, ?_, states, ?_, rfl, least, lower⟩
    · rw [Links, setState_threadBlocklist set]
      exact back.push fresh.2
    · intro i other _
      rw [setState_threadBlocklist set]
      exact Function.update_of_ne other _ _
  · rw [List.concat_eq_append] at *
    have last : curr = some c := by simpa using last
    subst last
    obtain ⟨rfl, rfl, set⟩ := outcome
    obtain ⟨once, behind⟩ : c ∉ A ∧ c ∉ B := by
      simp only [List.append_assoc, List.singleton_append] at nodup
      have apart := List.nodup_append.mp nodup
      refine ⟨fun here => apart.2.2 c here c (by simp) rfl, ?_⟩
      exact (List.nodup_cons.mp apart.2.1).1
    have states := setState_stateOf set
    refine ⟨A ++ [c], B, rfl, ?_, states, ?_, by simp, least, lower⟩
    · rw [Links, setState_threadBlocklist set]
      exact front.insert back once behind fresh.1 fresh.2
    · intro i other outside
      have differs : i ≠ c := fun same => outside (by simp [same])
      rw [setState_threadBlocklist set]
      exact (Function.update_of_ne differs _ _).trans (Function.update_of_ne other _ _)

/-- `pop` takes the first thread, if there is one, and makes it ready. -/
theorem pop_links {popped : Option (Nat × ThreadState)} (links : list.Links s W) (nodup : W.Nodup)
    (done : list.pop cpu s = .ok (list', s', popped)) :
    (W = [] ∧ list' = list ∧ s' = s ∧ popped = none) ∨
      ∃ h rest, W = h :: rest ∧ popped = some (h, s.stateOf h) ∧ list'.Links s' rest ∧
        s'.stateOf = Function.update s.stateOf h .running ∧
        (∀ i, i ≠ h → s'.threadBlocklist i = s.threadBlocklist i) := by
  rcases pop_ok done with ⟨empty, rfl, rfl, rfl⟩ | ⟨h, old, first, rfl, rfl, set⟩
  · exact Or.inl ⟨(links_nil links).mp empty, rfl, rfl, rfl⟩
  · cases W with
    | nil => rw [(links_nil links).mpr rfl] at first; cases first
    | cons a rest =>
      obtain ⟨begin, path⟩ := links
      rw [first] at begin
      cases begin
      obtain ⟨-, rfl, -⟩ := setState_running_ok set
      have blocklist := setState_threadBlocklist set
      have states := setState_stateOf set
      refine Or.inr ⟨h, rest, rfl, rfl, ?_, states, ?_⟩
      · rw [Links, blocklist]
        exact path.frame (List.nodup_cons.mp nodup).1
      · intro i other
        rw [blocklist]
        exact Function.update_of_ne other _ _

/-- The walk of `remove_inner` comes to the thread exactly if it is in the list. -/
theorem findBefore_ok {fuel cur : Nat} {rest : List Nat} {found : Option Nat}
    (path : Segment some s.threadBlocklist (s.threadBlocklist cur) rest none)
    (walked : findBefore s t fuel cur = .ok found) :
    (found = none ∧ t ∉ rest) ∨
      ∃ A before B, found = some before ∧ cur :: rest = A ++ before :: t :: B := by
  induction fuel generalizing cur rest with
  | zero => cases walked
  | succ fuel ih =>
    unfold findBefore at walked
    cases rest with
    | nil =>
      have last : s.threadBlocklist cur = none := path
      rw [last] at walked
      cases walked
      exact Or.inl ⟨rfl, by simp⟩
    | cons next rest =>
      obtain ⟨link, onward⟩ := path
      rw [link] at walked
      dsimp only at walked
      split at walked
      · rename_i same
        cases walked
        exact Or.inr ⟨[], cur, rest, rfl, by simp [same]⟩
      · rename_i other
        rcases ih onward walked with ⟨rfl, absent⟩ | ⟨A, before, B, rfl, split⟩
        · exact Or.inl ⟨rfl, by simp [Ne.symm other, absent]⟩
        · exact Or.inr ⟨cur :: A, before, B, rfl, by simp [split]⟩

/-- `remove_inner` takes the thread out of the list, if it is there, and leaves it ready. -/
theorem removeInner_links {removed : Bool} (links : list.Links s W) (nodup : W.Nodup)
    (done : list.removeInner cpu s t = .ok (list', s', removed)) :
    list'.Links s' (W.erase t) ∧ removed = decide (t ∈ W) ∧
      s'.stateOf = (if t ∈ W then Function.update s.stateOf t .running else s.stateOf) ∧
      ∀ i ∉ W, s'.threadBlocklist i = s.threadBlocklist i := by
  unfold removeInner at done
  cases W with
  | nil =>
    rw [(links_nil links).mpr rfl] at done
    cases done
    exact ⟨links, by simp, by simp, fun _ _ => rfl⟩
  | cons h rest =>
    have onward := links.2
    rw [links.1] at done
    dsimp only at done
    split at done
    · rename_i same
      subst same
      obtain ⟨⟨s₁, old⟩, set, rest⟩ := bind_ok_iff.mp done
      cases rest
      have blocklist := setState_threadBlocklist set
      have states := setState_stateOf set
      refine ⟨?_, by simp, ?_, ?_⟩
      · rw [List.erase_cons_head, Links, blocklist]
        exact onward.frame (List.nodup_cons.mp nodup).1
      · rw [if_pos (by simp)]
        exact states
      · intro i outside
        rw [blocklist]
        exact Function.update_of_ne (fun same => outside (by simp [same])) _ _
    · rename_i other
      obtain ⟨found, walked, done⟩ := bind_ok_iff.mp done
      rcases findBefore_ok onward walked with ⟨rfl, absent⟩ | ⟨A, before, B, rfl, split⟩
      · cases done
        have outside : t ∉ h :: rest := by simp [Ne.symm other, absent]
        rw [List.erase_of_not_mem outside, if_neg outside]
        exact ⟨links, by simp [outside], rfl, fun _ _ => rfl⟩
      · obtain ⟨⟨s₁, old⟩, set, done⟩ := bind_ok_iff.mp done
        cases done
        have blocklist := setState_threadBlocklist set
        have states := setState_stateOf set
        rw [split] at links nodup ⊢
        have member : t ∈ A ++ before :: t :: B := by simp
        have fresh : t ∉ A ++ [before] := by
          rw [List.append_cons] at nodup
          exact fun here => (List.nodup_append.mp nodup).2.2 t here t (by simp) rfl
        have erased : (A ++ before :: t :: B).erase t = A ++ before :: B := by
          rw [List.append_cons, List.erase_append_right _ fresh, List.erase_cons_head,
            List.append_assoc, List.singleton_append]
        refine ⟨?_, by simp, ?_, ?_⟩
        · rw [erased, Links, blocklist]
          exact Segment.remove links nodup
        · rw [if_pos member]
          exact states
        · intro i outside
          simp only [List.mem_append, List.mem_cons, not_or] at outside
          rw [blocklist]
          exact (Function.update_of_ne outside.2.1 _ _).trans
            (Function.update_of_ne outside.2.2.1 _ _)

theorem removeCurrent_links {removed : Bool} (links : list.Links s W) (nodup : W.Nodup)
    (own : s.currentTid cpu = some t)
    (done : list.removeCurrent cpu s = .ok (list', s', removed)) :
    list'.Links s' (W.erase t) ∧ removed = decide (t ∈ W) ∧
      s'.stateOf = (if t ∈ W then Function.update s.stateOf t .running else s.stateOf) ∧
      ∀ i ∉ W, s'.threadBlocklist i = s.threadBlocklist i := by
  unfold removeCurrent at done
  rw [own] at done
  exact removeInner_links links nodup done

end ThreadList

theorem Scheduler.getNextTid_keeps {next : Option Nat} (done : s.getNextTid cpu = .ok (s', next)) :
    ∃ r, s' = { s with runqueue := r } := by
  unfold getNextTid at done
  split at done
  · obtain ⟨n, -, rest⟩ := bind_ok_iff.mp done
    cases rest
    exact ⟨_, rfl⟩
  · obtain ⟨⟨r, n⟩, -, rest⟩ := bind_ok_iff.mp done
    cases rest
    exact ⟨r, rfl⟩
  · obtain ⟨found, -, rest⟩ := bind_ok_iff.mp done
    cases found with
    | none => cases rest; exact ⟨_, rfl⟩
    | some n =>
      obtain ⟨r, -, rest⟩ := bind_ok_iff.mp rest
      cases rest
      exact ⟨r, rfl⟩

/-- A context switch leaves the thread table and the wait lists as they are. -/
theorem Scheduler.sched_keeps (done : s.sched cpu = .ok s') :
    s'.threads = s.threads ∧ s'.threadBlocklist = s.threadBlocklist := by
  obtain ⟨-, s₁, passed, once, rfl⟩ := sched_ok done
  have same : s₁.threads = s.threads ∧ s₁.threadBlocklist = s.threadBlocklist := by
    cases config : cpu.config with
    | singleCore =>
      rcases schedOnce_single config once with ⟨-, rfl, -⟩ | ⟨n, -, -, rfl⟩
      · exact ⟨rfl, rfl⟩
      · exact ⟨rfl, rfl⟩
    | multiCore chip affinity =>
      obtain ⟨-, s₂, s₃, n, added, taken, rfl⟩ := schedOnce_multi config once
      obtain ⟨r, rfl⟩ := getNextTid_keeps taken
      rcases addCurrentThreadToRq_ok added with ⟨rfl, -⟩ | ⟨c, r', -, -, -, rfl⟩
      · exact ⟨rfl, rfl⟩
      · exact ⟨rfl, rfl⟩
  cases passed with
  | true => exact same
  | false => exact same

/-- What only the scheduler works with leaves the thread table as it is. -/
theorem Scheduler.op_threads {o : Op} (done : o.run cpu s = .ok s') :
    match o with
    | .yieldSame | .startThreading | .fifoToken | .enterPendsv | .sched => s'.threads = s.threads
    | _ => True := by
  cases o with
  | yieldSame =>
    obtain ⟨r, q, rfl⟩ := yieldSame_ok done
    rfl
  | startThreading =>
    obtain ⟨-, rfl⟩ := startThreading_ok done
    rfl
  | fifoToken =>
    obtain ⟨-, rfl⟩ := handleFifoToken_ok done
    rfl
  | enterPendsv =>
    obtain ⟨-, -, rfl⟩ := enterPendsv_ok done
    rfl
  | sched => exact (sched_keeps done).1
  | _ => trivial

/-- Any number of wait lists: each links its own threads, and no thread is in two of them. -/
structure Chained (lists : Nat → ThreadList) (W : Nat → List Nat) (s : Scheduler) : Prop where
  links : ∀ m, (lists m).Links s (W m)
  nodup : ∀ m, (W m).Nodup
  apart : ∀ {m n t}, t ∈ W m → t ∈ W n → m = n

namespace Chained

variable {lists : Nat → ThreadList} {W : Nat → List Nat}

theorem congr (chained : Chained lists W s) (blocklist : s'.threadBlocklist = s.threadBlocklist) :
    Chained lists W s' where
  links := fun m => (chained.links m).congr fun i _ => congrFun blocklist i
  nodup := chained.nodup
  apart := chained.apart

theorem head_mem {h m : Nat} (chained : Chained lists W s)
    (first : (lists m).head = some h) : h ∈ W m := by
  have links := chained.links m
  cases front : W m with
  | nil =>
    rw [front] at links
    rw [(ThreadList.links_nil links).mpr rfl] at first
    cases first
  | cons a rest =>
    rw [front] at links
    obtain rfl : a = h := Option.some.inj (links.1.symm.trans first)
    simp

/-- One list changes. It has its own threads and perhaps the given one, and the pointers of the
    others are as before. -/
theorem change {m : Nat} {members : List Nat} (chained : Chained lists W s)
    (links : list'.Links s' members) (nodup : members.Nodup)
    (frame : ∀ n, n ≠ m → ∀ i ∈ W n, s'.threadBlocklist i = s.threadBlocklist i)
    (outside : ∀ n, n ≠ m → ∀ i ∈ W n, i ∉ members) :
    Chained (Function.update lists m list') (Function.update W m members) s' := by
  refine ⟨?_, ?_, ?_⟩
  · intro n
    by_cases same : n = m
    · subst same
      rw [Function.update_self, Function.update_self]
      exact links
    · rw [Function.update_of_ne same, Function.update_of_ne same]
      exact (chained.links n).congr (frame n same)
  · intro n
    by_cases same : n = m
    · subst same
      rwa [Function.update_self]
    · rw [Function.update_of_ne same]
      exact chained.nodup n
  · intro n n' u here there
    by_cases same : n = m
    · by_cases same' : n' = m
      · rw [same, same']
      · rw [same, Function.update_self] at here
        rw [Function.update_of_ne same'] at there
        exact absurd here (outside n' same' u there)
    · rw [Function.update_of_ne same] at here
      by_cases same' : n' = m
      · rw [same', Function.update_self] at there
        exact absurd there (outside n same u here)
      · rw [Function.update_of_ne same'] at there
        exact chained.apart here there

/-- A thread that waits nowhere enters list `m`. -/
theorem enter {m : Nat} {A B : List Nat} (chained : Chained lists W s) (split : W m = A ++ B)
    (fresh : ∀ n, t ∉ W n) (links : list'.Links s' (A ++ t :: B))
    (frame : ∀ i, i ≠ t → i ∉ W m → s'.threadBlocklist i = s.threadBlocklist i) :
    Chained (Function.update lists m list') (Function.update W m (A ++ t :: B)) s' := by
  refine chained.change links ?_ ?_ ?_
  · have absent := fresh m
    have distinct := chained.nodup m
    rw [split] at absent distinct
    exact List.nodup_middle.mpr (List.nodup_cons.mpr ⟨absent, distinct⟩)
  · intro n other i here
    apply frame i
    · exact fun isOwn => fresh n (isOwn ▸ here)
    · exact fun there => other (chained.apart here there)
  · intro n other i here there
    rcases List.mem_append.mp there with front | back
    · exact other (chained.apart here (by simp [split, front]))
    · rcases List.mem_cons.mp back with rfl | back
      · exact fresh n here
      · exact other (chained.apart here (by simp [split, back]))

/-- Some threads of list `m` are left. -/
theorem leave {m : Nat} {left : List Nat} (chained : Chained lists W s)
    (links : list'.Links s' left) (fewer : left.Sublist (W m))
    (frame : ∀ i, i ∉ W m → s'.threadBlocklist i = s.threadBlocklist i) :
    Chained (Function.update lists m list') (Function.update W m left) s' := by
  refine chained.change links ((chained.nodup m).sublist fewer) ?_ ?_
  · exact fun n other i here => frame i fun there => other (chained.apart here there)
  · exact fun n other i here there => other (chained.apart here (fewer.subset there))

/-- The current thread, which waits nowhere, enters list `m`. -/
theorem put {m : Nat} {inherit : Option Nat} (chained : Chained lists W s)
    (named : s.Named refs) (own : s.currentTid cpu = some t) (fresh : ∀ n, t ∉ W n)
    (done : (lists m).putCurrent cpu s state = .ok (list', s', inherit)) :
    ∃ A B, W m = A ++ B ∧ s'.stateOf = Function.update s.stateOf t state ∧
      Chained (Function.update lists m list') (Function.update W m (A ++ t :: B)) s' := by
  obtain ⟨A, B, split, links, states, frame, -⟩ := ThreadList.putCurrent_links (chained.links m)
    (chained.nodup m) (named.current _ t own) own (fresh m) done
  exact ⟨A, B, split, states, chained.enter split fresh links frame⟩

/-- The first thread of list `m` leaves it. -/
theorem pop {m : Nat} {popped : Option (Nat × ThreadState)} (chained : Chained lists W s)
    (done : (lists m).pop cpu s = .ok (list', s', popped)) :
    (W m = [] ∧ list' = lists m ∧ s' = s ∧ popped = none) ∨ ∃ h rest, W m = h :: rest ∧
      popped = some (h, s.stateOf h) ∧ s'.stateOf = Function.update s.stateOf h .running ∧
      Chained (Function.update lists m list') (Function.update W m rest) s' := by
  rcases ThreadList.pop_links (chained.links m) (chained.nodup m) done with
    ⟨empty, rfl, rfl, rfl⟩ | ⟨h, rest, front, rfl, links, states, frame⟩
  · exact Or.inl ⟨empty, rfl, rfl, rfl⟩
  refine Or.inr ⟨h, rest, front, rfl, states, chained.leave links ?_ fun i outside => ?_⟩
  · rw [front]
    exact List.sublist_cons_self h rest
  · exact frame i fun isHead => outside (by simp [front, isHead])

/-- Popping until the list is empty wakes its threads and no other. -/
theorem popAll {m fuel : Nat} (chained : Chained lists W s)
    (done : ThreadList.popAll cpu fuel (lists m) s = .ok (list', s')) :
    s'.stateOf t = if t ∈ W m then .running else s.stateOf t := by
  induction fuel generalizing lists W s with
  | zero => cases done
  | succ fuel ih =>
    obtain ⟨⟨list₁, s₁, popped⟩, took, rest⟩ := bind_ok_iff.mp done
    rcases chained.pop took with ⟨empty, rfl, rfl, rfl⟩ | ⟨h, members, front, rfl, states, next⟩
    · cases rest
      simp [empty]
    · have rest : ThreadList.popAll cpu fuel (Function.update lists m list₁ m) s₁ =
          .ok (list', s') := by
        rwa [Function.update_self]
      rw [ih next rest, Function.update_self, front, states]
      by_cases isHead : t = h
      · simp [isHead]
      · simp [isHead]

/-- The current thread leaves list `m`, if it is in it. -/
theorem removeCurrent {m : Nat} {removed : Bool} (chained : Chained lists W s)
    (own : s.currentTid cpu = some t)
    (done : (lists m).removeCurrent cpu s = .ok (list', s', removed)) :
    Chained (Function.update lists m list') (Function.update W m ((W m).erase t)) s' ∧
      s'.stateOf = if t ∈ W m then Function.update s.stateOf t .running else s.stateOf := by
  obtain ⟨links, -, states, frame⟩ :=
    ThreadList.removeCurrent_links (chained.links m) (chained.nodup m) own done
  exact ⟨chained.leave links List.erase_sublist frame, states⟩

end Chained

/-- Any number of wait lists: each links its own threads, and each of these threads is blocked in
    the state in which it was put there. -/
structure Waiters (place : Nat → ThreadState) (lists : Nat → ThreadList) (W : Nat → List Nat)
    (s : Scheduler) : Prop where
  links : ∀ m, (lists m).Links s (W m)
  placed : ∀ {m t}, t ∈ W m → s.stateOf t = place t
  nodup : ∀ m, (W m).Nodup
  apart : ∀ {m n t}, t ∈ W m → t ∈ W n → m = n

namespace Waiters

variable {place : Nat → ThreadState} {lists : Nat → ThreadList} {W : Nat → List Nat}

theorem congr (waiters : Waiters place lists W s)
    (blocklist : s'.threadBlocklist = s.threadBlocklist)
    (state : ∀ m, ∀ t ∈ W m, s'.stateOf t = s.stateOf t) : Waiters place lists W s' where
  links := fun m => (waiters.links m).congr fun i _ => congrFun blocklist i
  placed := fun member => (state _ _ member).trans (waiters.placed member)
  nodup := waiters.nodup
  apart := waiters.apart

theorem setState (waiters : Waiters place lists W s) (absent : ∀ m, t ∉ W m)
    (done : s.setState cpu t state = .ok (s', old)) : Waiters place lists W s' := by
  refine waiters.congr (setState_threadBlocklist done) fun m u member => ?_
  have other : u ≠ t := fun same => absent m (same ▸ member)
  rw [setState_stateOf done, Function.update_of_ne other]

theorem absent (waiters : Waiters place lists W s) {Blocked : ThreadState → Prop}
    (blocked : ∀ {m t}, t ∈ W m → Blocked (place t)) (free : ¬ Blocked (s.stateOf t)) (m : Nat) :
    t ∉ W m := by
  intro member
  rw [waiters.placed member] at free
  exact free (blocked member)

theorem chained (waiters : Waiters place lists W s) : Chained lists W s :=
  ⟨waiters.links, waiters.nodup, waiters.apart⟩

theorem head_mem {h m : Nat} (waiters : Waiters place lists W s)
    (first : (lists m).head = some h) : h ∈ W m := waiters.chained.head_mem first

/-- Operations that neither make a blocked thread ready nor stop a waiting one leave the lists
    alone, on top of what else they keep. -/
theorem keeps {I : Scheduler → Prop} (Blocked : ThreadState → Prop)
    (base : Keeps cpu refs (fun _ _ => True) (fun _ _ _ => True) (fun _ => True) True I)
    (blocked : ∀ {m t}, t ∈ W m → Blocked (place t)) (used : ¬ Blocked .invalid) :
    Keeps cpu refs (fun s t => ¬ Blocked (s.stateOf t)) (fun _ _ _ => True)
      (fun t => ∀ m, t ∉ W m) True (fun s => I s ∧ Waiters place lists W s) where
  quiet := fun h inv => by
    refine ⟨base.quiet h inv.1, inv.2.congr h.threadBlocklist fun _ t _ => ?_⟩
    rw [h.stateOf]
  quietReady := fun h free => by rwa [h.stateOf]
  ready := fun named self free inv done =>
    ⟨base.ready named self trivial inv.1 done, inv.2.setState (inv.2.absent blocked free) done⟩
  stop := fun named own may stops inv done =>
    ⟨base.stop named own trivial stops inv.1 done, inv.2.setState may done⟩
  create := fun {s s' stackStart stackLen prio affinity t} named _ inv made => by
    refine ⟨base.create named trivial inv.1 made, ?_⟩
    obtain ⟨-, free, thread, rfl, -⟩ := create_ok made
    have absent := inv.2.absent (t := t) blocked (by rwa [free])
    refine inv.2.congr rfl fun m u member => ?_
    have other : u ≠ t := fun same => absent m (same ▸ member)
    rw [setThread_stateOf, Function.update_of_ne other]
  setPriority := fun named _ inv done => by
    refine ⟨base.setPriority named (fun _ => trivial) inv.1 done, ?_⟩
    obtain ⟨state, blocklist⟩ := setPriority_keeps done
    exact inv.2.congr blocklist fun _ t _ => congrFun state t
  yieldSame := fun named inv done => by
    refine ⟨base.yieldSame named inv.1 done, ?_⟩
    obtain ⟨r, q, rfl⟩ := yieldSame_ok done
    exact inv.2.congr rfl fun _ _ _ => rfl
  startThreading := fun named may inv done => by
    refine ⟨base.startThreading named may inv.1 done, ?_⟩
    obtain ⟨-, rfl⟩ := startThreading_ok done
    exact inv.2.congr rfl fun _ _ _ => rfl
  handleFifoToken := fun named inv done => by
    refine ⟨base.handleFifoToken named inv.1 done, ?_⟩
    obtain ⟨-, rfl⟩ := handleFifoToken_ok done
    exact inv.2.congr rfl fun _ _ _ => rfl
  enterPendsv := fun named inv done => by
    refine ⟨base.enterPendsv named inv.1 done, ?_⟩
    obtain ⟨-, -, rfl⟩ := enterPendsv_ok done
    exact inv.2.congr rfl fun _ _ _ => rfl
  sched := fun {s s'} named inv done => by
    obtain ⟨kept, named'⟩ := base.sched named inv.1 done
    obtain ⟨threads, blocklist⟩ := sched_keeps done
    refine ⟨⟨kept, inv.2.congr blocklist fun _ t _ => ?_⟩, named'⟩
    rw [stateOf, stateOf, threads]

/-- The current thread, which waits nowhere, enters list `m`. -/
theorem put {m : Nat} {inherit : Option Nat} (waiters : Waiters place lists W s)
    (named : s.Named refs) (own : s.currentTid cpu = some t) (fresh : ∀ n, t ∉ W n)
    (done : (lists m).putCurrent cpu s state = .ok (list', s', inherit)) :
    ∃ A B, W m = A ++ B ∧ Waiters (Function.update place t state)
      (Function.update lists m list') (Function.update W m (A ++ t :: B)) s' := by
  obtain ⟨A, B, split, states, chained⟩ := waiters.chained.put named own fresh done
  refine ⟨A, B, split, chained.links, ?_, chained.nodup, chained.apart⟩
  intro n u here
  rw [states]
  by_cases isOwn : u = t
  · rw [isOwn, Function.update_self, Function.update_self]
  · rw [Function.update_of_ne isOwn, Function.update_of_ne isOwn]
    refine waiters.placed (m := n) ?_
    by_cases same : n = m
    · rw [same, Function.update_self] at here
      simpa [same, split, isOwn] using here
    · rwa [Function.update_of_ne same] at here

/-- The first thread of list `m` leaves it. -/
theorem pop {m : Nat} {popped : Option (Nat × ThreadState)} (waiters : Waiters place lists W s)
    (done : (lists m).pop cpu s = .ok (list', s', popped)) :
    (W m = [] ∧ list' = lists m ∧ s' = s ∧ popped = none) ∨ ∃ h rest, W m = h :: rest ∧
      popped = some (h, place h) ∧ s'.stateOf = Function.update s.stateOf h .running ∧
      Waiters place (Function.update lists m list') (Function.update W m rest) s' := by
  rcases waiters.chained.pop done with same | ⟨h, rest, front, rfl, states, chained⟩
  · exact Or.inl same
  have first : h ∈ W m := by simp [front]
  refine Or.inr ⟨h, rest, front, by rw [waiters.placed first], states, chained.links, ?_,
    chained.nodup, chained.apart⟩
  intro n u here
  have distinct := waiters.nodup m
  rw [front] at distinct
  have before : u ∈ W n ∧ u ≠ h := by
    by_cases same : n = m
    · rw [same, Function.update_self] at here
      refine ⟨by simp [same, front, here], ?_⟩
      exact fun isHead => (List.nodup_cons.mp distinct).1 (isHead ▸ here)
    · rw [Function.update_of_ne same] at here
      exact ⟨here, fun isHead => same (waiters.apart here (isHead ▸ first))⟩
  rw [states, Function.update_of_ne before.2]
  exact waiters.placed before.1

end Waiters

end ArielOS
