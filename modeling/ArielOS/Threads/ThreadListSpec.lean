import ArielOS.Threads.SchedulerSpec

namespace ArielOS.ThreadList

open Machine Scheduler

variable {cpu : Cpu} {s s' : Scheduler} {list list' : ThreadList} {t : Nat}
  {state : ThreadState}

theorem putCurrent_ok {inherit : Option Nat}
    (done : list.putCurrent cpu s state = .ok (list', s', inherit)) :
    ∃ t curr next old, s.currentTid cpu = some t ∧
      seek s (s.prioOf t) (threadCount + 1) none list.head = .ok (curr, next) ∧
      match curr with
      | none => list' = ⟨some (s.tidOf t)⟩ ∧ inherit = some (s.prioOf t) ∧
          (link s (s.tidOf t) next).setState cpu (s.tidOf t) state = .ok (s', old)
      | some c => list' = list ∧ inherit = none ∧
          (link (link s (s.tidOf t) next) c (some (s.tidOf t))).setState cpu (s.tidOf t) state =
            .ok (s', old) := by
  unfold putCurrent at done
  obtain ⟨thread, read, rest⟩ := bind_ok_iff.mp done
  obtain ⟨t, own, rfl⟩ := expectCurrent_ok read
  obtain ⟨⟨curr, next⟩, walked, rest⟩ := bind_ok_iff.mp rest
  cases curr with
  | none =>
    obtain ⟨⟨s₁, old⟩, set, rest⟩ := bind_ok_iff.mp rest
    cases rest
    exact ⟨t, none, next, old, own, walked, rfl, rfl, set⟩
  | some c =>
    obtain ⟨⟨s₁, old⟩, set, rest⟩ := bind_ok_iff.mp rest
    cases rest
    exact ⟨t, some c, next, old, own, walked, rfl, rfl, set⟩

theorem pop_ok {popped : Option (Nat × ThreadState)}
    (done : list.pop cpu s = .ok (list', s', popped)) :
    (list.head = none ∧ list' = list ∧ s' = s ∧ popped = none) ∨
      ∃ head old, list.head = some head ∧ list' = ⟨s.threadBlocklist head⟩ ∧
        popped = some (head, old) ∧ (link s head none).setState cpu head .running = .ok (s', old) := by
  unfold pop at done
  split at done
  · rename_i empty
    cases done
    exact Or.inl ⟨empty, rfl, rfl, rfl⟩
  · rename_i head first
    obtain ⟨⟨s₁, old⟩, set, rest⟩ := bind_ok_iff.mp done
    cases rest
    exact Or.inr ⟨head, old, first, rfl, rfl, set⟩

/-- Whether a walk along the list comes to the thread. -/
def contains (list : ThreadList) (s : Scheduler) (t : Nat) : Bool :=
  match list.head with
  | none => false
  | some head =>
    head == t ||
      match findBefore s t (threadCount + 1) head with
      | .ok (some _) => true
      | _ => false

theorem findBefore_link {fuel cur before : Nat} (found : findBefore s t fuel cur = .ok (some before)) :
    s.threadBlocklist before = some t := by
  induction fuel generalizing cur with
  | zero => cases found
  | succ fuel ih =>
    unfold findBefore at found
    split at found
    · cases found
    · rename_i next link
      split at found
      · rename_i same
        cases found
        rw [link, same]
      · exact ih found

theorem removeInner_ok {removed : Bool}
    (done : list.removeInner cpu s t = .ok (list', s', removed)) :
    (list' = list ∧ s' = s ∧ removed = false) ∨
      (removed = true ∧ list.contains s t = true ∧ ∃ old,
        (list.head = some t ∧ list' = ⟨s.threadBlocklist t⟩ ∧
          (link s t none).setState cpu t .running = .ok (s', old)) ∨
        (list' = list ∧ ∃ before, s.threadBlocklist before = some t ∧
          (link (link s t none) before (s.threadBlocklist t)).setState cpu t .running =
            .ok (s', old))) := by
  unfold removeInner at done
  split at done
  · cases done
    exact Or.inl ⟨rfl, rfl, rfl⟩
  · rename_i head first
    split at done
    · rename_i same
      subst same
      obtain ⟨⟨s₁, old⟩, set, rest⟩ := bind_ok_iff.mp done
      cases rest
      exact Or.inr ⟨rfl, by simp [contains, first], old, Or.inl ⟨first, rfl, set⟩⟩
    · obtain ⟨found, walked, rest⟩ := bind_ok_iff.mp done
      cases found with
      | none =>
        cases rest
        exact Or.inl ⟨rfl, rfl, rfl⟩
      | some before =>
        obtain ⟨⟨s₁, old⟩, set, rest⟩ := bind_ok_iff.mp rest
        cases rest
        exact Or.inr ⟨rfl, by simp [contains, first, walked], old,
          Or.inr ⟨rfl, before, findBefore_link walked, set⟩⟩

theorem removeCurrent_inner {removed : Bool}
    (done : list.removeCurrent cpu s = .ok (list', s', removed)) :
    ∃ t, s.currentTid cpu = some t ∧ list.removeInner cpu s t = .ok (list', s', removed) := by
  unfold removeCurrent at done
  split at done
  · cases done
  · rename_i t own
    exact ⟨t, own, done⟩

theorem removeCurrent_ok {removed : Bool}
    (done : list.removeCurrent cpu s = .ok (list', s', removed)) :
    ∃ t, s.currentTid cpu = some t ∧ ((list' = list ∧ s' = s ∧ removed = false) ∨
      (removed = true ∧ list.contains s t = true ∧ ∃ old,
        (list.head = some t ∧ list' = ⟨s.threadBlocklist t⟩ ∧
          (link s t none).setState cpu t .running = .ok (s', old)) ∨
        (list' = list ∧ ∃ before, s.threadBlocklist before = some t ∧
          (link (link s t none) before (s.threadBlocklist t)).setState cpu t .running =
            .ok (s', old)))) := by
  obtain ⟨t, own, inner⟩ := removeCurrent_inner done
  exact ⟨t, own, removeInner_ok inner⟩

section Views

variable {α : Type} {view : Scheduler → α}

/-- The lists do not touch what links and states do not matter for. -/
theorem putCurrent_view {inherit : Option Nat}
    (links : ∀ s i next, view (link s i next) = view s)
    (states : ∀ {s s' t state old}, s.setState cpu t state = .ok (s', old) → view s' = view s)
    (done : list.putCurrent cpu s state = .ok (list', s', inherit)) : view s' = view s := by
  obtain ⟨t, curr, next, old, -, -, outcome⟩ := putCurrent_ok done
  cases curr with
  | none => rw [states outcome.2.2, links]
  | some c => rw [states outcome.2.2, links, links]

theorem pop_view {popped : Option (Nat × ThreadState)}
    (links : ∀ s i next, view (link s i next) = view s)
    (states : ∀ {s s' t state old}, s.setState cpu t state = .ok (s', old) → view s' = view s)
    (done : list.pop cpu s = .ok (list', s', popped)) : view s' = view s := by
  rcases pop_ok done with ⟨-, -, rfl, -⟩ | ⟨head, old, -, -, -, set⟩
  · rfl
  · rw [states set, links]

theorem removeInner_view {removed : Bool}
    (links : ∀ s i next, view (link s i next) = view s)
    (states : ∀ {s s' t state old}, s.setState cpu t state = .ok (s', old) → view s' = view s)
    (done : list.removeInner cpu s t = .ok (list', s', removed)) : view s' = view s := by
  obtain ⟨-, rfl, -⟩ | ⟨-, -, old, ⟨-, -, set⟩ | ⟨-, before, -, set⟩⟩ := removeInner_ok done
  · rfl
  · rw [states set, links]
  · rw [states set, links, links]

theorem removeCurrent_view {removed : Bool}
    (links : ∀ s i next, view (link s i next) = view s)
    (states : ∀ {s s' t state old}, s.setState cpu t state = .ok (s', old) → view s' = view s)
    (done : list.removeCurrent cpu s = .ok (list', s', removed)) : view s' = view s := by
  obtain ⟨t, -, inner⟩ := removeCurrent_inner done
  exact removeInner_view links states inner

end Views

theorem putCurrent_deadlineOf {inherit : Option Nat}
    (done : list.putCurrent cpu s state = .ok (list', s', inherit)) :
    s'.deadlineOf = s.deadlineOf :=
  putCurrent_view (fun _ _ _ => rfl) setState_deadlineOf done

theorem pop_deadlineOf {popped : Option (Nat × ThreadState)}
    (done : list.pop cpu s = .ok (list', s', popped)) : s'.deadlineOf = s.deadlineOf :=
  pop_view (fun _ _ _ => rfl) setState_deadlineOf done

theorem removeCurrent_deadlineOf {removed : Bool}
    (done : list.removeCurrent cpu s = .ok (list', s', removed)) :
    s'.deadlineOf = s.deadlineOf :=
  removeCurrent_view (fun _ _ _ => rfl) setState_deadlineOf done

theorem putCurrent_prioOf {inherit : Option Nat}
    (done : list.putCurrent cpu s state = .ok (list', s', inherit)) : s'.prioOf = s.prioOf :=
  putCurrent_view (fun _ _ _ => rfl) setState_prioOf done

theorem pop_prioOf {popped : Option (Nat × ThreadState)}
    (done : list.pop cpu s = .ok (list', s', popped)) : s'.prioOf = s.prioOf :=
  pop_view (fun _ _ _ => rfl) setState_prioOf done

theorem removeInner_prioOf {removed : Bool}
    (done : list.removeInner cpu s t = .ok (list', s', removed)) : s'.prioOf = s.prioOf :=
  removeInner_view (fun _ _ _ => rfl) setState_prioOf done

theorem putCurrent_bound {inherit : Option Nat} (own : s.currentTid cpu = some t)
    (self : s.tidOf t = t)
    (done : list.putCurrent cpu s state = .ok (list', s', inherit)) : t < threadCount := by
  obtain ⟨u, curr, next, old, own', -, outcome⟩ := putCurrent_ok done
  obtain rfl : t = u := Option.some.inj (own.symm.trans own')
  rw [self] at outcome
  cases curr with
  | none => exact (setState_eq outcome.2.2).1
  | some c => exact (setState_eq outcome.2.2).1

/-- Only the current thread enters and leaves a list on its own. -/
theorem putCurrent_stateOf {u : Nat} {inherit : Option Nat} (own : s.currentTid cpu = some t)
    (self : s.tidOf t = t) (other : u ≠ t)
    (done : list.putCurrent cpu s state = .ok (list', s', inherit)) :
    s'.stateOf u = s.stateOf u := by
  obtain ⟨v, curr, next, old, own', -, outcome⟩ := putCurrent_ok done
  obtain rfl : t = v := Option.some.inj (own.symm.trans own')
  rw [self] at outcome
  cases curr with
  | none =>
    rw [setState_stateOf outcome.2.2, Function.update_of_ne other]
    rfl
  | some c =>
    rw [setState_stateOf outcome.2.2, Function.update_of_ne other]
    rfl

theorem removeCurrent_stateOf {u : Nat} {removed : Bool} (own : s.currentTid cpu = some t)
    (other : u ≠ t) (done : list.removeCurrent cpu s = .ok (list', s', removed)) :
    s'.stateOf u = s.stateOf u := by
  obtain ⟨v, own', outcome⟩ := removeCurrent_ok done
  obtain rfl : t = v := Option.some.inj (own.symm.trans own')
  rcases outcome with ⟨-, rfl, -⟩ | ⟨-, -, old, ⟨-, -, set⟩ | ⟨-, before, -, set⟩⟩
  · rfl
  · rw [setState_stateOf set, Function.update_of_ne other]
    rfl
  · rw [setState_stateOf set, Function.update_of_ne other]
    rfl

/-- What each `pop` keeps holds when the list is empty. -/
theorem popAll_keeps {P : ThreadList → Scheduler → Prop} {fuel : Nat}
    (keep : ∀ {list s list' s' popped}, P list s → list.pop cpu s = .ok (list', s', popped) →
      P list' s') (start : P list s) (done : popAll cpu fuel list s = .ok (list', s')) :
    P list' s' ∧ list'.head = none := by
  induction fuel generalizing list s with
  | zero => cases done
  | succ fuel ih =>
    obtain ⟨⟨list₁, s₁, popped⟩, took, rest⟩ := bind_ok_iff.mp done
    have kept := keep start took
    cases popped with
    | some head => exact ih kept rest
    | none =>
      cases rest
      rcases pop_ok took with ⟨empty, rfl, -, -⟩ | ⟨head, old, -, -, some, -⟩
      · exact ⟨kept, empty⟩
      · cases some

end ArielOS.ThreadList
