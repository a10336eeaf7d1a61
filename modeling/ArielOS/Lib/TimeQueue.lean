import Mathlib.Algebra.Group.Nat.Defs
import Mathlib.Data.List.Basic

/-- A queue of the times at which wakers are to be called. `scheduleWake` tells whether it changed
    anything, `nextExpiration` the time of the next entry, and both whose wakers they called. -/
structure TimeQueue (Q : Type) where
  empty : Q
  timers : Q → List (Nat × Nat)
  scheduleWake : Nat → Nat → Q → Q × Bool × List Nat
  nextExpiration : Nat → Q → Q × Nat × List Nat
  timers_empty : timers empty = []
  schedule_entry : ∀ time u q, ∃ t ≤ time, (u, t) ∈ timers (scheduleWake time u q).1
  schedule_kept : ∀ time w q u t, (u, t) ∈ timers q →
    (∃ t' ≤ t, (u, t') ∈ timers (scheduleWake time w q).1) ∨ u ∈ (scheduleWake time w q).2.2
  schedule_same : ∀ time u q, (scheduleWake time u q).2.1 = false →
    timers (scheduleWake time u q).1 = timers q
  next_kept : ∀ now q u t, (u, t) ∈ timers q →
    (u, t) ∈ timers (nextExpiration now q).1 ∨ u ∈ (nextExpiration now q).2.2
  next_later : ∀ now q u t, (u, t) ∈ timers (nextExpiration now q).1 → now < t
  next_first : ∀ now q u t, (u, t) ∈ timers (nextExpiration now q).1 → (nextExpiration now q).2.1 ≤ t

namespace TimeQueue

section List

variable (time now u : Nat) (q : List (Nat × Nat))

def listSchedule : List (Nat × Nat) × Bool × List Nat :=
  if q.any fun e => e.1 = u ∧ e.2 ≤ time then
    (q, false, [])
  else
    ((u, time) :: q.filter (·.1 ≠ u), true, [])

def listNext : List (Nat × Nat) × Nat × List Nat :=
  let left := q.filter (now < ·.2)
  (left, left.foldr (fun e => min e.2) (2 ^ 64 - 1), (q.filter (·.2 ≤ now)).map (·.1))

variable {time now u : Nat} {q : List (Nat × Nat)}

theorem foldr_min_le {w t bound : Nat} (member : (w, t) ∈ q) :
    q.foldr (fun e => min e.2) bound ≤ t := by
  induction q with
  | nil => cases member
  | cons e q ih =>
    rw [List.foldr_cons]
    rcases List.mem_cons.mp member with rfl | later
    · exact Nat.min_le_left _ _
    · exact Nat.le_trans (Nat.min_le_right _ _) (ih later)

/-- One entry for each waker, with the earliest time. -/
def list : TimeQueue (List (Nat × Nat)) where
  empty := []
  timers := id
  scheduleWake := listSchedule
  nextExpiration := listNext
  timers_empty := rfl
  schedule_entry time u q := by
    unfold listSchedule
    split
    · rename_i known
      obtain ⟨⟨w, t⟩, member, same⟩ := List.any_eq_true.mp known
      obtain ⟨rfl, earlier⟩ := of_decide_eq_true same
      exact ⟨t, earlier, member⟩
    · exact ⟨time, Nat.le_refl _, List.mem_cons_self⟩
  schedule_kept time w q u t member := by
    unfold listSchedule
    split
    · exact Or.inl ⟨t, Nat.le_refl _, member⟩
    · rename_i unknown
      by_cases own : u = w
      · subst own
        refine Or.inl ⟨time, ?_, List.mem_cons_self⟩
        by_contra earlier
        exact unknown (List.any_eq_true.mpr ⟨_, member, decide_eq_true ⟨rfl, by omega⟩⟩)
      · refine Or.inl ⟨t, Nat.le_refl _, List.mem_cons_of_mem _ ?_⟩
        exact List.mem_filter.mpr ⟨member, decide_eq_true own⟩
  schedule_same time u q same := by
    unfold listSchedule at same ⊢
    split
    · rfl
    · rename_i unknown
      rw [if_neg unknown] at same
      cases same
  next_kept now q u t member := by
    by_cases later : now < t
    · exact Or.inl (List.mem_filter.mpr ⟨member, decide_eq_true later⟩)
    · refine Or.inr (List.mem_map.mpr ⟨(u, t), List.mem_filter.mpr ⟨member, ?_⟩, rfl⟩)
      exact decide_eq_true (Nat.le_of_not_lt later)
  next_later now q u t member := of_decide_eq_true (List.mem_filter.mp member).2
  next_first now q u t member := foldr_min_le member

end List

end TimeQueue
