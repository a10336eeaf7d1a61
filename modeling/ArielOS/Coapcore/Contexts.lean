import ArielOS.Coapcore.PoolRefinement
import ArielOS.Coapcore.SecContext

namespace ArielOS.Coapcore

open Recency

namespace OrderedPool

variable {T R : Type} {N L : Nat} [PriorityLevel T] {pool pool' : OrderedPool T N L} {xs : List T}

/-- The entries, by priority and recentness. -/
def toList (pool : OrderedPool T N L) : List T := pool.sorted.filterMap (pool.entries[·]?)

omit [PriorityLevel T] in
theorem toList_of_entries (entries : pool.sorted.map (pool.entries[·]?) = xs.map some) :
    pool.toList = xs := by
  have same := congrArg (List.filterMap id) entries
  rw [List.filterMap_map, List.filterMap_map] at same
  exact same.trans List.filterMap_some

theorem Represents.toList_eq (repr : pool.Represents xs) : pool.toList = xs :=
  toList_of_entries repr.entries

/-- A pool as its operations leave it. -/
def Formed (pool : OrderedPool T N L) : Prop := pool.Represents pool.toList

theorem Represents.formed (repr : pool.Represents xs) : pool.Formed := by
  rwa [Formed, repr.toList_eq]

theorem Formed.mem_entries {a : T} (formed : pool.Formed) : a ∈ pool.entries ↔ a ∈ pool.toList := by
  rw [toList, List.mem_filterMap, List.mem_iff_getElem?]
  refine ⟨fun ⟨i, here⟩ => ⟨i, ?_, here⟩, fun ⟨i, _, here⟩ => ⟨i, here⟩⟩
  exact formed.indices.mem_iff.mpr (List.mem_range.mpr (List.getElem?_eq_some_iff.mp here).1)

theorem Formed.perm (formed : pool.Formed) : pool.toList.Perm pool.entries := by
  have all : (List.range pool.entries.length).map (pool.entries[·]?) = pool.entries.map some := by
    refine List.ext_getElem (by simp) fun i here _ => ?_
    rw [List.length_map, List.length_range] at here
    simp [here]
  let inPlace : OrderedPool T N L := { pool with sorted := List.range pool.entries.length }
  have same : inPlace.toList = pool.entries := toList_of_entries all
  exact (formed.indices.filterMap (pool.entries[·]?)).trans (List.Perm.of_eq same)

variable (below : ∀ a : T, level a < L)
include below

theorem Formed.lookup {fTest : T → Bool} {fUse : T → T × R} {r : Option R} (formed : pool.Formed)
    (done : pool.lookup fTest fUse = .ok (pool', r)) :
    pool'.Formed ∧ use level fTest fUse pool.toList = (pool'.toList, r) := by
  obtain ⟨next, ran, repr⟩ := Represents.lookup formed below fTest fUse
  rw [ran, Except.ok.injEq, Prod.mk.injEq] at done
  obtain ⟨rfl, rfl⟩ := done
  exact ⟨repr.formed, by rw [repr.toList_eq]⟩

theorem Formed.forceInsert {new : T} {evicted : Option T} (formed : pool.Formed)
    (capacity : N < 65535) (positive : 0 < N) (done : pool.forceInsert new = .ok (pool', evicted)) :
    pool'.Formed ∧ Recency.forceInsert level N new pool.toList = (pool'.toList, evicted) := by
  obtain ⟨next, ran, repr⟩ := Represents.forceInsert formed below capacity positive new
  rw [ran, Except.ok.injEq, Prod.mk.injEq] at done
  obtain ⟨rfl, rfl⟩ := done
  exact ⟨repr.formed, by rw [repr.toList_eq]⟩

end OrderedPool

open OrderedPool

variable {P : Platform} {cfg : ServerSecurityConfig P} {pool pool' : SecContextPool cfg}
  {xs : List (SecContextState cfg)} {a new : SecContextState cfg} {id : COwn}

namespace SecContextState

theorem level_lt (state : SecContextState cfg) : level state < levelCount := by
  obtain ⟨authorization, stage⟩ := state
  cases stage <;> simp only [PriorityLevel.level, levelCount]
  case oscore => split <;> omega
  all_goals omega

def isEmpty (state : SecContextState cfg) : Bool := state.protocolStage.isEmpty

theorem level_of_empty (empty : a.isEmpty = true) : level a = 3 := by
  obtain ⟨authorization, stage⟩ := a
  cases stage <;> first | rfl | cases empty

theorem level_lt_of_used (used : a.isEmpty = false) : level a < 3 := by
  obtain ⟨authorization, stage⟩ := a
  cases stage <;> simp only [PriorityLevel.level]
  case empty => cases used
  case oscore => split <;> omega
  all_goals omega

theorem used_of_cown (named : a.correspondingCown = some id) : a.isEmpty = false := by
  obtain ⟨authorization, stage⟩ := a
  cases stage <;> first | rfl | cases named

end SecContextState

open SecContextState

/-- The entries that are in use, by priority and recentness. -/
def used (xs : List (SecContextState cfg)) : List (SecContextState cfg) := xs.filter (!·.isEmpty)

@[simp] theorem mem_used : a ∈ used xs ↔ a ∈ xs ∧ a.isEmpty = false := by simp [used]

theorem used_place (ordered : Ordered level xs) :
    used (place level new xs) = if new.isEmpty then used xs else place level new (used xs) := by
  rw [used, filter_place _ ordered]
  cases new.isEmpty <;> simp [used]

theorem used_append {ys : List (SecContextState cfg)} : used (xs ++ ys) = used xs ++ used ys :=
  List.filter_append ..

theorem used_cons (used_ : a.isEmpty = false) : used (a :: xs) = a :: used xs := by
  simp [used, used_]

/-- `lookup` of an identifier finds the first entry in use that has it. -/
theorem use_used {R : Type} (change : SecContextState cfg → SecContextState cfg × R)
    (ordered : Ordered level xs) :
    ((∀ a ∈ used xs, a.correspondingCown ≠ some id) ∧
      use level (·.correspondingCown = some id) change xs = (xs, none)) ∨
    ∃ front a back, used xs = front ++ a :: back ∧
      (∀ b ∈ front, b.correspondingCown ≠ some id) ∧ a.correspondingCown = some id ∧
      ∃ ys, use level (·.correspondingCown = some id) change xs = (ys, some (change a).2) ∧
        (change a).1 ∈ ys ∧
        used ys = if (change a).1.isEmpty then front ++ back
          else place level (change a).1 (front ++ back) := by
  rcases use_cases level (fun a : SecContextState cfg =>
      decide (a.correspondingCown = some id)) change xs with ⟨missing, same⟩ |
    ⟨front, a, back, rfl, fail, passes, result⟩
  · refine Or.inl ⟨fun a member => ?_, same⟩
    simpa using missing a (mem_used.mp member).1
  · have named : a.correspondingCown = some id := by simpa using passes
    refine Or.inr ⟨used front, a, used back, ?_, ?_, named, _, result, by simp, ?_⟩
    · rw [used_append, used_cons (used_of_cown named)]
    · intro b member
      simpa using fail b (mem_used.mp member).1
    · rw [used_place ordered.remove, used_append]

/-- What a `lookup` of an identifier does to the pool. -/
theorem lookup_used {R : Type} {change : SecContextState cfg → SecContextState cfg × R} {r : Option R}
    (formed : pool.Formed)
    (looked : pool.lookup (·.correspondingCown = some id) change = .ok (pool', r)) :
    pool'.Formed ∧
    (((∀ a ∈ used pool.toList, a.correspondingCown ≠ some id) ∧ pool'.toList = pool.toList ∧ r = none) ∨
    ∃ front a back, used pool.toList = front ++ a :: back ∧
      (∀ b ∈ front, b.correspondingCown ≠ some id) ∧ a.correspondingCown = some id ∧
      r = some (change a).2 ∧ (change a).1 ∈ pool'.toList ∧
      used pool'.toList = if (change a).1.isEmpty then front ++ back
        else place level (change a).1 (front ++ back)) := by
  obtain ⟨formed', list⟩ := formed.lookup SecContextState.level_lt looked
  refine ⟨formed', ?_⟩
  rcases use_used change formed.ordered with ⟨missing, same⟩ |
    ⟨front, a, back, split, before, named, ys, result, member, contexts⟩
  · rw [list, Prod.mk.injEq] at same
    exact Or.inl ⟨missing, same⟩
  · rw [list, Prod.mk.injEq] at result
    obtain ⟨rfl, rfl⟩ := result
    exact Or.inr ⟨front, a, back, split, before, named, rfl, member, contexts⟩

/-- `force_insert` adds to the entries in use, in the place of the last one only if all four are. -/
theorem forceInsert_used {ys : List (SecContextState cfg)} {evicted : Option (SecContextState cfg)}
    (ordered : Ordered level xs) (new_ : new.isEmpty = false)
    (inserted : Recency.forceInsert level maxContexts new xs = (ys, evicted)) :
    (used ys = place level new (used xs) ∧ evicted.all (·.isEmpty)) ∨
    (used xs = xs ∧ maxContexts ≤ xs.length ∧ used ys = place level new xs.dropLast ∧
      evicted = xs.getLast?) := by
  unfold Recency.forceInsert at inserted
  split at inserted
  · cases inserted
    exact Or.inl ⟨by simp [used_place ordered, new_], rfl⟩
  · rename_i full
    rw [Prod.mk.injEq] at inserted
    obtain ⟨rfl, rfl⟩ := inserted
    have rest : Ordered level xs.dropLast := ordered.sublist (List.dropLast_sublist xs)
    rw [used_place rest, new_]
    obtain rfl | ⟨init, last, rfl⟩ := List.eq_nil_or_concat' xs
    · exact Or.inl ⟨rfl, rfl⟩
    rw [List.dropLast_concat, List.getLast?_concat]
    cases empty : last.isEmpty with
    | true =>
      refine Or.inl ⟨?_, by simp [empty]⟩
      rw [used_append, used, used, List.filter_singleton, empty]
      simp
    | false =>
      -- The last entry has the largest level, so no entry is empty.
      have all : used (init ++ [last]) = init ++ [last] := by
        refine List.filter_eq_self.mpr fun a member => ?_
        have bound : level a ≤ level last := by
          rcases List.mem_append.mp member with member | member
          · exact (List.pairwise_append.mp ordered).2.2 a member last (by simp)
          · rw [List.mem_singleton.mp member]
        cases other : a.isEmpty with
        | false => rfl
        | true =>
          have large := level_of_empty other
          have small := level_lt_of_used empty
          omega
      have front : used init = init := by
        refine List.filter_eq_self.mpr fun a member => ?_
        have used_ : a ∈ used (init ++ [last]) := by
          rw [all]
          exact List.mem_append_left _ member
        simp [(mem_used.mp used_).2]
      exact Or.inr ⟨all, Nat.le_of_not_lt full, by simp [front], rfl⟩

/-- Where an entry is empty, no other one is lost. -/
theorem forceInsert_hidden {ys : List (SecContextState cfg)} {evicted : Option (SecContextState cfg)}
    (ordered : Ordered level xs) (new_ : new.isEmpty = false) (hidden : ∃ a ∈ xs, a.isEmpty = true)
    (inserted : Recency.forceInsert level maxContexts new xs = (ys, evicted)) :
    used ys = place level new (used xs) ∧ evicted.all (·.isEmpty) := by
  rcases forceInsert_used ordered new_ inserted with placed | ⟨all, -⟩
  · exact placed
  · obtain ⟨a, member, empty⟩ := hidden
    rw [← all] at member
    rw [(mem_used.mp member).2] at empty
    cases empty

end ArielOS.Coapcore
