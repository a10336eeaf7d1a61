import Mathlib.Data.List.Perm.Basic
import Mathlib.Data.List.Range
import ArielOS.Lib.Recency
import ArielOS.Coapcore.OrderedPool

namespace ArielOS.Coapcore

open Machine Recency

theorem rotateRightIn_append {xs ys zs : List Nat} {k : Nat} :
    rotateRightIn (xs ++ ys ++ k :: zs) xs.length (xs ++ ys).length = xs ++ k :: (ys ++ zs) := by
  have inner : (ys ++ [k]).rotateRight = k :: ys := by
    cases ys with
    | nil => rfl
    | cons y ys => simp [List.rotateRight, Nat.mod_eq_of_lt]
  have start : (xs ++ ys ++ k :: zs).take xs.length = xs := by simp
  have slice : ((xs ++ ys ++ k :: zs).take ((xs ++ ys).length + 1)).drop xs.length = ys ++ [k] := by
    rw [List.take_length_add_append]
    simp
  have rear : (xs ++ ys ++ k :: zs).drop ((xs ++ ys).length + 1) = zs := by
    rw [List.drop_length_add_append]
    simp
  rw [rotateRightIn, start, slice, rear, inner]
  simp

theorem rotateLeftIn_append {xs ys zs : List Nat} {k : Nat} :
    rotateLeftIn (xs ++ k :: (ys ++ zs)) xs.length (xs.length + ys.length) =
      xs ++ ys ++ k :: zs := by
  have inner : (k :: ys).rotateLeft = ys ++ [k] := by
    cases ys with
    | nil => rfl
    | cons y ys => simp [List.rotateLeft, Nat.mod_eq_of_lt]
  have start : (xs ++ k :: (ys ++ zs)).take xs.length = xs := by simp
  have slice : ((xs ++ k :: (ys ++ zs)).take (xs.length + ys.length + 1)).drop xs.length =
      k :: ys := by
    rw [Nat.add_assoc, List.take_length_add_append]
    simp
  have rear : (xs ++ k :: (ys ++ zs)).drop (xs.length + ys.length + 1) = zs := by
    rw [Nat.add_assoc, List.drop_length_add_append]
    simp
  rw [rotateLeftIn, start, slice, rear, inner]
  simp

namespace OrderedPool

variable {T R : Type} {N L : Nat} [PriorityLevel T] {pool : OrderedPool T N L} {P S : List Nat}
  {k : Nat}

/-- The level of what is found at an index. -/
def found (entry : Option T) : Nat := (entry.map level).getD 0

def rankIn (entries : List T) (index : Nat) : Nat := found entries[index]?

theorem levelAt_ok (sorted : pool.sorted = P ++ k :: S) (bound : k < pool.entries.length) :
    pool.levelAt P.length = .ok (rankIn pool.entries k) := by
  simp [levelAt, indexAt, entryAt, sorted, bound, rankIn, found]

/-- The loop to the front stops behind the entries of smaller level. -/
theorem towardsFront_ok (newLevel : Nat) (sorted : pool.sorted = P ++ S)
    (bounds : ∀ i ∈ P, i < pool.entries.length) : ∃ front back, P = front ++ back ∧
      pool.towardsFront newLevel P.length = .ok front.length ∧
      (∀ i ∈ back, newLevel ≤ rankIn pool.entries i) ∧
      ∀ i ∈ front.getLast?, rankIn pool.entries i < newLevel := by
  induction P using List.reverseRecOn generalizing S with
  | nil => exact ⟨[], [], rfl, rfl, by simp, by simp⟩
  | append_singleton P i ih =>
    rw [List.append_assoc] at sorted
    have here := levelAt_ok sorted (bounds i (by simp))
    rw [List.length_append, List.length_singleton, towardsFront, here, ok_bind]
    by_cases le : newLevel ≤ rankIn pool.entries i
    · obtain ⟨front, back, rfl, stops, larger, smaller⟩ :=
        ih sorted fun j member => bounds j (by simp [member])
      refine ⟨front, back ++ [i], by simp, by rw [if_pos le, stops], ?_, smaller⟩
      intro j member
      rcases List.mem_append.mp member with member | member
      · exact larger j member
      · rw [List.mem_singleton.mp member]
        exact le
    · refine ⟨P ++ [i], [], by simp, by simp [le], by simp, ?_⟩
      intro j last
      rw [List.getLast?_concat, Option.mem_some_iff] at last
      exact last ▸ Nat.lt_of_not_le le

/-- The loop to the rear stops before the entries whose level is not smaller. -/
theorem towardsRear_ok (newLevel : Nat) {position : Nat} (sorted : pool.sorted = P ++ S)
    (length : P.length = position + 1) (bounds : ∀ i ∈ S, i < pool.entries.length) :
    ∃ front back, S = front ++ back ∧
      pool.towardsRear newLevel S.length position = .ok (position + front.length) ∧
      (∀ i ∈ front, rankIn pool.entries i < newLevel) ∧
      ∀ i ∈ back.head?, newLevel ≤ rankIn pool.entries i := by
  induction S generalizing P position with
  | nil => exact ⟨[], [], rfl, rfl, by simp, by simp⟩
  | cons i S ih =>
    have here := levelAt_ok sorted (bounds i (by simp))
    rw [length] at here
    rw [List.length_cons, towardsRear, here, ok_bind]
    by_cases lt : rankIn pool.entries i < newLevel
    · obtain ⟨front, back, rfl, stops, smaller, larger⟩ :=
        ih (P := P ++ [i]) (by simp [sorted]) (by rw [List.length_append, length]; rfl)
          fun j member => bounds j (by simp [member])
      refine ⟨i :: front, back, by simp, ?_, ?_, larger⟩
      · rw [if_pos lt, stops, List.length_cons, Nat.add_assoc, Nat.add_comm 1]
      · intro j member
        rcases List.mem_cons.mp member with rfl | member
        · exact lt
        · exact smaller j member
    · refine ⟨[], i :: S, rfl, by simp [lt], by simp, ?_⟩
      intro j first
      rw [List.head?_cons, Option.mem_some_iff] at first
      exact first ▸ Nat.le_of_not_lt lt

/-- `touch` moves the entry at the position to the front of its level. -/
theorem touch_ok (sorted : pool.sorted = P ++ k :: S)
    (bounds : ∀ i ∈ pool.sorted, i < pool.entries.length)
    (ordered : Ordered (rankIn pool.entries) (P ++ S)) (limit : rankIn pool.entries k < L) :
    pool.touch P.length =
      .ok { pool with sorted := place (rankIn pool.entries) k (P ++ S) } := by
  rw [sorted] at bounds
  have here := levelAt_ok sorted (bounds k (by simp))
  obtain ⟨front, back, split, stops, larger, smaller⟩ :=
    towardsFront_ok (rankIn pool.entries k) sorted fun i member => bounds i (by simp [member])
  obtain ⟨left, right, crossing⟩ := List.pairwise_append.mp ordered
  rw [touch, here, ok_bind, if_neg (not_not.mpr limit), stops, ok_bind]
  have frontOrdered : ∀ i ∈ front, rankIn pool.entries i < rankIn pool.entries k := by
    intro i member
    cases last : front.getLast? with
    | none => rw [List.getLast?_eq_none_iff.mp last] at member; cases member
    | some j =>
      obtain ⟨init, rfl⟩ := List.getLast?_eq_some_iff.mp last
      have bound := smaller j last
      rcases List.mem_append.mp member with member | member
      · have le := (List.pairwise_append.mp (split ▸ left)).1
        exact Nat.lt_of_le_of_lt ((List.pairwise_append.mp le).2.2 i member j (by simp)) bound
      · rwa [List.mem_singleton.mp member]
  by_cases stays : front.length = P.length
  · -- Nothing before the entry has its level, or more: the loop to the rear.
    obtain rfl : back = [] := by
      rw [split, List.length_append] at stays
      exact List.length_eq_zero_iff.mp (by omega)
    rw [List.append_nil] at split
    subst split
    have after : pool.sorted = P ++ [k] ++ S := by simp [sorted]
    obtain ⟨front, back, rfl, ends, lower, higher⟩ :=
      towardsRear_ok (rankIn pool.entries k) after (List.length_append ..) fun i member =>
        bounds i (by simp [member])
    have behind : pool.sorted.length - 1 - P.length = (front ++ back).length := by
      rw [sorted, List.length_append, List.length_cons]
      omega
    have placed : place (rankIn pool.entries) k (P ++ (front ++ back)) = P ++ front ++ k :: back := by
      rw [← List.append_assoc]
      refine place_append (fun i member => ?_) higher
      rcases List.mem_append.mp member with member | member
      · exact frontOrdered i member
      · exact lower i member
    rw [if_pos rfl, behind, ends, ok_bind, placed]
    by_cases none : front = []
    · subst none
      obtain ⟨entries, sorted'⟩ := pool
      simpa using sorted
    · rw [if_neg (by simpa using none), sorted, rotateLeftIn_append]
      rfl
  · obtain ⟨j, back, rfl⟩ := List.exists_cons_of_ne_nil fun empty : back = [] =>
      stays (by rw [split, empty, List.append_nil])
    have placed : place (rankIn pool.entries) k (P ++ S) = front ++ k :: (j :: back ++ S) := by
      rw [split, List.append_assoc]
      exact place_append frontOrdered fun i first => larger i (by simp at first; simp [first])
    rw [if_neg stays, placed, sorted, split, rotateRightIn_append]
    rfl

end OrderedPool

end ArielOS.Coapcore
