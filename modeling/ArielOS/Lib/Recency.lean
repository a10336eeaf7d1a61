import Mathlib.Data.List.Sort

/-! Lists ordered by rank and, among equal ranks, by recency: the front of a rank is the entry that
    was used last. -/

namespace Recency

variable {α β ρ : Type*} [LinearOrder β] (rank : α → β)

/-- Puts an entry to the front of its rank. -/
def place (a : α) (xs : List α) : List α := xs.orderedInsert (fun a b => rank a ≤ rank b) a

def Ordered (xs : List α) : Prop := xs.Pairwise fun a b => rank a ≤ rank b

/-- The first entry that passes the test is changed and counts as used. -/
def use (test : α → Bool) (change : α → α × ρ) (xs : List α) : List α × Option ρ :=
  match xs.find? test with
  | none => (xs, none)
  | some a => (place rank (change a).1 (xs.eraseP test), some (change a).2)

/-- Adds an entry, in the place of the last one where the list is full. -/
def forceInsert (capacity : Nat) (a : α) (xs : List α) : List α × Option α :=
  if xs.length < capacity then
    (place rank a xs, none)
  else
    (place rank a xs.dropLast, xs.getLast?)

/-- Adds an entry unless the list is full of entries of smaller rank. -/
def insert (capacity : Nat) (a : α) (xs : List α) : List α × Except α (Option α) :=
  if xs.length < capacity then
    (place rank a xs, .ok none)
  else if ∀ last ∈ xs.getLast?, rank a ≤ rank last then
    (place rank a xs.dropLast, .ok xs.getLast?)
  else
    (xs, .error a)

variable {rank} {a b : α} {xs ys : List α}

@[simp] theorem mem_place : b ∈ place rank a xs ↔ b = a ∨ b ∈ xs := List.mem_orderedInsert _

theorem place_perm : (place rank a xs).Perm (a :: xs) := List.perm_orderedInsert _ _ _

@[simp] theorem length_place : (place rank a xs).length = xs.length + 1 :=
  List.orderedInsert_length _ _ _

theorem place_cons_of_le (le : rank a ≤ rank b) : place rank a (b :: xs) = a :: b :: xs :=
  List.orderedInsert_cons_of_le _ xs le

theorem place_cons_of_lt (lt : rank b < rank a) : place rank a (b :: xs) = b :: place rank a xs :=
  List.orderedInsert_of_not_le (r := fun a b => rank a ≤ rank b) xs (not_le.mpr lt)

/-- The front of a rank is between the entries of smaller rank and the others. -/
theorem place_append (before : ∀ b ∈ xs, rank b < rank a)
    (after : ∀ b ∈ ys.head?, rank a ≤ rank b) : place rank a (xs ++ ys) = xs ++ a :: ys := by
  induction xs with
  | nil =>
    cases ys with
    | nil => rfl
    | cons b ys => exact place_cons_of_le (after b rfl)
  | cons b xs ih =>
    rw [List.cons_append, place_cons_of_lt (before b (by simp)),
      ih fun c member => before c (List.mem_cons_of_mem _ member)]
    rfl

theorem place_ordered (ordered : Ordered rank xs) : Ordered rank (place rank a xs) := by
  induction xs with
  | nil => exact List.pairwise_singleton _ _
  | cons b xs ih =>
    obtain ⟨first, rest⟩ := List.pairwise_cons.mp ordered
    rcases le_or_gt (rank a) (rank b) with le | lt
    · rw [place_cons_of_le le]
      refine List.pairwise_cons.mpr ⟨fun c member => ?_, ordered⟩
      rcases List.mem_cons.mp member with rfl | member
      · exact le
      · exact le.trans (first c member)
    · rw [place_cons_of_lt lt]
      refine List.pairwise_cons.mpr ⟨fun c member => ?_, ih rest⟩
      rcases mem_place.mp member with rfl | member
      · exact lt.le
      · exact first c member

theorem place_map {γ : Type*} {rank' : γ → β} (f : α → γ) (same : ∀ b, rank' (f b) = rank b) :
    (place rank a xs).map f = place rank' (f a) (xs.map f) := by
  refine List.map_orderedInsert (fun a b => rank a ≤ rank b) (fun a b => rank' a ≤ rank' b) f xs a
    ?_ ?_ <;> simp [same]

/-- An entry has the same place among some of the others. -/
theorem filter_place (p : α → Bool) (ordered : Ordered rank xs) :
    (place rank a xs).filter p = if p a then place rank a (xs.filter p) else xs.filter p := by
  induction xs with
  | nil => by_cases keep : p a <;> simp [place, keep]
  | cons b xs ih =>
    obtain ⟨first, rest⟩ := List.pairwise_cons.mp ordered
    rcases le_or_gt (rank a) (rank b) with le | lt
    · have front : place rank a ((b :: xs).filter p) = a :: (b :: xs).filter p := by
        refine place_append (by simp : ∀ b ∈ [], rank b < rank a) fun c member => ?_
        rcases List.mem_cons.mp (List.mem_of_mem_filter (List.mem_of_mem_head? member)) with
          rfl | member
        · exact le
        · exact le.trans (first c member)
      rw [place_cons_of_le le, front]
      by_cases keep : p a <;> simp [keep]
    · rw [place_cons_of_lt lt]
      by_cases kept : p b
      · by_cases keep : p a <;> simp [kept, keep, ih rest, place_cons_of_lt lt]
      · simp [kept, ih rest]

variable (rank) in
theorem use_cases (test : α → Bool) (change : α → α × ρ) (xs : List α) :
    ((∀ a ∈ xs, test a = false) ∧ use rank test change xs = (xs, none)) ∨
    ∃ front a back, xs = front ++ a :: back ∧ (∀ b ∈ front, test b = false) ∧ test a = true ∧
      use rank test change xs = (place rank (change a).1 (front ++ back), some (change a).2) := by
  cases first : xs.find? test with
  | none => exact Or.inl ⟨by simpa using first, by simp [use, first]⟩
  | some a =>
    obtain ⟨passes, front, back, rfl, fail⟩ := List.find?_eq_some_iff_append.mp first
    have fail : ∀ b ∈ front, test b = false := fun b member => by simpa using fail b member
    have rest : (front ++ a :: back).eraseP test = front ++ back := by
      rw [List.eraseP_append_right _ fun b member => by simp [fail b member],
        List.eraseP_cons_of_pos passes]
    exact Or.inr ⟨front, a, back, rfl, fail, passes, by simp [use, first, rest]⟩

theorem Ordered.remove {front back : List α} (ordered : Ordered rank (front ++ a :: back)) :
    Ordered rank (front ++ back) :=
  ordered.sublist ((List.sublist_cons_self a back).append_left front)

end Recency
