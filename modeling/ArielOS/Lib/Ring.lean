import Mathlib.Logic.Function.Basic

namespace Ring

variable {α : Type*}

/-- A queue of at most `capacity` elements, with the oldest first. -/
structure BoundedQueue (α : Type*) where
  capacity : Nat
  elements : List α
  bounded : elements.length ≤ capacity

namespace BoundedQueue

def empty (capacity : Nat) : BoundedQueue α := ⟨capacity, [], Nat.zero_le capacity⟩

/-- Appends the element unless the queue is full. -/
def put (q : BoundedQueue α) (a : α) : BoundedQueue α × Bool :=
  if room : q.elements.length < q.capacity then
    (⟨q.capacity, q.elements ++ [a], by
      rw [List.length_append]
      exact room⟩, true)
  else
    (q, false)

def get (q : BoundedQueue α) : BoundedQueue α × Option α :=
  (⟨q.capacity, q.elements.tail, by
    rw [List.length_tail]
    exact Nat.le_trans (Nat.sub_le _ _) q.bounded⟩, q.elements.head?)

def peek (q : BoundedQueue α) : Option α := q.elements.head?

end BoundedQueue

/-- In a ring of `m` slots the one at `start + i` holds element `i`. -/
def Window (slots : Nat → Option α) (m start : Nat) (L : List α) : Prop :=
  ∀ i a, L[i]? = some a → slots ((start + i) % m) = some a

variable {slots : Nat → Option α} {m start : Nat} {L : List α} {a : α}

theorem window_nil : Window slots m start [] := by
  intro i a found
  simp at found

/-- The slot behind the last element is not one of those in use. -/
theorem Window.push (window : Window slots m start L) (room : L.length < m) :
    Window (Function.update slots ((start + L.length) % m) (some a)) m start (L ++ [a]) := by
  intro i b found
  by_cases old : i < L.length
  · rw [List.getElem?_append_left old] at found
    have other : (start + i) % m ≠ (start + L.length) % m := by
      intro same
      have wrapped := Nat.sub_mod_eq_zero_of_mod_eq same.symm
      rw [Nat.add_sub_add_left, Nat.mod_eq_of_lt (by omega)] at wrapped
      omega
    rw [Function.update_of_ne other]
    exact window i b found
  · rw [List.getElem?_append_right (Nat.not_lt.mp old)] at found
    have last : i = L.length := by
      by_contra beyond
      rw [List.getElem?_eq_none (by simp only [List.length_singleton]; omega)] at found
      cases found
    subst last
    simp only [Nat.sub_self, List.length_cons, List.length_nil, Nat.lt_add_one, getElem?_pos,
      List.getElem_cons_zero, Option.some.injEq] at found
    rw [Function.update_self, found]

theorem Window.front (window : Window slots m start (a :: L)) : slots (start % m) = some a :=
  window 0 a rfl

theorem Window.pop (window : Window slots m start (a :: L)) : Window slots m (start + 1) L := by
  intro i b found
  have here := window (i + 1) b (by simpa using found)
  rwa [Nat.add_right_comm]

/-- Only the position in the ring counts, so a counter may wrap at a multiple of its size. -/
theorem Window.wrap {start' : Nat} (window : Window slots m start L)
    (same : start' % m = start % m) : Window slots m start' L := by
  intro i b found
  rw [Nat.add_mod, same, ← Nat.add_mod]
  exact window i b found

end Ring
