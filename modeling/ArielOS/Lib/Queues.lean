import Mathlib.Data.List.Nodup
import Mathlib.Data.List.Rotate
import Mathlib.Logic.Function.Basic

/-- First-in first-out lists, one for each priority. -/
abbrev Queues (α : Type*) := Nat → List α

namespace Queues

variable {α : Type*}

def highest (L : Queues α) : Nat → Option Nat
  | 0 => none
  | q + 1 => if (L q).isEmpty then highest L q else some q

theorem highest_eq_some {L : Queues α} {bound q : Nat} :
    highest L bound = some q ↔ q < bound ∧ L q ≠ [] ∧ ∀ r, q < r → r < bound → L r = [] := by
  induction bound with
  | zero => simp [highest]
  | succ b ih =>
    simp only [highest]
    by_cases empty : L b = []
    · rw [if_pos (by simp [empty]), ih]
      constructor
      · rintro ⟨lt, ne, above⟩
        refine ⟨by omega, ne, fun r low high => ?_⟩
        by_cases last : r = b
        · exact last ▸ empty
        · exact above r low (by omega)
      · rintro ⟨lt, ne, above⟩
        have other : q ≠ b := by rintro rfl; exact ne empty
        exact ⟨by omega, ne, fun r low high => above r low (by omega)⟩
    · rw [if_neg (by simp [empty]), Option.some.injEq]
      constructor
      · rintro rfl
        exact ⟨by omega, empty, fun r low high => by omega⟩
      · rintro ⟨lt, ne, above⟩
        by_contra other
        exact empty (above b (by omega) (by omega))

theorem highest_eq_none {L : Queues α} {bound : Nat} :
    highest L bound = none ↔ ∀ q < bound, L q = [] := by
  induction bound with
  | zero => simp [highest]
  | succ b ih =>
    simp only [highest]
    by_cases empty : L b = []
    · rw [if_pos (by simp [empty]), ih]
      refine ⟨fun h q lt => ?_, fun h q lt => h q (by omega)⟩
      by_cases last : q = b
      · exact last ▸ empty
      · exact h q (by omega)
    · rw [if_neg (by simp [empty])]
      simp only [reduceCtorEq, false_iff, not_forall]
      exact ⟨b, by omega, empty⟩

/-- All elements, from the highest queue down. -/
def order (L : Queues α) : Nat → List α
  | 0 => []
  | q + 1 => L q ++ order L q

theorem mem_order {L : Queues α} {a : α} {bound : Nat} :
    a ∈ order L bound ↔ ∃ q < bound, a ∈ L q := by
  induction bound with
  | zero => simp [order]
  | succ b ih =>
    rw [order, List.mem_append, ih]
    apply Iff.intro
    · intro member
      rcases member with here | ⟨q, lt, lower⟩
      · exact ⟨b, by omega, here⟩
      · exact ⟨q, by omega, lower⟩
    · intro ⟨q, lt, member⟩
      by_cases last : q = b
      · exact Or.inl (last ▸ member)
      · exact Or.inr ⟨q, by omega, member⟩

theorem order_of_highest {L : Queues α} {bound q : Nat} (top : highest L bound = some q) :
    order L bound = L q ++ order L q := by
  induction bound with
  | zero => simp [highest] at top
  | succ b ih =>
    simp only [highest] at top
    split at top
    · rename_i empty
      rw [order, List.isEmpty_iff.mp empty, List.nil_append, ih top]
    · cases top
      rfl

theorem order_head? (L : Queues α) (bound : Nat) :
    (order L bound).head? = (highest L bound).bind fun q => (L q).head? := by
  cases top : highest L bound with
  | none =>
    rw [Option.bind_none, List.head?_eq_none_iff, List.eq_nil_iff_forall_not_mem]
    intro a member
    obtain ⟨q, lt, here⟩ := mem_order.mp member
    rw [highest_eq_none.mp top q lt] at here
    exact absurd here (by simp)
  | some q =>
    have filled := (highest_eq_some.mp top).2.1
    rw [order_of_highest top, List.head?_append_of_ne_nil _ filled, Option.bind_some]

/-- A search finds the first match of the highest queue that has any. -/
theorem find?_order {L : Queues α} {p : α → Bool} {a : α} {bound : Nat} :
    (order L bound).find? p = some a ↔
      ∃ q < bound, (L q).find? p = some a ∧ ∀ r, q < r → r < bound → ∀ b ∈ L r, p b = false := by
  induction bound with
  | zero => simp [order]
  | succ bound ih =>
    rw [order, List.find?_append, Option.or_eq_some_iff, ih, List.find?_eq_none]
    apply Iff.intro
    · intro found
      rcases found with here | ⟨none, q, less, below, above⟩
      · exact ⟨bound, Nat.lt_succ_self bound, here, fun r higher less => by omega⟩
      · refine ⟨q, Nat.lt_succ_of_lt less, below, fun r higher lower b member => ?_⟩
        by_cases top : r = bound
        · rw [top] at member
          simpa using none b member
        · exact above r higher (by omega) b member
    · intro ⟨q, less, found, above⟩
      by_cases top : q = bound
      · rw [top] at found
        exact Or.inl found
      · refine Or.inr ⟨fun b member => ?_, q, by omega, found, fun r higher lower => ?_⟩
        · simpa using above bound (by omega) (Nat.lt_succ_self bound) b member
        · exact above r higher (by omega)

/-- The queues below a bound. -/
def below (L : Queues α) (bound : Nat) : Queues α := fun q => if q < bound then L q else []

theorem highest_below (L : Queues α) {bound n : Nat} (le : bound ≤ n) :
    highest (below L bound) n = highest L bound := by
  induction n with
  | zero =>
    obtain rfl : bound = 0 := by omega
    rfl
  | succ n ih =>
    by_cases last : bound = n + 1
    · subst last
      have same : ∀ k ≤ n + 1, highest (below L (n + 1)) k = highest L k := by
        intro k
        induction k with
        | zero => exact fun _ => rfl
        | succ k ih =>
          intro le
          have here : below L (n + 1) k = L k := if_pos (by omega)
          rw [highest, highest, here, ih (by omega)]
      exact same _ (Nat.le_refl _)
    · have empty : below L bound n = [] := if_neg (by omega)
      rw [highest, empty, List.isEmpty_nil, if_pos rfl]
      exact ih (by omega)

/-- The first element of the highest non-empty queue. -/
def IsTop (L : Queues α) (a : α) : Prop :=
  ∃ q, (L q).head? = some a ∧ ∀ p, q < p → L p = []

theorem IsTop.mem {L : Queues α} {a : α} (top : IsTop L a) : ∃ q, a ∈ L q :=
  top.elim fun q found => ⟨q, List.mem_of_head? found.1⟩

theorem isTop_iff {L : Queues α} {a : α} {bound : Nat} (fits : ∀ q, L q ≠ [] → q < bound) :
    IsTop L a ↔ ((highest L bound).bind fun q => (L q).head?) = some a := by
  rw [Option.bind_eq_some_iff]
  apply Iff.intro
  · intro ⟨q, head, above⟩
    have filled : L q ≠ [] := by
      intro empty
      simp [empty] at head
    exact ⟨q, highest_eq_some.mpr ⟨fits q filled, filled, fun p lt _ => above p lt⟩, head⟩
  · intro ⟨q, top, head⟩
    obtain ⟨-, -, above⟩ := highest_eq_some.mp top
    refine ⟨q, head, ?_⟩
    intro p higher
    by_contra filled
    exact filled (above p higher (fits p filled))

structure Separate (L : Queues α) : Prop where
  nodup : ∀ q, (L q).Nodup
  apart : ∀ {a q r}, a ∈ L q → a ∈ L r → q = r

theorem Separate.nodup_order {L : Queues α} (separate : Separate L) (bound : Nat) :
    (order L bound).Nodup := by
  induction bound with
  | zero => simp [order]
  | succ b ih =>
    rw [order, List.nodup_append]
    refine ⟨separate.nodup b, ih, ?_⟩
    intro a here c lower same
    obtain ⟨q, lt, member⟩ := mem_order.mp lower
    have level := separate.apart here (same ▸ member)
    omega

theorem separate_nil : Separate (fun _ => [] : Queues α) := ⟨by simp, by simp⟩

def dropHead (L : Queues α) (q : Nat) : Queues α := Function.update L q (L q).tail

def rotate (L : Queues α) (q : Nat) : Queues α := Function.update L q ((L q).rotate 1)

theorem dropHead_of_nil {L : Queues α} {q : Nat} (empty : L q = []) : dropHead L q = L := by
  simp [dropHead, empty]

theorem rotate_of_short {L : Queues α} {q : Nat} (short : ¬ 2 ≤ (L q).length) : rotate L q = L := by
  have same : (L q).rotate 1 = L q := by
    match front : L q with
    | [] => rfl
    | [b] => simp
    | b :: c :: l => simp [front] at short
  rw [rotate, same, Function.update_eq_self]

theorem mem_rotate {L : Queues α} {b : α} {q r : Nat} : b ∈ rotate L q r ↔ b ∈ L r := by
  unfold rotate
  by_cases same : r = q
  · subst same
    simp [List.mem_rotate]
  · simp [same]

theorem Separate.rotate {L : Queues α} (separate : Separate L) (q : Nat) : Separate (rotate L q) := by
  constructor
  · intro r
    unfold Queues.rotate
    by_cases same : r = q
    · subst same
      simpa using separate.nodup r
    · simpa [same] using separate.nodup r
  · intro b r s hr hs
    exact separate.apart (mem_rotate.mp hr) (mem_rotate.mp hs)

variable [DecidableEq α]

/-- Appends `a` to queue `q`, unless it is in there already. -/
def enqueue (L : Queues α) (a : α) (q : Nat) : Queues α :=
  if a ∈ L q then L else Function.update L q (L q ++ [a])

def remove (L : Queues α) (a : α) : Queues α := fun q => (L q).erase a

variable {L : Queues α} {a b : α} {q r : Nat}

theorem mem_enqueue : b ∈ enqueue L a q r ↔ b ∈ L r ∨ (b = a ∧ r = q) := by
  unfold enqueue
  split
  · rename_i queued
    constructor
    · exact Or.inl
    · rintro (h | ⟨rfl, rfl⟩)
      · exact h
      · exact queued
  · by_cases same : r = q
    · subst same
      simp
    · simp [same]

theorem mem_remove (separate : Separate L) : b ∈ remove L a r ↔ b ∈ L r ∧ b ≠ a := by
  rw [remove, (separate.nodup r).mem_erase_iff, and_comm]

theorem remove_eq_update (separate : Separate L) (member : a ∈ L q) :
    remove L a = Function.update L q ((L q).erase a) := by
  funext r
  by_cases same : r = q
  · subst same
    simp [remove]
  · have absent : a ∉ L r := fun other => same (separate.apart other member)
    simp [remove, same, List.erase_of_not_mem absent]

theorem remove_of_notMem (absent : ∀ q, a ∉ L q) : remove L a = L := by
  funext q
  exact List.erase_of_not_mem (absent q)

theorem dropHead_eq_remove (separate : Separate L) (head : (L q).head? = some a) :
    dropHead L q = remove L a := by
  rw [remove_eq_update separate (List.mem_of_head? head), dropHead]
  cases front : L q with
  | nil => simp [front] at head
  | cons b l =>
    obtain rfl : b = a := by simpa [front] using head
    simp

theorem head_enqueue {p : Nat} (head : (L q).head? = some b) :
    (Queues.enqueue L a p q).head? = some b := by
  unfold Queues.enqueue
  split
  · exact head
  · by_cases same : q = p
    · subst same
      rw [Function.update_self, List.head?_append, head, Option.some_or]
    · rw [Function.update_of_ne same, head]

/-- Appending at or below the highest non-empty queue does not change the first element. -/
theorem IsTop.enqueue {p : Nat} (head : (L q).head? = some b) (above : ∀ r, q < r → L r = [])
    (le : p ≤ q) : IsTop (Queues.enqueue L a p) b := by
  refine ⟨q, head_enqueue head, ?_⟩
  · intro r higher
    unfold Queues.enqueue
    split
    · exact above r higher
    · have other : r ≠ p := by omega
      rw [Function.update_of_ne other, above r higher]

theorem head_remove (head : (L q).head? = some b) (other : b ≠ a) :
    (remove L a q).head? = some b := by
  unfold remove
  cases front : L q with
  | nil => simp [front] at head
  | cons c l =>
    obtain rfl : c = b := by simpa [front] using head
    rw [List.erase_cons_tail (by simpa using other), List.head?_cons]

theorem Separate.enqueue (separate : Separate L) (elsewhere : ∀ r, a ∈ L r → r = q) :
    Separate (enqueue L a q) := by
  constructor
  · intro r
    unfold Queues.enqueue
    split
    · exact separate.nodup r
    · rename_i fresh
      by_cases same : r = q
      · subst same
        simpa [List.nodup_append] using ⟨separate.nodup r, fun b member => by
          rintro rfl; exact fresh member⟩
      · simpa [same] using separate.nodup r
  · intro b r s hr hs
    rw [mem_enqueue] at hr hs
    rcases hr with hr | ⟨rfl, rfl⟩ <;> rcases hs with hs | ⟨same, rfl⟩
    · exact separate.apart hr hs
    · exact elsewhere r (same ▸ hr)
    · exact (elsewhere s hs).symm
    · rfl

theorem Separate.remove (separate : Separate L) (a : α) : Separate (remove L a) :=
  ⟨fun r => (separate.nodup r).erase a,
    fun hq hr => separate.apart (List.mem_of_mem_erase hq) (List.mem_of_mem_erase hr)⟩

/-- Elements in front of another one stay in front. -/
theorem idxOf_enqueue (member : b ∈ L r) : (enqueue L a q r).idxOf b = (L r).idxOf b := by
  unfold enqueue
  split
  · rfl
  · by_cases same : r = q
    · subst same
      rw [Function.update_self, List.idxOf_append_of_mem member]
    · rw [Function.update_of_ne same]

theorem idxOf_remove_le (other : b ≠ a) : (remove L a r).idxOf b ≤ (L r).idxOf b := by
  unfold remove
  induction L r with
  | nil => exact Nat.le_refl _
  | cons c l ih =>
    by_cases found : c = a
    · subst found
      rw [List.erase_cons_head, List.idxOf_cons_ne l (Ne.symm other)]
      exact Nat.le_succ _
    · rw [List.erase_cons_tail (by simpa using found)]
      by_cases here : c = b
      · rw [List.idxOf_cons_eq _ here, List.idxOf_cons_eq _ here]
      · rw [List.idxOf_cons_ne _ here, List.idxOf_cons_ne _ here]
        exact Nat.succ_le_succ ih

/-- A rotation brings all but the first element forward. -/
theorem idxOf_remove_head (head : (L r).head? = some a) (other : b ≠ a) :
    (remove L a r).idxOf b + 1 = (L r).idxOf b := by
  obtain ⟨rest, front⟩ := List.head?_eq_some_iff.mp head
  unfold remove
  rw [front, List.erase_cons_head, List.idxOf_cons_ne rest other.symm]

theorem idxOf_rotate (head : (L q).head? = some a) (other : b ≠ a) (member : b ∈ L q) :
    (rotate L q q).idxOf b + 1 = (L q).idxOf b := by
  unfold rotate
  rw [Function.update_self]
  cases front : L q with
  | nil => simp [front] at head
  | cons c l =>
    obtain rfl : c = a := by simpa [front] using head
    have behind : b ∈ l := by simpa [front, other] using member
    rw [List.rotate_cons_succ, List.rotate_zero, List.idxOf_append_of_mem behind,
      List.idxOf_cons_ne l (Ne.symm other)]

end Queues
