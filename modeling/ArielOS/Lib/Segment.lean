import Mathlib.Data.List.Nodup
import Mathlib.Data.List.Rotate
import Mathlib.Logic.Function.Basic

namespace Linked

variable {α β : Type*}

/-- Following `next` from the pointer `p` visits exactly the nodes of the list, in order, and
    leaves the last of them through the pointer `z`. `link` is the pointer to a node. -/
def Segment (link : α → β) (next : α → β) : β → List α → β → Prop
  | p, [], z => p = z
  | p, a :: l, z => p = link a ∧ Segment link next (next a) l z

variable {link next : α → β} {p z w : β} {a : α} {l r : List α}

@[simp] theorem segment_nil : Segment link next p [] z ↔ p = z := Iff.rfl

@[simp] theorem segment_cons :
    Segment link next p (a :: l) z ↔ p = link a ∧ Segment link next (next a) l z := Iff.rfl

theorem segment_append :
    Segment link next p (l ++ r) z ↔ ∃ m, Segment link next p l m ∧ Segment link next m r z := by
  induction l generalizing p with
  | nil => simp
  | cons a l ih => simp [ih, and_assoc]

theorem segment_concat :
    Segment link next p (l ++ [a]) z ↔ Segment link next p l (link a) ∧ next a = z := by
  rw [segment_append]
  constructor
  · rintro ⟨m, before, rfl, last⟩
    exact ⟨before, last⟩
  · rintro ⟨before, last⟩
    exact ⟨_, before, rfl, last⟩

/-- A segment depends only on the links of its own nodes. -/
theorem Segment.congr {next' : α → β} (same : ∀ a ∈ l, next' a = next a)
    (h : Segment link next p l z) : Segment link next' p l z := by
  induction l generalizing p with
  | nil => exact h
  | cons a l ih =>
    refine ⟨h.1, ?_⟩
    rw [same a (by simp)]
    exact ih (fun b member => same b (List.mem_cons_of_mem _ member)) h.2

/-- The pointers leaving the nodes are the pointers to the nodes, shifted by one. -/
theorem Segment.map_next (h : Segment link next p l z) :
    p :: l.map next = l.map link ++ [z] := by
  induction l generalizing p with
  | nil => simpa using h
  | cons a l ih =>
    have rest := ih h.2
    simp only [List.map_cons, List.cons_append, ← rest, h.1]

section Update

variable [DecidableEq α]

theorem Segment.frame (outside : a ∉ l) (h : Segment link next p l z) :
    Segment link (Function.update next a w) p l z := by
  apply h.congr
  intro b member
  exact Function.update_of_ne (by rintro rfl; exact outside member) _ _

/-- Overwriting the link of the last node moves only the end of the segment. -/
theorem Segment.redirect (fresh : a ∉ l) (h : Segment link next p (l ++ [a]) z) :
    Segment link (Function.update next a w) p (l ++ [a]) w := by
  rw [segment_concat] at h ⊢
  exact ⟨h.1.frame fresh, Function.update_self _ _ _⟩

theorem Segment.push (fresh : a ∉ l) (h : Segment link next p l z) :
    Segment link (Function.update next a p) (link a) (a :: l) z := by
  refine ⟨rfl, ?_⟩
  rw [Function.update_self]
  exact h.frame fresh

theorem Segment.insert {c : α} {m : β} (front : Segment link next p (l ++ [c]) m)
    (back : Segment link next m r z) (once : c ∉ l) (behind : c ∉ r) (fresh : a ∉ l ++ [c])
    (absent : a ∉ r) :
    Segment link (Function.update (Function.update next a m) c (link a)) p (l ++ [c] ++ a :: r) z := by
  rw [segment_append]
  refine ⟨link a, (front.frame fresh).redirect once, ?_⟩
  apply (back.push absent).frame
  simp only [List.mem_cons, not_or]
  exact ⟨fun same => fresh (by simp [← same]), behind⟩

/-- The node behind `c` is left out: `c` leads to where it led. -/
theorem Segment.remove {c : α} {v : β} (h : Segment link next p (l ++ c :: a :: r) z)
    (nodup : (l ++ c :: a :: r).Nodup) :
    Segment link (Function.update (Function.update next a v) c (next a)) p (l ++ c :: r) z := by
  rw [List.append_cons] at h nodup ⊢
  obtain ⟨m, front, rfl, back⟩ := segment_append.mp h
  obtain ⟨before, behind, disjoint⟩ := List.nodup_append.mp nodup
  have once : c ∉ l := fun here => (List.nodup_append.mp before).2.2 c here c (by simp) rfl
  have later : c ∉ r := fun here => disjoint c (by simp) c (by simp [here]) rfl
  have fresh : a ∉ l ++ [c] := fun here => disjoint a here a (by simp) rfl
  rw [segment_append]
  exact ⟨next a, (front.frame fresh).redirect once,
    (back.frame (List.nodup_cons.mp behind).1).frame later⟩

end Update

/-- A circular list given by its last node: `next` leads from it to the first node. -/
def Ring (next : α → α) (last : α) (l : List α) : Prop :=
  l.getLast? = some last ∧ Segment id next (next last) l (next last)

section Ring

variable {next : α → α} {last n : α} {l : List α}

theorem Ring.eq_concat (h : Ring next last l) : ∃ front, l = front ++ [last] := by
  obtain ⟨nonempty, value⟩ := List.getLast?_eq_some_iff.mp h.1
  exact ⟨nonempty, value⟩

theorem Ring.last_mem (h : Ring next last l) : last ∈ l := List.mem_of_getLast? h.1

theorem Ring.head (h : Ring next last l) : l.head? = some (next last) := by
  cases l with
  | nil => exact absurd h.last_mem (by simp)
  | cons a l => simp [h.2.1]

/-- The links of a ring permute its nodes by one step. -/
theorem Ring.map_next (h : Ring next last l) : l.map next = l.rotate 1 := by
  have shifted := h.2.map_next
  cases l with
  | nil => rfl
  | cons a l =>
    have first : next last = a := h.2.1
    simp only [List.map_id, List.cons_append, List.cons.injEq] at shifted
    rw [shifted.2, first, List.rotate_cons_succ, List.rotate_zero]

theorem Ring.next_mem (h : Ring next last l) (member : n ∈ l) : next n ∈ l := by
  have image : next n ∈ l.map next := List.mem_map_of_mem member
  rwa [h.map_next, List.mem_rotate] at image

theorem Ring.next_injective (h : Ring next last l) (nodup : l.Nodup) {a b : α}
    (ha : a ∈ l) (hb : b ∈ l) (same : next a = next b) : a = b := by
  have image : (l.map next).Nodup := by rw [h.map_next]; exact List.nodup_rotate.mpr nodup
  exact List.inj_on_of_nodup_map image ha hb same

/-- The only node that leads to `n` is the one listed before it. -/
theorem Ring.pred_eq {front back : List α} {p m : α} (h : Ring next last (front ++ m :: n :: back))
    (nodup : (front ++ m :: n :: back).Nodup) (member : p ∈ front ++ m :: n :: back)
    (pred : next p = n) : p = m := by
  have split : front ++ m :: n :: back = (front ++ [m]) ++ n :: back := by simp
  have path := h.2
  rw [split, segment_append] at path
  obtain ⟨q, before, toNode, -⟩ := path
  have link : next m = n := by
    rw [segment_concat] at before
    exact before.2.trans toNode
  exact h.next_injective nodup member (by simp) (pred.trans link.symm)

theorem Ring.pred_head {p : α} (h : Ring next last (n :: l)) (nodup : (n :: l).Nodup)
    (member : p ∈ n :: l) (pred : next p = n) : p = last :=
  h.next_injective nodup member h.last_mem (pred.trans h.2.1.symm)

theorem Ring.singleton (h : Ring next last l) (nodup : l.Nodup) (self : next last = last) :
    l = [last] := by
  obtain ⟨front, rfl⟩ := h.eq_concat
  cases front with
  | nil => rfl
  | cons a front =>
    have first : next last = a := h.2.1
    rw [self] at first
    subst first
    simp at nodup

theorem Ring.self_link (h : Ring next last l) (nodup : l.Nodup) (member : n ∈ l)
    (self : next n = n) : l = [n] := by
  obtain ⟨front, back, rfl, -⟩ := List.eq_append_cons_of_mem member
  cases back with
  | nil =>
    have ending := h.1
    simp only [List.getLast?_append_cons, List.getLast?_singleton, Option.some.injEq] at ending
    subst ending
    exact h.singleton nodup self
  | cons b back =>
    have path := h.2
    rw [segment_append] at path
    obtain ⟨m, -, -, toNext, -⟩ := path
    have same : n = b := self.symm.trans toNext
    have apart := (List.nodup_append.mp nodup).2.1
    simp [same] at apart

theorem Ring.exists_pred (h : Ring next last l) (member : n ∈ l) : ∃ p ∈ l, next p = n := by
  have image : n ∈ l.map next := by rwa [h.map_next, List.mem_rotate]
  exact List.mem_map.mp image

theorem Ring.congr {next' : α → α} (same : ∀ a ∈ l, next' a = next a)
    (h : Ring next last l) : Ring next' last l := by
  refine ⟨h.1, ?_⟩
  rw [same last h.last_mem]
  exact h.2.congr same

/-- Naming the first node as the last one turns the ring by one position. -/
theorem Ring.rotate (h : Ring next last l) : Ring next (next last) (l.rotate 1) := by
  cases l with
  | nil => exact absurd h.last_mem (by simp)
  | cons a l =>
    obtain ⟨first, rest⟩ := h.2
    simp only [id_eq] at first
    rw [first] at rest ⊢
    rw [List.rotate_cons_succ, List.rotate_zero]
    exact ⟨by simp, segment_concat.mpr ⟨rest, rfl⟩⟩

section Update

variable [DecidableEq α]

theorem ring_single (next : α → α) (n : α) : Ring (Function.update next n n) n [n] := by
  simp [Ring]

theorem Ring.append (h : Ring next last l) (nodup : l.Nodup) (fresh : n ∉ l) :
    Ring (Function.update (Function.update next n (next last)) last n) n (l ++ [n]) := by
  have distinct : n ≠ last := by rintro rfl; exact fresh h.last_mem
  have link : Function.update (Function.update next n (next last)) last n n = next last := by
    rw [Function.update_of_ne distinct, Function.update_self]
  refine ⟨by simp, ?_⟩
  rw [link, segment_concat]
  refine ⟨?_, link⟩
  obtain ⟨front, rfl⟩ := h.eq_concat
  have absent : last ∉ front := fun member => by
    have := List.nodup_append.mp nodup
    exact this.2.2 last member last (by simp) rfl
  exact (h.2.frame (w := next last) fresh).redirect absent

theorem Ring.erase_head {back : List α} (h : Ring next last (n :: back))
    (nodup : (n :: back).Nodup) (longer : n ≠ last) :
    Ring (Function.update next last (next n)) last back := by
  obtain ⟨front, split⟩ := h.eq_concat
  cases front with
  | nil =>
    simp only [List.nil_append, List.cons.injEq] at split
    exact absurd split.1 longer
  | cons a front =>
    simp only [List.cons_append, List.cons.injEq] at split
    obtain ⟨rfl, rfl⟩ := split
    have absent : last ∉ front := by
      have nd := (List.nodup_cons.mp nodup).2
      intro member
      exact (List.nodup_append.mp nd).2.2 last member last (by simp) rfl
    refine ⟨by simp, ?_⟩
    rw [Function.update_self]
    exact h.2.2.redirect absent

theorem Ring.erase_last {front : List α} {p : α} (h : Ring next n (front ++ [p, n]))
    (nodup : (front ++ [p, n]).Nodup) :
    Ring (Function.update next p (next n)) p (front ++ [p]) := by
  have split : front ++ [p, n] = (front ++ [p]) ++ [n] := by simp
  have path := h.2
  rw [split, segment_concat] at path
  have absent : p ∉ front := by
    intro member
    exact (List.nodup_append.mp nodup).2.2 p member p (by simp) rfl
  refine ⟨by simp, ?_⟩
  rw [Function.update_self]
  exact path.1.redirect absent

theorem Ring.erase_middle {front back : List α} {p : α} (h : Ring next last (front ++ p :: n :: back))
    (nodup : (front ++ p :: n :: back).Nodup) (inner : last ∈ back) :
    Ring (Function.update next p (next n)) last (front ++ p :: back) := by
  obtain ⟨ndFront, ndBack, apart⟩ := List.nodup_append.mp nodup
  simp only [List.nodup_cons, List.mem_cons, not_or] at ndBack
  have absent : p ∉ front := fun member => apart p member p (by simp) rfl
  have other : last ≠ p := by rintro rfl; exact ndBack.1.2 inner
  have split : front ++ p :: n :: back = (front ++ [p]) ++ n :: back := by simp
  have path := h.2
  rw [split, segment_append] at path
  obtain ⟨m, before, -, after⟩ := path
  refine ⟨?_, ?_⟩
  · have ending := h.1
    rw [List.getLast?_append_cons, List.getLast?_cons_cons] at ending
    rw [List.getLast?_append_cons]
    cases back with
    | nil => exact absurd inner (by simp)
    | cons b back => simpa [List.getLast?_cons_cons] using ending
  · rw [Function.update_of_ne other]
    have joined : front ++ p :: back = (front ++ [p]) ++ back := by simp
    rw [joined, segment_append]
    exact ⟨next n, before.redirect absent, after.frame ndBack.1.2⟩

/-- A node leaves a longer ring by its predecessor taking over its link; the predecessor also
    becomes the last node if the removed one was. -/
theorem Ring.erase {p : α} (h : Ring next last l) (nodup : l.Nodup) (hn : n ∈ l) (hp : p ∈ l)
    (pred : next p = n) (distinct : p ≠ n) :
    Ring (Function.update next p (next n)) (if n = last then p else last) (l.erase n) := by
  obtain ⟨front, back, rfl, absent⟩ := List.eq_append_cons_of_mem hn
  rw [List.erase_append_right _ absent, List.erase_cons_head]
  rcases List.eq_nil_or_concat' front with rfl | ⟨front, m, rfl⟩
  · -- The first node: its predecessor is the last one.
    obtain rfl := h.pred_head nodup hp pred
    rw [if_neg distinct.symm]
    exact h.erase_head nodup distinct.symm
  · simp only [List.append_assoc, List.cons_append, List.nil_append] at h nodup hp ⊢
    obtain rfl := h.pred_eq nodup hp pred
    cases back with
    | nil =>
      have ending := h.1
      simp only [List.getLast?_append_cons, List.getLast?_cons_cons, List.getLast?_singleton,
        Option.some.injEq] at ending
      subst ending
      rw [if_pos rfl]
      exact h.erase_last nodup
    | cons b back =>
      have inner : last ∈ b :: back := by
        have ending := h.1
        simp only [List.getLast?_append_cons, List.getLast?_cons_cons] at ending
        exact List.mem_of_getLast? ending
      have tailNodup := (List.nodup_append.mp nodup).2.1
      simp only [List.nodup_cons] at tailNodup
      have other : n ≠ last := by rintro rfl; exact tailNodup.2.1 inner
      rw [if_neg other]
      exact h.erase_middle nodup inner

end Update

end Ring

end Linked
