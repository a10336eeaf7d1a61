import Mathlib.Data.BitVec
import Mathlib.Logic.Function.Basic

namespace WordMemory

/-- Registers, addresses and the words at aligned addresses. -/
abbrev Word := BitVec 32

variable {κ : Type} [DecidableEq κ]

def Aligned (a : Word) : Prop := a.toNat % 4 = 0

instance (a : Word) : Decidable (Aligned a) := inferInstanceAs (Decidable (_ = _))

/-- The address of the word with this index in a block. -/
def offset (a : Word) (i : Nat) : Word := a + BitVec.ofNat 32 (4 * i)

def storeWords (memory : Word → Word) (a : Word) : List Word → Word → Word
  | [] => memory
  | w :: ws => storeWords (Function.update memory a w) (offset a 1) ws

/-- Loads consecutive words into registers. -/
def loadWords (memory : Word → Word) (file : κ → Word) (a : Word) : List κ → κ → Word
  | [] => file
  | r :: rs => loadWords memory (Function.update file r (memory a)) (offset a 1) rs

@[simp] theorem offset_zero (a : Word) : offset a 0 = a := by
  simp [offset]

@[simp] theorem offset_offset (a : Word) (i j : Nat) : offset (offset a i) j = offset a (i + j) := by
  rw [offset, offset, offset, BitVec.add_assoc, ← BitVec.ofNat_add, ← Nat.mul_add]

theorem Aligned.offset {a : Word} (aligned : Aligned a) (i : Nat) : Aligned (offset a i) := by
  unfold Aligned WordMemory.offset at *
  rw [BitVec.toNat_add, BitVec.toNat_ofNat]
  omega

theorem offset_inj {a : Word} {i j : Nat} (hi : i < 2 ^ 30) (hj : j < 2 ^ 30)
    (same : offset a i = offset a j) : i = j := by
  have values := congrArg BitVec.toNat ((BitVec.add_right_inj a).mp same)
  simp only [BitVec.toNat_ofNat] at values
  omega

theorem storeWords_of_ne {memory : Word → Word} {a b : Word} {ws : List Word}
    (apart : ∀ i < ws.length, b ≠ offset a i) : storeWords memory a ws b = memory b := by
  induction ws generalizing memory a with
  | nil => rfl
  | cons w ws ih =>
    have first : b ≠ a := by simpa using apart 0 (by simp)
    rw [storeWords, ih, Function.update_of_ne first]
    intro i bound
    rw [offset_offset, Nat.add_comm]
    exact apart (i + 1) (by simpa using bound)

theorem storeWords_offset {memory : Word → Word} {a : Word} {ws : List Word} {i : Nat}
    (small : ws.length < 2 ^ 30) (bound : i < ws.length) :
    storeWords memory a ws (offset a i) = ws[i] := by
  induction ws generalizing memory a i with
  | nil => simp at bound
  | cons w ws ih =>
    rw [List.length_cons] at small bound
    cases i with
    | zero =>
      rw [storeWords, storeWords_of_ne]
      · simp
      · intro j inside same
        rw [offset_offset] at same
        have := offset_inj (by omega) (by omega) same
        omega
    | succ i =>
      have inside : i < ws.length := by omega
      have next : storeWords (Function.update memory a w) (offset a 1) ws (offset (offset a 1) i) =
        ws[i] := ih (by omega) inside
      rw [offset_offset, Nat.add_comm] at next
      exact next

/-- Disjoint blocks can be stored in any order. -/
theorem storeWords_comm {memory : Word → Word} {a b : Word} {vs ws : List Word}
    (apart : ∀ i < vs.length, ∀ j < ws.length, offset a i ≠ offset b j) :
    storeWords (storeWords memory a vs) b ws = storeWords (storeWords memory b ws) a vs := by
  induction vs generalizing memory a with
  | nil => rfl
  | cons v vs ih =>
    have first : ∀ j < ws.length, a ≠ offset b j := by
      intro j bound
      simpa using apart 0 (by simp) j bound
    have single : Function.update (storeWords memory b ws) a v =
        storeWords (Function.update memory a v) b ws := by
      clear ih apart
      induction ws generalizing memory b with
      | nil => rfl
      | cons w ws ih =>
        have head : a ≠ b := by simpa using first 0 (by simp)
        rw [storeWords, storeWords, ih, Function.update_comm head.symm]
        intro j bound
        rw [offset_offset, Nat.add_comm]
        exact first (j + 1) (by simpa using bound)
    rw [storeWords, storeWords, single]
    apply ih
    intro i inside j bound
    rw [offset_offset, Nat.add_comm]
    exact apart (i + 1) (by simpa using inside) j bound

theorem storeWords_append {memory : Word → Word} {a : Word} (vs ws : List Word) :
    storeWords memory a (vs ++ ws) = storeWords (storeWords memory a vs) (offset a vs.length) ws := by
  induction vs generalizing memory a with
  | nil => simp [storeWords]
  | cons v vs ih =>
    rw [List.cons_append, storeWords, storeWords, ih, offset_offset, List.length_cons, Nat.add_comm]

theorem loadWords_of_notMem {memory : Word → Word} {file : κ → Word} {a : Word} {rs : List κ}
    {r : κ} (absent : r ∉ rs) : loadWords memory file a rs r = file r := by
  induction rs generalizing file a with
  | nil => rfl
  | cons q rs ih =>
    rw [List.mem_cons, not_or] at absent
    rw [loadWords, ih absent.2, Function.update_of_ne absent.1]

theorem loadWords_getElem {memory : Word → Word} {file : κ → Word} {a : Word} {rs : List κ} {i : Nat}
    (nodup : rs.Nodup) (bound : i < rs.length) :
    loadWords memory file a rs rs[i] = memory (offset a i) := by
  induction rs generalizing file a i with
  | nil => simp at bound
  | cons q rs ih =>
    rw [List.nodup_cons] at nodup
    cases i with
    | zero =>
      rw [List.getElem_cons_zero, loadWords, loadWords_of_notMem nodup.1]
      simp
    | succ i =>
      rw [List.getElem_cons_succ, loadWords, ih nodup.2 (by simpa using bound), offset_offset,
        Nat.add_comm]

/-- Stores words at the places with these indices in a block. -/
def storeAt (memory : Word → Word) (a : Word) : List (Word × Nat) → Word → Word
  | [] => memory
  | (w, i) :: places => storeAt (Function.update memory (offset a i) w) a places

/-- Loads registers from the places with these indices in a block. -/
def loadAt (memory : Word → Word) (file : κ → Word) (a : Word) : List (κ × Nat) → κ → Word
  | [] => file
  | (r, i) :: places => loadAt memory (Function.update file r (memory (offset a i))) a places

variable {memory : Word → Word} {file : κ → Word} {a b w : Word} {i : Nat} {r : κ}

theorem storeAt_of_ne {places : List (Word × Nat)} (apart : ∀ p ∈ places, b ≠ offset a p.2) :
    storeAt memory a places b = memory b := by
  induction places generalizing memory with
  | nil => rfl
  | cons p places ih =>
    rw [storeAt, ih fun q member => apart q (List.mem_cons_of_mem _ member),
      Function.update_of_ne (apart p List.mem_cons_self)]

theorem storeAt_mem {places : List (Word × Nat)} (nodup : (places.map Prod.snd).Nodup)
    (small : ∀ p ∈ places, p.2 < 2 ^ 30) (member : (w, i) ∈ places) :
    storeAt memory a places (offset a i) = w := by
  induction places generalizing memory with
  | nil => cases member
  | cons p places ih =>
    rw [List.map_cons, List.nodup_cons] at nodup
    have below : ∀ q ∈ places, q.2 < 2 ^ 30 := fun q q_mem => small q (List.mem_cons_of_mem _ q_mem)
    rcases List.mem_cons.mp member with rfl | later
    · rw [storeAt, storeAt_of_ne, Function.update_self]
      intro q q_mem same
      have equal := offset_inj (small _ List.mem_cons_self) (below q q_mem) same
      exact nodup.1 (equal ▸ List.mem_map_of_mem q_mem)
    · exact ih nodup.2 below later

theorem storeAt_append (left right : List (Word × Nat)) :
    storeAt memory a (left ++ right) = storeAt (storeAt memory a left) a right := by
  induction left generalizing memory with
  | nil => rfl
  | cons p left ih => exact ih

theorem loadAt_of_notMem {places : List (κ × Nat)} (absent : r ∉ places.map Prod.fst) :
    loadAt memory file a places r = file r := by
  induction places generalizing file with
  | nil => rfl
  | cons p places ih =>
    rw [List.map_cons, List.mem_cons, not_or] at absent
    rw [loadAt, ih absent.2, Function.update_of_ne absent.1]

theorem loadAt_mem {places : List (κ × Nat)} (nodup : (places.map Prod.fst).Nodup)
    (member : (r, i) ∈ places) : loadAt memory file a places r = memory (offset a i) := by
  induction places generalizing file with
  | nil => cases member
  | cons p places ih =>
    rw [List.map_cons, List.nodup_cons] at nodup
    rcases List.mem_cons.mp member with rfl | later
    · rw [loadAt, loadAt_of_notMem nodup.1, Function.update_self]
    · exact ih nodup.2 later

/-- Disjoint blocks of words, none of which is at the null address. -/
structure Blocks (count words : Nat) where
  start : Nat → Word
  aligned : ∀ t, Aligned (start t)
  nonNull : ∀ {t}, t < count → ∀ {i}, i < words → offset (start t) i ≠ 0
  apart : ∀ {t u}, t < count → u < count → t ≠ u → ∀ {i j}, i < words → j < words →
    offset (start t) i ≠ offset (start u) j

/-- The elements of an array hold such blocks, with the size of an element in words. -/
def Blocks.array {count words : Nat} (start : Word) (stride : Nat) (aligned : Aligned start)
    (nonNull : start ≠ 0) (large : words ≤ stride)
    (fits : start.toNat + 4 * (count * stride) < 2 ^ 32) : Blocks count words where
  start := fun t => offset start (t * stride)
  aligned := fun t => aligned.offset _
  nonNull := by
    intro t bound i inside null
    have below : t * stride + stride ≤ count * stride := by
      rw [← Nat.succ_mul]
      exact Nat.mul_le_mul_right stride bound
    rw [offset_offset] at null
    have positive : 0 < start.toNat :=
      Nat.pos_of_ne_zero fun zero => nonNull (BitVec.eq_of_toNat_eq zero)
    have value := congrArg BitVec.toNat null
    simp only [offset, BitVec.ofNat_eq_ofNat, BitVec.toNat_add, BitVec.toNat_ofNat] at value
    omega
  apart := by
    intro t u ht hu other i j hi hj same
    have belowT : t * stride + stride ≤ count * stride := by
      rw [← Nat.succ_mul]
      exact Nat.mul_le_mul_right stride ht
    have belowU : u * stride + stride ≤ count * stride := by
      rw [← Nat.succ_mul]
      exact Nat.mul_le_mul_right stride hu
    rw [offset_offset, offset_offset] at same
    have equal : t * stride + i = u * stride + j := offset_inj (by omega) (by omega) same
    have quotients := congrArg (· / stride) equal
    simp only [Nat.mul_comm _ stride, Nat.mul_add_div (show 0 < stride by omega),
      Nat.div_eq_of_lt (show i < stride by omega),
      Nat.div_eq_of_lt (show j < stride by omega)] at quotients
    exact other quotients

end WordMemory
