import Mathlib.Logic.Function.Basic
import ArielOS.Lib.Words

/-! Memory by bytes. -/

namespace Bytes

open Words

abbrev Memory := Nat → Octet

def readWord (m : Memory) (a : Nat) : BitVec 32 := fromLeBytes fun i => m (a + i)

def writeWord (m : Memory) (a : Nat) (w : BitVec 32) : Memory := fun x =>
  if h : a ≤ x ∧ x < a + 4 then toLeBytes w ⟨x - a, by omega⟩ else m x

def writeWords (m : Memory) (a : Nat) : List (BitVec 32) → Memory
  | [] => m
  | w :: ws => writeWords (writeWord m a w) (a + 4) ws

/-- Writes a byte to each address from `a` up to `b`. -/
def fill (m : Memory) (a b : Nat) (value : Octet) : Memory := fun x =>
  if a ≤ x ∧ x < b then value else m x

variable {m : Memory} {a b x : Nat} {w : BitVec 32}

theorem readWord_congr {m' : Memory} (same : ∀ i < 4, m' (a + i) = m (a + i)) :
    readWord m' a = readWord m a := by
  unfold readWord
  congr 1
  funext i
  exact same i i.isLt

theorem writeWord_of_outside (outside : x < a ∨ a + 4 ≤ x) : writeWord m a w x = m x := by
  unfold writeWord
  rw [dif_neg]
  omega

theorem readWord_writeWord_self : readWord (writeWord m a w) a = w := by
  have bytes : (fun i : Fin 4 => writeWord m a w (a + i)) = toLeBytes w := by
    funext i
    unfold writeWord
    rw [dif_pos (by omega)]
    congr 1
    apply Fin.ext
    simp
  rw [readWord, bytes]
  apply BitVec.eq_of_toNat_eq
  rw [toNat_fromLeBytes]
  simp only [toNat_toLeBytes]
  have bound := w.isLt
  simp
  omega

theorem readWord_writeWord_apart (apart : b + 4 ≤ a ∨ a + 4 ≤ b) :
    readWord (writeWord m a w) b = readWord m b := by
  apply readWord_congr
  intro i bound
  apply writeWord_of_outside
  omega

theorem writeWords_of_outside {ws : List (BitVec 32)} (outside : x < a ∨ a + 4 * ws.length ≤ x) :
    writeWords m a ws x = m x := by
  induction ws generalizing m a with
  | nil => rfl
  | cons w ws ih =>
    rw [List.length_cons] at outside
    rw [writeWords, ih (by omega), writeWord_of_outside (by omega)]

theorem readWord_writeWords {ws : List (BitVec 32)} {i : Nat} (bound : i < ws.length) :
    readWord (writeWords m a ws) (a + 4 * i) = ws[i] := by
  induction ws generalizing m a i with
  | nil => simp at bound
  | cons w ws ih =>
    cases i with
    | zero =>
      have first : readWord (writeWords (writeWord m a w) (a + 4) ws) a =
          readWord (writeWord m a w) a :=
        readWord_congr fun j inside => writeWords_of_outside (by omega)
      exact first.trans readWord_writeWord_self
    | succ i =>
      have next := ih (m := writeWord m a w) (a := a + 4) (i := i) (by simpa using bound)
      rw [show a + 4 + 4 * i = a + 4 * (i + 1) by omega] at next
      exact next

theorem fill_inside {value : Octet} (low : a ≤ x) (high : x < b) : fill m a b value x = value :=
  if_pos ⟨low, high⟩

theorem fill_of_outside {value : Octet} (outside : x < a ∨ b ≤ x) : fill m a b value x = m x :=
  if_neg (by omega)

end Bytes
