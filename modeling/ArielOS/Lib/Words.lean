import Mathlib.Data.BitVec

/-! Words of 32 bits and their bytes. -/

namespace Words

abbrev Octet := BitVec 8

def fromLeBytes (b : Fin 4 → Octet) : BitVec 32 := b 3 ++ b 2 ++ b 1 ++ b 0

def toLeBytes (x : BitVec 32) (i : Fin 4) : Octet := x.extractLsb' (8 * i) 8

def fromBeBytes (b : Fin 4 → Octet) : BitVec 32 := b 0 ++ b 1 ++ b 2 ++ b 3

def toBeBytes (x : BitVec 32) (i : Fin 4) : Octet := x.extractLsb' (8 * (3 - i)) 8

theorem toNat_append_octet {w : Nat} (x : BitVec w) (y : Octet) :
    (x ++ y).toNat = x.toNat * 256 + y.toNat := by
  rw [BitVec.toNat_append, ← Nat.shiftLeft_add_eq_or_of_lt y.isLt, Nat.shiftLeft_eq]

theorem toNat_fromLeBytes (b : Fin 4 → Octet) : (fromLeBytes b).toNat =
    (((b 3).toNat * 256 + (b 2).toNat) * 256 + (b 1).toNat) * 256 + (b 0).toNat := by
  simp only [fromLeBytes, toNat_append_octet]

theorem toNat_fromBeBytes (b : Fin 4 → Octet) : (fromBeBytes b).toNat =
    (((b 0).toNat * 256 + (b 1).toNat) * 256 + (b 2).toNat) * 256 + (b 3).toNat := by
  simp only [fromBeBytes, toNat_append_octet]

theorem toNat_toLeBytes (x : BitVec 32) (i : Fin 4) :
    (toLeBytes x i).toNat = x.toNat / 2 ^ (8 * i.val) % 256 := by
  rw [toLeBytes, BitVec.extractLsb'_toNat, Nat.shiftRight_eq_div_pow]

theorem toNat_toBeBytes (x : BitVec 32) (i : Fin 4) :
    (toBeBytes x i).toNat = x.toNat / 2 ^ (8 * (3 - i.val)) % 256 := by
  rw [toBeBytes, BitVec.extractLsb'_toNat, Nat.shiftRight_eq_div_pow]

theorem fromLeBytes_xor (a b : Fin 4 → Octet) :
    fromLeBytes a ^^^ fromLeBytes b = fromLeBytes fun i => a i ^^^ b i := by
  have split : (a 3 ++ a 2 ++ a 1 ++ a 0) ^^^ (b 3 ++ b 2 ++ b 1 ++ b 0) =
      (a 3 ^^^ b 3) ++ (a 2 ^^^ b 2) ++ (a 1 ^^^ b 1) ++ (a 0 ^^^ b 0) := by
    rw [BitVec.xor_append, BitVec.xor_append, BitVec.xor_append]
  exact split

theorem toLeBytes_fromLeBytes (b : Fin 4 → Octet) : toLeBytes (fromLeBytes b) = b := by
  funext i
  apply BitVec.eq_of_toNat_eq
  rw [toNat_toLeBytes, toNat_fromLeBytes]
  have bounds := fun j => (b j).isLt
  have first := bounds 0
  have second := bounds 1
  have third := bounds 2
  have fourth := bounds 3
  match i with
  | 0 | 1 | 2 | 3 => simp; omega

theorem toBeBytes_inj {x y : BitVec 32} (same : toBeBytes x = toBeBytes y) : x = y := by
  apply BitVec.eq_of_toNat_eq
  have bytes := fun i => congrArg BitVec.toNat (congrFun same i)
  simp only [toNat_toBeBytes] at bytes
  have first := bytes 0
  have second := bytes 1
  have third := bytes 2
  have fourth := bytes 3
  have boundX := x.isLt
  have boundY := y.isLt
  simp at first second third fourth
  omega

end Words
