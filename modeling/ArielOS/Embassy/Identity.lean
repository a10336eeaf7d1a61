import Mathlib.Data.Fin.VecNotation
import Mathlib.Logic.Function.Basic
import ArielOS.Lib.Words

namespace ArielOS.Identity

open Words

/-- The octets of an EUI-48 identifier. -/
abbrev Eui48 := Fin 6 → Octet

/-- Four octets of the address. -/
def slice (eui48 : Eui48) (start : Nat) (inside : start ≤ 2) : Fin 4 → Octet :=
  fun i => eui48 ⟨start + i, by omega⟩

def copyFromSlice (eui48 : Eui48) (start : Nat) (bytes : Fin 4 → Octet) : Eui48 :=
  fun i => if within : start ≤ i ∧ i < start + 4 then bytes ⟨i - start, by omega⟩ else eui48 i

/-- `chunks(4)`. -/
def chunks : List Octet → List (List Octet)
  | [] => []
  | b0 :: b1 :: b2 :: b3 :: rest => [b0, b1, b2, b3] :: chunks rest
  | chunk => [chunk]

/-- A chunk that is filled up with zeros. -/
def full (chunk : List Octet) : Fin 4 → Octet := fun i => chunk.getD i 0

def xorChunks (xorMe : BitVec 32) (deviceIdBytes : List Octet) : BitVec 32 :=
  (chunks deviceIdBytes).foldl (fun xorMe chunk => xorMe ^^^ fromLeBytes (full chunk)) xorMe

def generateAaiMacAddress (truncatedBoardHash : Eui48) (deviceIdBytes : List Octet)
    (ifIndex : BitVec 32) : Eui48 :=
  let eui48 := truncatedBoardHash
  let xorMe := xorChunks (fromLeBytes (slice eui48 1 (by decide))) deviceIdBytes
  let eui48 := copyFromSlice eui48 1 (toLeBytes xorMe)
  let eui48 := Function.update eui48 0 (eui48 0 &&& 0xf0)
  let eui48 := Function.update eui48 0 (eui48 0 ||| 0x02)
  let withIfIndex := fromBeBytes (slice eui48 2 (by decide)) + ifIndex
  copyFromSlice eui48 2 (toBeBytes withIfIndex)

/-- The loop of the alternative algorithm, from the byte with this number on. -/
def xorBytes : Nat → List Octet → Eui48 → Eui48
  | _, [], eui48 => eui48
  | index, byte :: rest, eui48 =>
    let i : Fin 6 := ⟨1 + index % 4, by omega⟩
    xorBytes (index + 1) rest (Function.update eui48 i (eui48 i ^^^ byte))

/-- The address by the alternative algorithm, with the index added to the number that the last octets
    are. -/
def simpleMacAddress (truncatedBoardHash : Eui48) (deviceIdBytes : List Octet)
    (ifIndex : BitVec 32) : Eui48 :=
  let eui48 := xorBytes 0 deviceIdBytes truncatedBoardHash
  let last := (eui48 2).toNat * 2 ^ 24 + (eui48 3).toNat * 2 ^ 16 + (eui48 4).toNat * 2 ^ 8 +
    (eui48 5).toNat
  let withIfIndex := (last + ifIndex.toNat) % 2 ^ 32
  ![.ofNat 8 ((eui48 0).toNat / 16 * 16 + 2), eui48 1, .ofNat 8 (withIfIndex / 2 ^ 24),
    .ofNat 8 (withIfIndex / 2 ^ 16), .ofNat 8 (withIfIndex / 2 ^ 8), .ofNat 8 withIfIndex]

/-- The identifier folded into four bytes, from the byte with this number on. -/
def xorFold : Nat → List Octet → Fin 4 → Octet
  | _, [], _ => 0
  | index, byte :: rest, k => (if index % 4 = k then byte else 0) ^^^ xorFold (index + 1) rest k

variable {index : Nat} {k : Fin 4} {byte : Octet}

theorem xorFold_add_four (index : Nat) (bytes : List Octet) :
    xorFold (index + 4) bytes = xorFold index bytes := by
  induction bytes generalizing index with
  | nil => rfl
  | cons byte rest ih =>
    funext k
    have same : (index + 4) % 4 = index % 4 := Nat.add_mod_right index 4
    rw [xorFold, xorFold, same, Nat.add_right_comm, ih]

theorem xorFold_chunk (b0 b1 b2 b3 : Octet) (rest : List Octet) :
    xorFold 0 (b0 :: b1 :: b2 :: b3 :: rest) = fun k => full [b0, b1, b2, b3] k ^^^ xorFold 0 rest k := by
  funext k
  rw [← xorFold_add_four 0 rest]
  match k with
  | 0 | 1 | 2 | 3 => simp [xorFold, full]

theorem xorFold_full (chunk : List Octet) (short : chunk.length ≤ 3) :
    xorFold 0 chunk = full chunk := by
  funext k
  match chunk with
  | [] => simp [xorFold, full]
  | [b0] => match k with | 0 | 1 | 2 | 3 => simp [xorFold, full]
  | [b0, b1] => match k with | 0 | 1 | 2 | 3 => simp [xorFold, full]
  | [b0, b1, b2] => match k with | 0 | 1 | 2 | 3 => simp [xorFold, full]
  | _ :: _ :: _ :: _ :: _ =>
    simp only [List.length_cons] at short
    omega

/-- Both ways of folding. -/
theorem xorChunks_eq (octets : Fin 4 → Octet) (bytes : List Octet) :
    xorChunks (fromLeBytes octets) bytes = fromLeBytes fun k => octets k ^^^ xorFold 0 bytes k := by
  induction bytes using chunks.induct generalizing octets with
  | case1 => simp [xorChunks, chunks, xorFold]
  | case2 b0 b1 b2 b3 rest ih =>
    have step : xorChunks (fromLeBytes octets) (b0 :: b1 :: b2 :: b3 :: rest) =
        xorChunks (fromLeBytes octets ^^^ fromLeBytes (full [b0, b1, b2, b3])) rest := rfl
    rw [step, fromLeBytes_xor, ih, xorFold_chunk]
    congr 1
    funext k
    exact BitVec.xor_assoc ..
  | case3 chunk some few =>
    have short : chunk.length ≤ 3 := by
      match chunk, few with
      | [], _ | [_], _ | [_, _], _ | [_, _, _], _ => simp
      | b0 :: b1 :: b2 :: b3 :: rest, few => exact (few b0 b1 b2 b3 rest rfl).elim
    have single : chunks chunk = [chunk] := chunks.eq_3 chunk some few
    rw [xorChunks, single, List.foldl_cons, List.foldl_nil, fromLeBytes_xor, xorFold_full chunk short]

theorem xorBytes_eq (bytes : List Octet) (eui48 : Eui48) (i : Fin 6) :
    xorBytes index bytes eui48 i =
      if within : 1 ≤ i.val ∧ i.val < 5 then eui48 i ^^^ xorFold index bytes ⟨i - 1, by omega⟩
      else eui48 i := by
  induction bytes generalizing index eui48 with
  | nil => simp [xorBytes, xorFold]
  | cons byte rest ih =>
    rw [xorBytes, ih]
    by_cases here : i.val = 1 + index % 4
    · have same : (⟨1 + index % 4, by omega⟩ : Fin 6) = i := Fin.ext here.symm
      have within : 1 ≤ i.val ∧ i.val < 5 := by omega
      have folded : index % 4 = i.val - 1 := by omega
      rw [same, Function.update_self]
      simp [within, xorFold, folded, BitVec.xor_assoc]
    · have other : i ≠ ⟨1 + index % 4, by omega⟩ := fun same => here (congrArg Fin.val same)
      rw [Function.update_of_ne other]
      split
      · rename_i within
        have apart : index % 4 ≠ i.val - 1 := by omega
        simp [xorFold, apart]
      · rfl

/-- The first part of the code does what the loop of the alternative algorithm does. -/
theorem folded_eq (hash : Eui48) (bytes : List Octet) :
    copyFromSlice hash 1 (toLeBytes (xorChunks (fromLeBytes (slice hash 1 (by decide))) bytes)) =
      xorBytes 0 bytes hash := by
  funext i
  rw [xorChunks_eq, toLeBytes_fromLeBytes, xorBytes_eq, copyFromSlice]
  split
  · rename_i within
    have same : slice hash 1 (by decide) ⟨i - 1, by omega⟩ = hash i := by
      unfold slice
      congr 1
      apply Fin.ext
      dsimp only
      omega
    rw [same]
  · rfl

/-- The number that the last octets are, with the index added. -/
def withIfIndex (hash : Eui48) (bytes : List Octet) (ifIndex : BitVec 32) : BitVec 32 :=
  fromBeBytes (slice (xorBytes 0 bytes hash) 2 (by decide)) + ifIndex

theorem generate_eq (hash : Eui48) (bytes : List Octet) (ifIndex : BitVec 32) :
    generateAaiMacAddress hash bytes ifIndex =
      ![xorBytes 0 bytes hash 0 &&& 0xf0 ||| 0x02, xorBytes 0 bytes hash 1,
        toBeBytes (withIfIndex hash bytes ifIndex) 0, toBeBytes (withIfIndex hash bytes ifIndex) 1,
        toBeBytes (withIfIndex hash bytes ifIndex) 2, toBeBytes (withIfIndex hash bytes ifIndex) 3] := by
  unfold generateAaiMacAddress
  dsimp only
  rw [folded_eq]
  funext i
  match i with
  | 0 | 1 | 2 | 3 | 4 | 5 => rfl

theorem toNat_withIfIndex (hash : Eui48) (bytes : List Octet) (ifIndex : BitVec 32) :
    (withIfIndex hash bytes ifIndex).toNat =
      ((xorBytes 0 bytes hash 2).toNat * 2 ^ 24 + (xorBytes 0 bytes hash 3).toNat * 2 ^ 16 +
        (xorBytes 0 bytes hash 4).toNat * 2 ^ 8 + (xorBytes 0 bytes hash 5).toNat +
          ifIndex.toNat) % 2 ^ 32 := by
  rw [withIfIndex, BitVec.toNat_add, toNat_fromBeBytes]
  unfold slice
  simp
  omega

theorem low_nibble (octet : Octet) :
    octet &&& 0xf0 ||| 0x02 = BitVec.ofNat 8 (octet.toNat / 16 * 16 + 2) := by
  revert octet
  decide +kernel

theorem toBeBytes_eq (x : BitVec 32) : ![toBeBytes x 0, toBeBytes x 1, toBeBytes x 2, toBeBytes x 3] =
    ![.ofNat 8 (x.toNat / 2 ^ 24), .ofNat 8 (x.toNat / 2 ^ 16), .ofNat 8 (x.toNat / 2 ^ 8),
      .ofNat 8 x.toNat] := by
  have byte : ∀ i : Fin 4, toBeBytes x i = BitVec.ofNat 8 (x.toNat / 2 ^ (8 * (3 - i.val))) := by
    intro i
    apply BitVec.eq_of_toNat_eq
    rw [toNat_toBeBytes, BitVec.toNat_ofNat]
  rw [byte 0, byte 1, byte 2, byte 3]
  simp

/-- The code computes the address by the alternative algorithm. -/
theorem generate_eq_simple (truncatedBoardHash : Eui48) (deviceIdBytes : List Octet)
    (ifIndex : BitVec 32) :
    generateAaiMacAddress truncatedBoardHash deviceIdBytes ifIndex =
      simpleMacAddress truncatedBoardHash deviceIdBytes ifIndex := by
  rw [generate_eq, low_nibble, toBeBytes_eq, toNat_withIfIndex]
  rfl

/-- Indices that differ by less than 256 reach the same number only from the same octets. -/
theorem indexed_inj {a b : Fin 4 → Octet} {i j : BitVec 32} (last : a 3 = b 3)
    (near : i.toNat < j.toNat + 256 ∧ j.toNat < i.toNat + 256)
    (same : fromBeBytes a + i = fromBeBytes b + j) : i = j ∧ a = b := by
  have values := congrArg BitVec.toNat same
  rw [BitVec.toNat_add, BitVec.toNat_add, toNat_fromBeBytes, toNat_fromBeBytes, last] at values
  have octet := fun (x : Octet) => x.isLt
  have a0 := octet (a 0)
  have a1 := octet (a 1)
  have a2 := octet (a 2)
  have b0 := octet (b 0)
  have b1 := octet (b 1)
  have b2 := octet (b 2)
  have b3 := octet (b 3)
  have boundI := i.isLt
  have boundJ := j.isLt
  have index : i.toNat = j.toNat := by omega
  rw [index] at values
  refine ⟨BitVec.eq_of_toNat_eq index, ?_⟩
  funext k
  match k with
  | 0 | 1 | 2 => exact BitVec.eq_of_toNat_eq (by omega)
  | 3 => exact last

theorem generate_inj {hash : Eui48} {d1 d2 : List Octet} {i j : BitVec 32}
    (near : i.toNat < j.toNat + 256 ∧ j.toNat < i.toNat + 256)
    (same : generateAaiMacAddress hash d1 i = generateAaiMacAddress hash d2 j) :
    i = j ∧ xorFold 0 d1 = xorFold 0 d2 := by
  rw [generate_eq, generate_eq] at same
  have octets := fun k => congrFun same k
  have words : toBeBytes (withIfIndex hash d1 i) = toBeBytes (withIfIndex hash d2 j) := by
    funext k
    match k with
    | 0 => exact octets 2
    | 1 => exact octets 3
    | 2 => exact octets 4
    | 3 => exact octets 5
  have last : slice (xorBytes 0 d1 hash) 2 (by decide) 3 = slice (xorBytes 0 d2 hash) 2 (by decide) 3 :=
    (xorBytes_eq d1 hash 5).trans (xorBytes_eq d2 hash 5).symm
  obtain ⟨index, middle⟩ := indexed_inj last near (toBeBytes_inj words)
  refine ⟨index, ?_⟩
  have folds : ∀ (k : Fin 6) (within : 1 ≤ k.val ∧ k.val < 5),
      xorBytes 0 d1 hash k = xorBytes 0 d2 hash k →
        xorFold 0 d1 ⟨k - 1, by omega⟩ = xorFold 0 d2 ⟨k - 1, by omega⟩ := by
    intro k within equal
    rw [xorBytes_eq, xorBytes_eq, dif_pos within, dif_pos within] at equal
    exact BitVec.xor_right_inj (hash k) |>.mp equal
  funext k
  match k with
  | 0 => exact folds 1 (by decide) (octets 1)
  | 1 => exact folds 2 (by decide) (congrFun middle 0)
  | 2 => exact folds 3 (by decide) (congrFun middle 1)
  | 3 => exact folds 4 (by decide) (congrFun middle 2)

theorem generate_congr {hash : Eui48} {d1 d2 : List Octet} (ifIndex : BitVec 32)
    (folds : xorFold 0 d1 = xorFold 0 d2) :
    generateAaiMacAddress hash d1 ifIndex = generateAaiMacAddress hash d2 ifIndex := by
  have bytes : xorBytes 0 d1 hash = xorBytes 0 d2 hash := by
    funext k
    rw [xorBytes_eq, xorBytes_eq, folds]
  rw [generate_eq, generate_eq, withIfIndex, withIfIndex, bytes]

/-- Changing a byte changes what it is folded into. -/
theorem xorFold_set {index n : Nat} {bytes : List Octet} {byte : Octet} (bound : n < bytes.length)
    (other : byte ≠ bytes[n]) : xorFold index (bytes.set n byte) ≠ xorFold index bytes := by
  induction bytes generalizing index n with
  | nil => cases bound
  | cons first rest ih =>
    cases n with
    | zero =>
      intro same
      have here := congrFun same ⟨index % 4, Nat.mod_lt _ (by decide)⟩
      rw [List.set_cons_zero, xorFold, xorFold, if_pos rfl, if_pos rfl] at here
      exact other ((BitVec.xor_left_inj _).mp here)
    | succ n =>
      intro same
      have folds : xorFold (index + 1) (rest.set n byte) = xorFold (index + 1) rest := by
        funext k
        have here := congrFun same k
        rw [List.set_cons_succ, xorFold, xorFold] at here
        exact (BitVec.xor_right_inj _).mp here
      exact ih (Nat.lt_of_succ_lt_succ bound) other folds

/-- Two interfaces whose indices differ by less than 256 have the same address exactly if they are the
    same interface and their identifiers fold into the same bytes, which identifiers that differ in
    one byte do not. -/
theorem addresses_apart (hash : Eui48) (i j : BitVec 32)
    (near : i.toNat < j.toNat + 256 ∧ j.toNat < i.toNat + 256) :
    (∀ d1 d2, generateAaiMacAddress hash d1 i = generateAaiMacAddress hash d2 j ↔
      i = j ∧ xorFold 0 d1 = xorFold 0 d2) ∧
    ∀ (d : List Octet) (n : Nat) (bound : n < d.length) (byte : Octet), byte ≠ d[n] →
      generateAaiMacAddress hash (d.set n byte) i ≠ generateAaiMacAddress hash d j := by
  refine ⟨fun d1 d2 => ⟨generate_inj near, ?_⟩, ?_⟩
  · intro ⟨index, folds⟩
    rw [index]
    exact generate_congr j folds
  · intro d n bound byte other same
    exact xorFold_set bound other (generate_inj near same).2

theorem addresses_apart_sample :
    generateAaiMacAddress (fun _ => 0) [0xee, 0x13, 0xad] 0 ≠
      generateAaiMacAddress (fun _ => 0) [0xee, 0x13, 0xac] 255 :=
  (addresses_apart (fun _ => 0) 0 255 (by decide)).2 [0xee, 0x13, 0xac] 2 (by decide) 0xad (by decide)

end ArielOS.Identity
