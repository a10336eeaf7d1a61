import Mathlib.Data.List.Perm.Subperm
import Mathlib.Data.List.ProdSigma
import Mathlib.Data.BitVec
import ArielOS.Coapcore.OrderedPool

namespace ArielOS.Coapcore

abbrev Bytes := List UInt8

/-- An identifier of one byte that is a CBOR integer. -/
structure COwn where
  value : UInt8
  valid : value ≤ 0x17 ∨ (0x20 ≤ value ∧ value ≤ 0x37)
  deriving DecidableEq

namespace COwn

def generatableValues : Nat := 48

/-- `u32::trailing_ones`. -/
def trailingOnes (bits : BitVec 32) : Nat :=
  ((List.range 32).find? fun n => !bits.getLsbD n).getD 32

/-- Marks an identifier in the masks of the non-negative and the negative identifiers seen. -/
def see (seen : BitVec 32 × BitVec 32) (i : COwn) : BitVec 32 × BitVec 32 :=
  let bit := 1#32 <<< (i.value &&& 0x1f).toNat
  if i.value >>> 5 = 0 then (seen.1 ||| bit, seen.2) else (seen.1, seen.2 ||| bit)

theorem pos_valid : ∀ n < 24, UInt8.ofNat n ≤ 0x17 := by decide

theorem neg_valid : ∀ n < 24, 0x20 ≤ 0x20 ||| UInt8.ofNat n ∧ 0x20 ||| UInt8.ofNat n ≤ 0x37 := by
  decide

/-- An identifier that is not among the items of the iterator, given the upper bound of its size
    hint. -/
def notInIter (upper : Option Nat) (iterator : List COwn) : Except Panic COwn :=
  if ¬ upper.any (· < generatableValues) then
    .error .assertionFailed
  else
    let seen := iterator.foldl see (0, 0)
    let posTo := trailingOnes seen.1
    let negTo := trailingOnes seen.2
    if h : posTo < 24 then
      .ok ⟨UInt8.ofNat posTo, Or.inl (pos_valid posTo h)⟩
    else if h : negTo < 24 then
      .ok ⟨0x20 ||| UInt8.ofNat negTo, Or.inr (neg_valid negTo h)⟩
    else
      .error .unreachableCode

def fromKid : Bytes → Option COwn
  | [first] => if h : first ≤ 0x17 ∨ (0x20 ≤ first ∧ first ≤ 0x37) then some ⟨first, h⟩ else none
  | _ => none

def asSlice (id : COwn) : Bytes := [id.value]

@[simp] theorem fromKid_asSlice (id : COwn) : fromKid id.asSlice = some id := by
  simp [fromKid, asSlice, id.valid]

theorem trailingOnes_free {bits : BitVec 32} (small : trailingOnes bits < 24) :
    bits.getLsbD (trailingOnes bits) = false := by
  unfold trailingOnes at small ⊢
  cases first : (List.range 32).find? fun n => !bits.getLsbD n with
  | none => simp [first] at small
  | some n => simpa using List.find?_some first

theorem trailingOnes_set {bits : BitVec 32} {n : Nat} (below : n < trailingOnes bits) :
    bits.getLsbD n = true := by
  unfold trailingOnes at below
  cases first : (List.range 32).find? fun n => !bits.getLsbD n with
  | none =>
    simp only [first, Option.getD_none] at below
    simpa using List.find?_range_eq_none.mp first n below
  | some m =>
    simp only [first, Option.getD_some] at below
    simpa using (List.find?_range_eq_some.mp first).2.2 n below

/-- Whether the identifier is non-negative, and its bit in the mask of those. -/
def parts (id : COwn) : Bool × Nat := (id.value >>> 5 = 0, (id.value &&& 0x1f).toNat)

def Marked (seen : BitVec 32 × BitVec 32) (part : Bool × Nat) : Prop :=
  (if part.1 then seen.1 else seen.2).getLsbD part.2 = true

theorem bit_iff {k n : Nat} (small : k < 32) : (1#32 <<< k).getLsbD n = true ↔ k = n := by
  simp only [BitVec.getLsbD_shiftLeft, BitVec.getLsbD_one, Bool.and_eq_true, Bool.not_eq_true',
    decide_eq_true_eq, decide_eq_false_iff_not]
  omega

theorem minor_lt (value : UInt8) : (value &&& 0x1f).toNat < 32 := by
  rw [UInt8.toNat_and]
  exact Nat.lt_of_le_of_lt Nat.and_le_right (by decide)

theorem marked_see {seen : BitVec 32 × BitVec 32} {i : COwn} {part : Bool × Nat} :
    Marked (see seen i) part ↔ Marked seen part ∨ i.parts = part := by
  obtain ⟨positive, n⟩ := part
  have bit := bit_iff (n := n) (minor_lt i.value)
  unfold see Marked parts
  by_cases major : i.value >>> 5 = 0
  · cases positive <;> simp only [major, bit, ↓reduceIte, BitVec.getLsbD_or, Bool.or_eq_true, decide_true,
      Prod.mk.injEq, Bool.true_eq_false, Bool.false_eq_true, false_and, or_false, true_and]
  · cases positive <;> simp only [major, bit, ↓reduceIte, BitVec.getLsbD_or, Bool.or_eq_true, decide_false,
      Prod.mk.injEq, Bool.false_eq_true, false_and, or_false, true_and]

/-- What is marked are the identifiers that were seen. -/
theorem marked_foldl {iterator : List COwn} {seen : BitVec 32 × BitVec 32} {part : Bool × Nat} :
    Marked (iterator.foldl see seen) part ↔ Marked seen part ∨ part ∈ iterator.map parts := by
  induction iterator generalizing seen with
  | nil => simp
  | cons i rest ih =>
    rw [List.foldl_cons, ih, marked_see, List.map_cons, List.mem_cons, or_assoc, eq_comm]

theorem marked_iff {iterator : List COwn} {part : Bool × Nat} :
    Marked (iterator.foldl see (0, 0)) part ↔ part ∈ iterator.map parts := by
  rw [marked_foldl]
  exact or_iff_right (by simp [Marked])

theorem pos_parts : ∀ n < 24, decide (UInt8.ofNat n >>> 5 = 0) = true ∧
    (UInt8.ofNat n &&& 0x1f).toNat = n := by
  decide

theorem neg_parts : ∀ n < 24, decide ((0x20 ||| UInt8.ofNat n) >>> 5 = 0) = false ∧
    ((0x20 ||| UInt8.ofNat n) &&& 0x1f).toNat = n := by
  decide

/-- The identifier that is found is free. -/
theorem notInIter_free {upper : Option Nat} {iterator : List COwn} {id : COwn}
    (found : notInIter upper iterator = .ok id) : id ∉ iterator := by
  intro member
  have marked : Marked (iterator.foldl see (0, 0)) id.parts :=
    marked_iff.mpr (List.mem_map_of_mem member)
  unfold notInIter at found
  split at found
  · cases found
  · dsimp only at found
    split at found
    · rename_i small
      cases found
      obtain ⟨major, minor⟩ := pos_parts _ small
      rw [parts, major, minor] at marked
      exact Bool.false_ne_true ((trailingOnes_free small).symm.trans marked)
    · split at found
      · rename_i small
        cases found
        obtain ⟨major, minor⟩ := neg_parts _ small
        rw [parts, major, minor] at marked
        exact Bool.false_ne_true ((trailingOnes_free small).symm.trans marked)
      · cases found

/-- The parts of all identifiers. -/
def allParts : List (Bool × Nat) := [true, false] ×ˢ List.range 24

/-- Fewer identifiers than there are cannot fill both masks. -/
theorem notInIter_total {upper : Nat} {iterator : List COwn} (hint : iterator.length ≤ upper)
    (small : upper < generatableValues) : ∃ id, notInIter (some upper) iterator = .ok id := by
  unfold notInIter
  rw [if_neg (by simp [small])]
  dsimp only
  split
  · exact ⟨_, rfl⟩
  · rename_i posFull
    split
    · exact ⟨_, rfl⟩
    · rename_i negFull
      -- All identifiers were seen, so that there are 48 different items.
      have all : allParts ⊆ iterator.map parts := by
        rintro ⟨positive, n⟩ member
        have bound : n < 24 := List.mem_range.mp (List.mem_product.mp member).2
        refine marked_iff.mp ?_
        cases positive with
        | true =>
          change (iterator.foldl see (0, 0)).1.getLsbD n = true
          exact trailingOnes_set (by omega)
        | false =>
          change (iterator.foldl see (0, 0)).2.getLsbD n = true
          exact trailingOnes_set (by omega)
      have distinct : allParts.Nodup := by decide
      have count := (distinct.subperm all).length_le
      have many : allParts.length = generatableValues := rfl
      rw [List.length_map, many] at count
      omega

/-- Where the size hint is below the number of identifiers, a valid one is found that is not among the
    items, and that is the identifier of its slice. -/
theorem free_identifier_found {upper : Nat} {iterator : List COwn} (hint : iterator.length ≤ upper)
    (small : upper < generatableValues) :
    ∃ id, notInIter (some upper) iterator = .ok id ∧ id ∉ iterator ∧
      (id.value ≤ 0x17 ∨ (0x20 ≤ id.value ∧ id.value ≤ 0x37)) ∧ fromKid id.asSlice = some id := by
  obtain ⟨id, found⟩ := notInIter_total hint small
  exact ⟨id, found, notInIter_free found, id.valid, fromKid_asSlice id⟩

/-- All identifiers but the last one. -/
def allButLast : List COwn := (List.range 0x37).filterMap fun n => fromKid [UInt8.ofNat n]

theorem free_identifier_found_sample :
    ∃ id, notInIter (some 47) allButLast = .ok id ∧ id ∉ allButLast ∧ id.value = 0x37 := by
  have last : notInIter (some 47) allButLast = .ok ⟨0x37, by decide⟩ := by decide +kernel
  have hint : allButLast.length ≤ 47 := by decide
  obtain ⟨id, found, free, -⟩ := free_identifier_found hint (by decide)
  refine ⟨id, found, free, ?_⟩
  rw [last] at found
  cases found
  rfl

end COwn

end ArielOS.Coapcore
