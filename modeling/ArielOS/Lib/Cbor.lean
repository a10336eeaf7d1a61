import Mathlib.Algebra.Group.Nat.Defs
import Mathlib.Tactic.Common

/-- Decodes a value from the front of the input. -/
abbrev Reader (α : Type) := List UInt8 → Option (α × List UInt8)

namespace Reader

variable {α β : Type} {r : Reader α} {f : α → Reader β} {input rest : List UInt8} {a : α}

def bind (r : Reader α) (f : α → Reader β) : Reader β := fun input =>
  match r input with
  | some (a, rest) => f a rest
  | none => none

def pure (a : α) : Reader α := fun input => some (a, input)

def fail : Reader α := fun _ => none

/-- What is read is what stands in front, whatever follows. -/
def Local (r : Reader α) : Prop :=
  ∀ ⦃input a rest⦄, r input = some (a, rest) →
    ∃ front, input = front ++ rest ∧ ∀ rest', r (front ++ rest') = some (a, rest')

def Advances (r : Reader α) : Prop :=
  ∀ ⦃input a rest⦄, r input = some (a, rest) → rest.length < input.length

theorem bind_some {b : β} (done : r.bind f input = some (b, rest)) :
    ∃ a middle, r input = some (a, middle) ∧ f a middle = some (b, rest) := by
  unfold bind at done
  split at done
  · rename_i a middle first
    exact ⟨a, middle, first, done⟩
  · cases done

theorem bind_of_some {middle : List UInt8} (first : r input = some (a, middle)) :
    r.bind f input = f a middle := by
  rw [bind, first]

theorem Local.append (here : r.Local) (done : r input = some (a, rest)) (tail : List UInt8) :
    r (input ++ tail) = some (a, rest ++ tail) := by
  obtain ⟨front, rfl, always⟩ := here done
  rw [List.append_assoc]
  exact always _

theorem Local.length_le (here : r.Local) (done : r input = some (a, rest)) :
    rest.length ≤ input.length := by
  obtain ⟨front, rfl, -⟩ := here done
  simp

theorem local_pure (a : α) : (pure a).Local := by
  intro input b rest done
  cases done
  exact ⟨[], rfl, fun _ => rfl⟩

theorem local_fail : (fail : Reader α).Local := by
  intro input b rest done
  cases done

theorem Local.bind (first : r.Local) (second : ∀ a, (f a).Local) : (r.bind f).Local := by
  intro input b rest done
  obtain ⟨a, middle, read, behind⟩ := bind_some done
  obtain ⟨front, rfl, always⟩ := first read
  obtain ⟨front', rfl, always'⟩ := second a behind
  refine ⟨front ++ front', (List.append_assoc ..).symm, fun rest' => ?_⟩
  rw [List.append_assoc, bind_of_some (always _)]
  exact always' rest'

theorem Advances.bind (first : r.Advances) (second : ∀ a, (f a).Local) : (r.bind f).Advances := by
  intro input b rest done
  obtain ⟨a, middle, read, behind⟩ := bind_some done
  exact Nat.lt_of_le_of_lt ((second a).length_le behind) (first read)

end Reader

/-! Heads, byte strings and arrays of the Concise Binary Object Representation, each with the
    shortest head. -/

namespace Cbor

open Reader

variable {n major width : Nat} {bytes input rest : List UInt8}

def bigEndian : Nat → Nat → List UInt8
  | 0, _ => []
  | width + 1, n => bigEndian width (n / 256) ++ [UInt8.ofNat n]

def value (bytes : List UInt8) : Nat := bytes.foldl (fun n byte => n * 256 + byte.toNat) 0

def head (major n : Nat) : List UInt8 :=
  if n < 24 then [UInt8.ofNat (32 * major + n)]
  else if n < 256 ^ 1 then UInt8.ofNat (32 * major + 24) :: bigEndian 1 n
  else if n < 256 ^ 2 then UInt8.ofNat (32 * major + 25) :: bigEndian 2 n
  else if n < 256 ^ 4 then UInt8.ofNat (32 * major + 26) :: bigEndian 4 n
  else UInt8.ofNat (32 * major + 27) :: bigEndian 8 n

def uint (n : Nat) : List UInt8 := head 0 n

def byteString (bytes : List UInt8) : List UInt8 := head 2 bytes.length ++ bytes

def text (bytes : List UInt8) : List UInt8 := head 3 bytes.length ++ bytes

def array (items : List (List UInt8)) : List UInt8 := head 4 items.length ++ items.flatten

/-- The bytes of an argument behind a head. -/
def argumentWidth : Nat → Option Nat
  | 24 => some 1
  | 25 => some 2
  | 26 => some 4
  | 27 => some 8
  | _ => none

def readBytes (n : Nat) : Reader (List UInt8) := fun input =>
  if n ≤ input.length then some (input.take n, input.drop n) else none

def readByte : Reader UInt8
  | [] => none
  | byte :: rest => some (byte, rest)

/-- The argument of a data item of this major type. -/
def readHead (major : Nat) : Reader Nat :=
  readByte.bind fun byte =>
    if byte.toNat / 32 ≠ major then fail
    else if byte.toNat % 32 < 24 then pure (byte.toNat % 32)
    else
      match argumentWidth (byte.toNat % 32) with
      | some width => (readBytes width).bind fun bytes => pure (value bytes)
      | none => fail

/-- The length of an array, unless it is indefinite. -/
def readArray : Reader (Option Nat) := fun input =>
  if input.head? = some 0x9f then some (none, input.tail)
  else ((readHead 4).bind fun n => pure (some n)) input

def readText : Reader (List UInt8) := (readHead 3).bind readBytes

@[simp] theorem length_bigEndian : (bigEndian width n).length = width := by
  induction width generalizing n with
  | zero => rfl
  | succ width ih => rw [bigEndian, List.length_append, ih, List.length_singleton]

theorem value_bigEndian (fits : n < 256 ^ width) : value (bigEndian width n) = n := by
  induction width generalizing n with
  | zero =>
    have zero : n = 0 := by simpa using fits
    rw [zero]
    rfl
  | succ width ih =>
    have fits' : n / 256 < 256 ^ width := by
      rw [Nat.pow_succ] at fits
      omega
    have before := ih fits'
    unfold value at before ⊢
    rw [bigEndian, List.foldl_append, before]
    simp only [List.foldl_cons, List.foldl_nil, UInt8.toNat_ofNat']
    omega

theorem length_head_small (small : n < 24) : (head major n).length = 1 := by
  rw [head, if_pos small]
  rfl

theorem length_head_byte (large : 24 ≤ n) (small : n < 256 ^ 1) : (head major n).length = 2 := by
  rw [head, if_neg (Nat.not_lt.mpr large), if_pos small, List.length_cons, length_bigEndian]

theorem length_byteString_small (small : bytes.length < 24) :
    (byteString bytes).length = 1 + bytes.length := by
  rw [byteString, List.length_append, length_head_small small]

theorem length_byteString_byte (large : 24 ≤ bytes.length)
    (small : bytes.length < 256 ^ 1) : (byteString bytes).length = 2 + bytes.length := by
  rw [byteString, List.length_append, length_head_byte large small]

theorem local_readBytes : (readBytes n).Local := by
  intro input bytes rest done
  unfold readBytes at done
  split at done
  · rename_i fits
    cases done
    refine ⟨input.take n, (List.take_append_drop n input).symm, fun rest' => ?_⟩
    have length : (input.take n).length = n := List.length_take_of_le fits
    rw [readBytes, if_pos (by rw [List.length_append]; omega), List.take_left' length,
      List.drop_left' length]
  · cases done

theorem readBytes_append : readBytes bytes.length (bytes ++ rest) = some (bytes, rest) := by
  rw [readBytes, if_pos (by rw [List.length_append]; omega), List.take_left, List.drop_left]

theorem local_readByte : readByte.Local := by
  intro input byte rest done
  cases input with
  | nil => cases done
  | cons first input =>
    cases done
    exact ⟨[byte], rfl, fun _ => rfl⟩

theorem advances_readByte : readByte.Advances := by
  intro input byte rest done
  cases input with
  | nil => cases done
  | cons first input =>
    cases done
    exact Nat.lt_succ_self _

theorem local_readHead_rest (byte : UInt8) :
    Local (if byte.toNat / 32 ≠ major then fail
      else if byte.toNat % 32 < 24 then pure (byte.toNat % 32)
      else
        match argumentWidth (byte.toNat % 32) with
        | some width => (readBytes width).bind fun bytes => pure (value bytes)
        | none => fail) := by
  split
  · exact local_fail
  · split
    · exact local_pure _
    · split
      · exact local_readBytes.bind fun _ => local_pure _
      · exact local_fail

theorem local_readHead : (readHead major).Local := local_readByte.bind local_readHead_rest

theorem advances_readHead : (readHead major).Advances := advances_readByte.bind local_readHead_rest

theorem local_readArray : readArray.Local := by
  intro input len rest done
  unfold readArray at done ⊢
  split at done
  · rename_i indefinite
    obtain ⟨_, rfl⟩ := List.head?_eq_some_iff.mp indefinite
    cases done
    exact ⟨[0x9f], rfl, fun _ => rfl⟩
  · rename_i definite
    have shorter : rest.length < input.length :=
      advances_readHead.bind (fun _ => local_pure _) done
    obtain ⟨front, rfl, always⟩ := (local_readHead.bind fun _ => local_pure _) done
    refine ⟨front, rfl, fun rest' => ?_⟩
    cases front with
    | nil => exact absurd shorter (by simp)
    | cons first front =>
      rw [if_neg (by simpa using definite)]
      exact always rest'

theorem local_readText : readText.Local := local_readHead.bind fun _ => local_readBytes

theorem readHead_argument {info : Nat} (known : major < 8) (long : 24 ≤ info) (short : info < 32)
    (behind : argumentWidth info = some width) (fits : n < 256 ^ width) :
    readHead major (UInt8.ofNat (32 * major + info) :: bigEndian width n ++ rest) =
      some (n, rest) := by
  have byte : (UInt8.ofNat (32 * major + info)).toNat = 32 * major + info := by
    rw [UInt8.toNat_ofNat']
    omega
  have type : (32 * major + info) / 32 = major := by omega
  have argument : (32 * major + info) % 32 = info := by omega
  have read : readBytes (bigEndian width n).length (bigEndian width n ++ rest) =
      some (bigEndian width n, rest) := readBytes_append
  rw [length_bigEndian] at read
  unfold readHead
  rw [List.cons_append, bind_of_some (show readByte _ = some (_, _) from rfl), byte, type, argument,
    if_neg (not_not.mpr rfl), if_neg (Nat.not_lt.mpr long), behind]
  dsimp only
  rw [bind_of_some read, value_bigEndian fits]
  rfl

theorem readHead_head (known : major < 8) (fits : n < 256 ^ 8) :
    readHead major (head major n ++ rest) = some (n, rest) := by
  unfold head
  split
  · rename_i small
    have byte : (UInt8.ofNat (32 * major + n)).toNat = 32 * major + n := by
      rw [UInt8.toNat_ofNat']
      omega
    have type : (32 * major + n) / 32 = major := by omega
    have argument : (32 * major + n) % 32 = n := by omega
    unfold readHead
    rw [List.singleton_append, bind_of_some (show readByte _ = some (_, _) from rfl), byte, type,
      argument, if_neg (not_not.mpr rfl), if_pos small]
    rfl
  · split
    · exact readHead_argument known (by decide) (by decide) rfl ‹_›
    · split
      · exact readHead_argument known (by decide) (by decide) rfl ‹_›
      · split
        · exact readHead_argument known (by decide) (by decide) rfl ‹_›
        · exact readHead_argument known (by decide) (by decide) rfl fits

theorem readArray_head (fits : n < 256 ^ 8) : readArray (head 4 n ++ rest) = some (some n, rest) := by
  have definite : (head 4 n ++ rest).head? ≠ some 0x9f := by
    unfold head
    split
    · rename_i small
      intro same
      have byte := congrArg UInt8.toNat (Option.some.inj same)
      rw [UInt8.toNat_ofNat'] at byte
      have value : (0x9f : UInt8).toNat = 0x9f := rfl
      omega
    · repeat' split
      all_goals exact fun same => absurd (Option.some.inj same) (by decide)
  rw [readArray, if_neg definite, bind_of_some (readHead_head (by decide) fits)]
  rfl

theorem readText_text (fits : bytes.length < 256 ^ 8) :
    readText (text bytes ++ rest) = some (bytes, rest) := by
  unfold readText text
  rw [List.append_assoc, bind_of_some (readHead_head (by decide) fits)]
  exact readBytes_append

end Cbor
