import ArielOS.Coapcore.ConfigBuilder
import ArielOS.Lib.Cbor

namespace ArielOS.Coapcore

/-- What scopes use of minicbor: the head of an array, with its length unless that is indefinite, and
    a `(&str, u32)`. Decoding takes what it decodes from the front of its input. -/
structure Minicbor where
  array : Reader (Option Nat)
  entry : Reader (Bytes × BitVec 32)
  local_array : array.Local
  local_entry : entry.Local
  advances_entry : entry.Advances

/-- `minicbor::decode::ArrayIter`. -/
structure ArrayIter where
  len : Option Nat
  input : Bytes

namespace ArrayIter

def breakByte : UInt8 := 0xff

/-- The next item, or the error in its place. -/
def read (D : Minicbor) (len : Option Nat) (input : Bytes) :
    Option (Bytes × BitVec 32) × ArrayIter :=
  match D.entry input with
  | some (entry, input) => (some entry, { len, input })
  | none => (none, { len, input })

def next (D : Minicbor) (it : ArrayIter) : Option (Option (Bytes × BitVec 32) × ArrayIter) :=
  match it.len with
  | some 0 => none
  | some (n + 1) => some (read D (some n) it.input)
  | none => if it.input.head? = some breakByte then none else some (read D none it.input)

variable {D : Minicbor} {it it' : ArrayIter} {entry : Bytes × BitVec 32}

theorem next_some (taken : it.next D = some (some entry, it')) :
    D.entry it.input = some (entry, it'.input) ∧
      ((∃ n, it.len = some (n + 1) ∧ it'.len = some n) ∨
        it.len = none ∧ it.input.head? ≠ some breakByte ∧ it'.len = none) := by
  have reads : ∀ {len}, read D len it.input = (some entry, it') →
      D.entry it.input = some (entry, it'.input) ∧ it'.len = len := by
    intro len taken
    unfold read at taken
    split at taken
    · rename_i found input decoded
      cases taken
      exact ⟨decoded, rfl⟩
    · cases taken
  unfold next at taken
  split at taken
  · cases taken
  · rename_i n counted
    obtain ⟨decoded, counts⟩ := reads (Option.some.inj taken)
    exact ⟨decoded, Or.inl ⟨n, counted, counts⟩⟩
  · rename_i counted
    split at taken
    · cases taken
    · rename_i more
      obtain ⟨decoded, counts⟩ := reads (Option.some.inj taken)
      exact ⟨decoded, Or.inr ⟨counted, more, counts⟩⟩

theorem next_advances (taken : it.next D = some (some entry, it')) :
    it'.input.length < it.input.length :=
  D.advances_entry (next_some taken).1

/-- A loop over the items whose body goes on or returns, and which returns `failed` at an item that
    cannot be decoded. -/
def forEach {R : Type} (D : Minicbor) (failed : R) (body : Bytes × BitVec 32 → Option R)
    (it : ArrayIter) : Option R :=
  match _h : it.next D with
  | none => none
  | some (none, _) => some failed
  | some (some entry, it') =>
    match body entry with
    | some r => some r
    | none => forEach D failed body it'
termination_by it.input.length
decreasing_by exact next_advances _h

end ArrayIter

def Minicbor.arrayIter (D : Minicbor) (bytes : Bytes) : Option ArrayIter :=
  (D.array bytes).map fun (len, input) => { len, input }

namespace Scope

/-- A representation of an RFC9237 using the REST-specific model. -/
structure AifValue where
  buffer : Bytes
  length_buffer : buffer.length = AifValue.aifScopeMaxLen

abbrev Decision := Except Panic Bool

namespace AifValue

open Coapcore.AifValue (slash aifScopeMaxLen)

/-- An array that starts with the bytes and is zero behind them. -/
def copied (bytes : Bytes) (fits : bytes.length ≤ aifScopeMaxLen) : AifValue where
  buffer := bytes ++ List.replicate (aifScopeMaxLen - bytes.length) 0
  length_buffer := by
    rw [List.length_append, List.length_replicate]
    omega

/-- Nothing for `InvalidScope`. -/
def parse (D : Minicbor) (bytes : Bytes) : Option AifValue :=
  if fits : bytes.length ≤ aifScopeMaxLen then
    match D.arrayIter bytes with
    | none => none
    | some items =>
      match items.forEach D () fun (path, _) => if path.head? = some slash then none else some () with
      | some () => none
      | none => some (copied bytes fits)
  else
    none

/-- `remainder.split_once('/')`. -/
def splitOnce : Bytes → Option (Bytes × Bytes)
  | [] => none
  | b :: remainder =>
    if b = slash then some ([], remainder)
    else (splitOnce remainder).map fun (part, rest) => (b :: part, rest)

/-- Takes an option for each part of the path. Nothing stands for `continue 'outer`. -/
def walk : Bytes → List Bytes → Option (List Bytes)
  | [], pathopts => some pathopts
  | _ :: _, [] => none
  | remainder, thisOpt :: pathopts =>
    let (nextPart, nextRemainder) := (splitOnce remainder).getD (remainder, [])
    if thisOpt ≠ nextPart then none else walk nextRemainder pathopts

def uriPath (request : Message) : List Bytes :=
  (request.options.filter (·.number = CoapOption.uriPath)).map (·.value)

/-- The body of the loop over the items. Nothing stands for `continue`. -/
def evaluate (codebit : BitVec 32) (request : Message) : Bytes × BitVec 32 → Option Decision
  | (path, perms) =>
    if perms &&& codebit = 0 then none
    else
      let pathopts := uriPath request
      if path = [slash] ∧ pathopts = [] then some (.ok true)
      else if path.head? ≠ some slash then some (.error .assertionFailed)
      else
        match walk (path.drop 1) pathopts with
        | none => none
        | some pathopts => if pathopts = [] then some (.ok true) else none

/-- `1u32.overflowing_shl(bits)` if it does not overflow. -/
def overflowingShl (bits : Nat) : Option (BitVec 32) := if bits < 32 then some (1#32 <<< bits) else none

def requestIsAllowed (D : Minicbor) (scope : AifValue) (request : Message) : Decision :=
  match request.code.toNat with
  | 0 => .error .expectFailed
  | bits + 1 =>
    match overflowingShl bits with
    | none => .ok false
    | some codebit =>
      match D.arrayIter scope.buffer with
      | none => .error .expectFailed
      | some items =>
        match items.forEach D (.error .expectFailed) (evaluate codebit request) with
        | some decision => decision
        | none => .ok false

end AifValue

/-- A scope that can use multiple backends. -/
inductive UnionScope
  | aifValue (scope : AifValue)
  | allowAll
  | denyAll

def UnionScope.requestIsAllowed (D : Minicbor) (request : Message) : UnionScope → Decision
  | .aifValue scope => scope.requestIsAllowed D request
  | .allowAll => .ok true
  | .denyAll => .ok false

end Scope

end ArielOS.Coapcore
