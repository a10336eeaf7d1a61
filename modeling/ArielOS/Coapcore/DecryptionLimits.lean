import ArielOS.Coapcore.HeaderPrecedence

namespace ArielOS.Coapcore

variable {P : Platform} {container : CoseEncrypt0} {p : HeaderMap}

/-- The CBOR encoding of the array `["Encrypt0", protected, external_aad]`. -/
def encrypt0Array (protectedBytes externalAad : Bytes) : Bytes :=
  Cbor.array [Cbor.text (ascii "Encrypt0"), Cbor.byteString protectedBytes, Cbor.byteString externalAad]

/-- What minicbor derives for `Encrypt0`: its fields in an array, with the shortest heads. -/
def Platform.EncodesEncrypt0 (P : Platform) : Prop :=
  ∀ protectedBytes externalAad,
    P.encodeEncrypt0 "Encrypt0" protectedBytes externalAad = encrypt0Array protectedBytes externalAad

theorem length_encrypt0Array (protectedBytes : Bytes) :
    (encrypt0Array protectedBytes []).length = 11 + (Cbor.byteString protectedBytes).length := by
  have head : (Cbor.head 4 3).length = 1 := rfl
  have empty : (Cbor.byteString []).length = 1 := rfl
  have context : (Cbor.text (ascii "Encrypt0")).length = 9 := by decide
  rw [encrypt0Array, Cbor.array, List.length_append]
  simp only [List.length_cons, List.length_nil, List.flatten_cons, List.flatten_nil, List.append_nil,
    List.length_append, empty, context]
  change (Cbor.head 4 3).length + _ = _
  omega

/-- The head of the protected bytes has a second byte from 24 on, which the buffer has no room for at
    the limit. -/
theorem encrypt0Array_fits {protectedBytes : Bytes}
    (short : protectedBytes.length ≤ Ace.maxSupportedEncryptProtectedLen) :
    (encrypt0Array protectedBytes []).length ≤ Ace.aadSize ↔
      protectedBytes.length ≠ Ace.maxSupportedEncryptProtectedLen := by
  rw [length_encrypt0Array]
  unfold Ace.maxSupportedEncryptProtectedLen at short ⊢
  have size : Ace.aadSize = 44 := rfl
  rw [size]
  by_cases small : protectedBytes.length < 24
  · rw [Cbor.length_byteString_small small]
    omega
  · rw [Cbor.length_byteString_byte (Nat.not_lt.mp small) (by omega)]
    omega

/-- Within the stated limits, decryption is prepared exactly if the protected bytes stay below
    theirs. -/
theorem decryption_prepared_iff (encodes : P.EncodesEncrypt0)
    (short : container.protectedBytes.length ≤ Ace.maxSupportedEncryptProtectedLen)
    (read : P.decodeHeaderMap container.protectedBytes = some p)
    (copied : container.encrypted.length ≤ Ace.maxSupportedAccesstokenLen) :
    (∃ headers, container.prepareDecryption P =
      .ok (headers, encrypt0Array container.protectedBytes [], container.encrypted)) ↔
    container.protectedBytes.length ≠ Ace.maxSupportedEncryptProtectedLen := by
  rw [← encrypt0Array_fits short]
  unfold CoseEncrypt0.prepareDecryption
  rw [read, encodes]
  dsimp only [orError]
  unfold within
  rw [Machine.ok_bind, if_pos copied]
  split
  · rename_i fits
    exact iff_of_true ⟨_, rfl⟩ fits
  · rename_i large
    refine iff_of_false ?_ large
    rintro ⟨headers, same⟩
    cases same

theorem decryption_prepared_iff_sample :
    ∃ headers, ({
        protectedBytes := [0xa1, 0x01, 0x18, 0x1f]
        unprotected := { alg := none, iv := none }
        encrypted := List.replicate 16 0 } : CoseEncrypt0).prepareDecryption Clear.conflicting =
      .ok (headers, encrypt0Array [0xa1, 0x01, 0x18, 0x1f] [], List.replicate 16 0) :=
  (decryption_prepared_iff (p := ⟨some 31, none⟩) (fun _ _ => rfl) (by decide) rfl (by decide)).mpr
    (by decide)

namespace Clear

/-- The header map `{1: 31, 5: h'00...'}` in 32 bytes. -/
def longHeader : Bytes := [0xa2, 0x01, 0x18, 0x1f, 0x05, 0x58, 0x19] ++ List.replicate 25 0

def longHeaders : Platform := { conflicting with
  decodeHeaderMap := fun bytes =>
    if bytes = longHeader then
      some { alg := some 31, iv := some (List.replicate 25 0) }
    else
      none }

def longToken : CoseEncrypt0 where
  protectedBytes := longHeader
  unprotected := { alg := none, iv := none }
  encrypted := List.replicate 16 0

end Clear

theorem long_header_refused : Clear.longHeaders.EncodesEncrypt0 ∧
    Clear.longToken.protectedBytes.length ≤ Ace.maxSupportedEncryptProtectedLen ∧
    Clear.longHeaders.decodeHeaderMap Clear.longToken.protectedBytes ≠ none ∧
    Clear.longToken.encrypted.length ≤ Ace.maxSupportedAccesstokenLen ∧
    Clear.longToken.prepareDecryption Clear.longHeaders = .error .unpositioned :=
  ⟨fun _ _ => rfl, by decide, by decide, by decide, rfl⟩

end ArielOS.Coapcore
