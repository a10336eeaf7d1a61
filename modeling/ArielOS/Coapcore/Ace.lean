import ArielOS.Coapcore.Platform

namespace ArielOS.Coapcore

/-- The ways in which a function ends without its result. -/
inductive Exit (E : Type)
  | panic (panic : Panic)
  | error (error : E)

variable {E α : Type}

def orError (error : E) : Option α → Except E α
  | some a => .ok a
  | none => .error error

def mayFail : Except E α → Except (Exit E) α
  | .ok a => .ok a
  | .error e => .error (.error e)

def mayPanic : Except Panic α → Except (Exit E) α
  | .ok a => .ok a
  | .error p => .error (.panic p)

/-- The errors of this module name no position. -/
def CredentialError.unpositioned : CredentialError := { position := none }

namespace Ace

def ownNonceLen : Nat := 8
def maxSupportedPeerNonceLen : Nat := 16
def maxSupportedAccesstokenLen : Nat := 256
def maxSupportedEncryptProtectedLen : Nat := 32
def aadSize : Nat := 1 + 1 + 8 + 1 + maxSupportedEncryptProtectedLen + 1

end Ace

def HeaderMap.updatedWith (headers other : HeaderMap) : HeaderMap where
  alg := headers.alg <|> other.alg
  iv := headers.iv <|> other.iv

/-- What fits in a `heapless::Vec` of the capacity. -/
def within (capacity : Nat) (bytes : Bytes) : Except CredentialError Bytes :=
  if bytes.length ≤ capacity then .ok bytes else .error .unpositioned

variable {P : Platform}

/-- The headers, the AAD and the copied ciphertext. -/
def CoseEncrypt0.prepareDecryption (P : Platform) (token : CoseEncrypt0) :
    Except CredentialError (HeaderMap × Bytes × Bytes) := do
  let protectedHeaders ← orError .unpositioned (P.decodeHeaderMap token.protectedBytes)
  let headers := token.unprotected.updatedWith protectedHeaders
  let aad ← within Ace.aadSize (P.encodeEncrypt0 "Encrypt0" token.protectedBytes [])
  let buffer ← within Ace.maxSupportedAccesstokenLen token.encrypted
  return (headers, aad, buffer)

def OscoreInputMaterial.derive (P : Platform) (material : OscoreInputMaterial)
    (nonce1 nonce2 senderId recipientId : Bytes) : Except CredentialError P.Context := do
  let hkdf ← orError .unpositioned (P.hkdfFromNumber 5)
  let aead ← orError .unpositioned (P.aeadFromNumber 10)
  let combinedSalt ← within (1 + 2 + Ace.maxSupportedPeerNonceLen + 2 + Ace.ownNonceLen)
    (P.encodeBytes [] ++ P.encodeBytes nonce1 ++ P.encodeBytes nonce2)
  let immutables ← orError .unpositioned
    (P.derive hkdf material.ms combinedSalt none aead senderId recipientId)
  return P.newFromFreshMaterial immutables

structure AceCborAuthzInfoResponse where
  nonce2 : Bytes
  aceServerRecipientid : COwn

variable (cfg : ServerSecurityConfig P)

/-- The part of `process_acecbor_authz_info` before an identifier is chosen: the peer's nonce and
    identifier, the input material and the processed claims. -/
def decryptAuthzInfo (payload : Bytes) :
    Except CredentialError (Bytes × Bytes × OscoreInputMaterial × cfg.Claims) := do
  match ← orError .unpositioned (P.decodeAceCbor payload) with
  | { accessToken := some accessToken, nonce1 := some nonce1,
      aceClientRecipientid := some aceClientRecipientid, .. } =>
    let encrypt0 ← orError .unpositioned (P.decodeEncrypt0 accessToken)
    let (headers, aad, buffer) ← encrypt0.prepareDecryption P
    if headers.alg ≠ some 31 then
      .error .unpositioned
    else
      let (processed, parsed) ← cfg.decryptSymmetricToken headers aad buffer
      match parsed.cnf with
      | { osc := some osc, coseKey := none } => return (nonce1, aceClientRecipientid, osc, processed)
      | _ => .error .unpositioned
  | _ => .error .unpositioned

def processAcecborAuthzInfo (payload nonce2 : Bytes) (serverRecipientId : Bytes → Except Panic COwn) :
    Except (Exit CredentialError) (AceCborAuthzInfoResponse × P.Context × cfg.Claims) := do
  let (nonce1, aceClientRecipientid, osc, processed) ← mayFail (decryptAuthzInfo cfg payload)
  let aceServerRecipientid ← mayPanic (serverRecipientId aceClientRecipientid)
  let derived ← mayFail
    (osc.derive P nonce1 nonce2 aceClientRecipientid aceServerRecipientid.asSlice)
  return ({ nonce2, aceServerRecipientid }, derived, processed)

/-- The token's claims, decrypted or verified. -/
def processToken (ead3 : Bytes) : Except CredentialError (cfg.Claims × CwtClaimsSet) := do
  match P.decodeEncrypt0 ead3, P.decodeSign1 ead3 with
  | some encrypt0, _ =>
    let (headers, aad, buffer) ← encrypt0.prepareDecryption P
    cfg.decryptSymmetricToken headers aad buffer
  | none, some sign1 =>
    let protectedHeaders ← orError .unpositioned (P.decodeHeaderMap sign1.protectedBytes)
    let headers := sign1.unprotected.updatedWith protectedHeaders
    let signed ← within Ace.maxSupportedAccesstokenLen
      (P.encodeSignature1 "Signature1" sign1.protectedBytes [] sign1.payload)
    cfg.verifyAsymmetricToken headers signed sign1.signature sign1.payload
  | none, none => .error .unpositioned

def processEdhocToken (ead3 : Bytes) : Except CredentialError (P.Credential × cfg.Claims) := do
  let (processed, parsed) ← processToken cfg ead3
  match parsed.cnf with
  | { osc := none, coseKey := some coseKey } =>
    let ccsPrefix : Bytes := [0xa1, 0x08, 0xa1, 0x01]
    let prefixed ← within P.maxCredentialSize (ccsPrefix ++ coseKey.opaqueBytes)
    let x ← orError .unpositioned coseKey.x
    if x.length = 32 then
      return (P.newCcs prefixed x, processed)
    else
      .error .unpositioned
  | _ => .error .unpositioned

end ArielOS.Coapcore
