import ArielOS.Coapcore.Handler

namespace ArielOS.Coapcore

/-- What the configuration uses of other crates. -/
structure SecurityCrates (P : Platform) where
  -- ccm, with AES-256 and a tag of 16 bytes: key, nonce, AAD, ciphertext and tag
  decryptDetached : Bytes → Bytes → Bytes → Bytes → Bytes → Option Bytes
  -- p256
  VerifyingKey : Type
  Signature : Type
  verifyingKey : Bytes → Bytes → Option VerifyingKey
  signature : Bytes → Option Signature
  verify : VerifyingKey → Bytes → Signature → Bool
  -- minicbor: a claims set with its audience, and the paths and permissions of an AIF scope
  decodeClaims : Bytes → Option (CwtClaimsSet × Option Bytes)
  decodeAif : Bytes → Option (List (Bytes × Nat))
  -- lakers
  referenceOnly : P.IdCred → Bool
  byKid : P.Credential → Option P.IdCred
  byValue : P.Credential → Option P.IdCred
  getCcs : P.IdCred → Option P.Credential
  sameIdCred : DecidableEq P.IdCred

/-- An AIF scope, as it was decoded. -/
structure AifValue where
  entries : List (Bytes × Nat)

namespace AifValue

def aifScopeMaxLen : Nat := 64

def slash : UInt8 := 0x2f

variable {P : Platform} (crates : SecurityCrates P)

def parse (bytes : Bytes) : Option AifValue :=
  if aifScopeMaxLen < bytes.length then
    none
  else do
    let entries ← crates.decodeAif bytes
    if entries.all fun entry => entry.1.head? = some slash then some ⟨entries⟩ else none

/-- The parts of a path without its first slash, as `split_once` finds them one after the other. An
    empty rest is no part. -/
def parts : Bytes → Bytes → List Bytes
  | part, [] => if part = [] then [] else [part]
  | part, b :: rest => if b = slash then part :: parts [] rest else parts (part ++ [b]) rest

/-- A request has a code other than 0, and one above 32 has no bit. -/
def requestIsAllowed (scope : AifValue) (request : Message) : Bool :=
  let code := request.code.toNat
  let path := (request.options.filter (·.number = CoapOption.uriPath)).map (·.value)
  1 ≤ code && code ≤ 32 && scope.entries.any fun (entry, perms) =>
    perms.testBit (code - 1) && parts [] (entry.drop 1) = path

end AifValue

/-- A scope that can use multiple backends. -/
inductive UnionScope
  | aifValue (scope : AifValue)
  | allowAll
  | denyAll

def UnionScope.requestIsAllowed (request : Message) : UnionScope → Bool
  | .aifValue scope => scope.requestIsAllowed request
  | .allowAll => true
  | .denyAll => false

structure ConfigBuilderClaims where
  scope : UnionScope
  timeConstraint : TimeConstraint
  isImportant : Bool

structure ConfigBuilder (P : Platform) where
  asKey31 : Option Bytes
  /-- The coordinates of the key, and the audience. -/
  asKeyNeg7 : Option (Bytes × Bytes × Bytes)
  unauthenticatedScope : Option UnionScope
  ownEdhocCredential : Option (P.Credential × P.PrivateKey)
  knownEdhocClients : Option (P.Credential × UnionScope)
  requestCreationHints : Bytes

namespace ConfigBuilder

def tagSize : Nat := 16
def nonceSize : Nat := 13

variable {P : Platform} (crates : SecurityCrates P) (builder : ConfigBuilder P)

/-- The claims of a token whose protection was checked. -/
def tokenClaims (claims : CwtClaimsSet) :
    Except CredentialError (ConfigBuilderClaims × CwtClaimsSet) := do
  let scope ← orError .unpositioned (AifValue.parse crates claims.scope)
  return ({
    scope := .aifValue scope
    timeConstraint := { exp := some claims.exp }
    isImportant := false }, claims)

def decryptSymmetricToken (headers : HeaderMap) (aad ciphertextBuffer : Bytes) :
    Except CredentialError (ConfigBuilderClaims × CwtClaimsSet) := do
  let key ← orError .unpositioned builder.asKey31
  let nonce ← orError .unpositioned headers.iv
  if nonce.length ≠ nonceSize then
    .error .unpositioned
  else if ciphertextBuffer.length < tagSize then
    .error .unpositioned
  else
    let ciphertextLen := ciphertextBuffer.length - tagSize
    let plaintext ← orError .unpositioned (crates.decryptDetached key nonce aad
      (ciphertextBuffer.take ciphertextLen) (ciphertextBuffer.drop ciphertextLen))
    let (claims, _) ← orError .unpositioned (crates.decodeClaims plaintext)
    tokenClaims crates claims

def verifyAsymmetricToken (headers : HeaderMap) (signedData signature signedPayload : Bytes) :
    Except CredentialError (ConfigBuilderClaims × CwtClaimsSet) :=
  if headers.alg ≠ some (-7) then
    .error .unpositioned
  else do
    let (x, y, rsAudience) ← orError .unpositioned builder.asKeyNeg7
    let asKey ← orError .unpositioned (crates.verifyingKey x y)
    let signature ← orError .unpositioned (crates.signature signature)
    if ¬ crates.verify asKey signedData signature then
      .error .unpositioned
    else
      let (claims, aud) ← orError .unpositioned (crates.decodeClaims signedPayload)
      if aud ≠ some rsAudience then
        .error .unpositioned
      else
        tokenClaims crates claims

def nosecAuthorization : Option ConfigBuilderClaims :=
  builder.unauthenticatedScope.map fun scope => {
    scope
    timeConstraint := { exp := none }
    isImportant := false }

def expandIdCredX (idCredX : P.IdCred) : Option (P.Credential × ConfigBuilderClaims) := do
  let (credential, scope) ← builder.knownEdhocClients
  let known :=
    if crates.referenceOnly idCredX then crates.byKid credential else crates.byValue credential
  let _ := crates.sameIdCred
  if known = some idCredX then
    return (credential, { scope, timeConstraint := { exp := none }, isImportant := true })
  let unauthorizedClaims ← builder.nosecAuthorization
  return (← crates.getCcs idCredX, unauthorizedClaims)

def renderNotAllowed (message : P.WriteBuffer) : P.WriteBuffer × Bool :=
  let message := P.setCode message Code.unauthorized
  match P.setPayload message builder.requestCreationHints with
  | some message => (message, true)
  | none => (message, false)

def config : ServerSecurityConfig P where
  parsesTokens := true
  hasEdhoc := true
  Claims := ConfigBuilderClaims
  requestIsAllowed claims request := claims.scope.requestIsAllowed request
  timeConstraint := ConfigBuilderClaims.timeConstraint
  isImportant := ConfigBuilderClaims.isImportant
  decryptSymmetricToken := builder.decryptSymmetricToken crates
  verifyAsymmetricToken := builder.verifyAsymmetricToken crates
  ownEdhocCredential := builder.ownEdhocCredential
  expandIdCredX := builder.expandIdCredX crates
  nosecAuthorization := builder.nosecAuthorization
  renderNotAllowed := builder.renderNotAllowed

end ConfigBuilder

end ArielOS.Coapcore
