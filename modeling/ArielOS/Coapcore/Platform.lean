import ArielOS.Coapcore.Helpers

namespace ArielOS.Coapcore

structure CoapOption where
  number : Nat
  value : Bytes

namespace CoapOption

def oscore : Nat := 9
def uriPath : Nat := 11
def contentFormat : Nat := 12
def accept : Nat := 17
def edhoc : Nat := 21

end CoapOption

namespace Code

def post : UInt8 := 0x02
def changed : UInt8 := 0x44
def unauthorized : UInt8 := 0x81
def internalServerError : UInt8 := 0xa0

end Code

structure Message where
  code : UInt8
  options : List CoapOption
  payload : Bytes

/-- The errors of `coap_message_utils` that the handler makes. -/
inductive CoapError
  | badRequest
  | badRequestWithRbep (position : Nat)
  | badOption (number : Nat)
  | notFound
  | methodNotAllowed
  | unauthorized
  | internalServerError
  deriving DecidableEq

structure EADItem where
  label : Nat
  isCritical : Bool
  value : Option Bytes

namespace EdhocEad

def credByValue : Nat := 15
def acetoken : Nat := 20

end EdhocEad

namespace CoseAlg

def hkdfHmac256256 : Int := 5
def aesCcm1664128 : Int := 10

end CoseAlg

inductive CredentialTransfer
  | byReference
  | byValue

structure TimeConstraint where
  exp : Option Nat

/-- Evaluates the constraint with the earliest time that the clock finds possible. -/
def TimeConstraint.isValidWith (constraint : TimeConstraint) (nowEarly : Nat) : Bool :=
  match constraint.exp with
  | none => true
  | some exp => nowEarly < exp

structure CredentialError where
  position : Option Nat

section Tokens

structure AceCbor where
  accessToken : Option Bytes
  nonce1 : Option Bytes
  nonce2 : Option Bytes
  aceClientRecipientid : Option Bytes
  aceServerRecipientid : Option Bytes

structure HeaderMap where
  alg : Option Int
  iv : Option Bytes

structure CoseEncrypt0 where
  protectedBytes : Bytes
  unprotected : HeaderMap
  encrypted : Bytes

structure CoseSign1 where
  protectedBytes : Bytes
  unprotected : HeaderMap
  payload : Bytes
  signature : Bytes

/-- A key as it was sent and its parsed coordinate. -/
structure CoseKey where
  opaqueBytes : Bytes
  x : Option Bytes

structure OscoreInputMaterial where
  id : Bytes
  ms : Bytes

structure Cnf where
  osc : Option OscoreInputMaterial
  coseKey : Option CoseKey

structure CwtClaimsSet where
  exp : Nat
  cnf : Cnf
  scope : Bytes

end Tokens

/-- What the handler uses of other crates. -/
structure Platform where
  -- lakers
  Crypto : Type
  Credential : Type
  PrivateKey : Type
  IdCred : Type
  ProcessedM1 : Type
  WaitM3 : Type
  ProcessingM3 : Type
  ProcessedM3 : Type
  Completed : Type
  maxMessageSize : Nat
  maxCredentialSize : Nat
  processMessage1 : Crypto → Credential → PrivateKey → Bytes →
    Option (ProcessedM1 × Bytes × Option EADItem)
  prepareMessage2 : ProcessedM1 → CredentialTransfer → Bytes → Option (WaitM3 × Bytes)
  parseMessage3 : WaitM3 → Bytes → Option (ProcessingM3 × IdCred × Option EADItem)
  verifyMessage3 : ProcessingM3 → Credential → Option ProcessedM3
  completedWithoutMessage4 : ProcessedM3 → Option Completed
  edhocExporter : Completed → UInt8 → Bytes → Nat → Completed × Bytes
  newCcs : Bytes → Bytes → Credential
  -- libOSCORE
  HkdfAlg : Type
  AeadAlg : Type
  OscoreOption : Type
  Immutables : Type
  Context : Type
  RequestId : Type
  hkdfFromNumber : Int → Option HkdfAlg
  aeadFromNumber : Int → Option AeadAlg
  parseOption : Bytes → Option OscoreOption
  kid : OscoreOption → Option Bytes
  derive : HkdfAlg → Bytes → Bytes → Option Bytes → AeadAlg → Bytes → Bytes → Option Immutables
  newFromFreshMaterial : Immutables → Context
  immutables : Context → Immutables
  senderId : Immutables → Bytes
  recipientId : Immutables → Bytes
  -- Messages in memory
  WriteBuffer : Type
  newBuffer : Nat → WriteBuffer
  setCode : WriteBuffer → UInt8 → WriteBuffer
  addOption : WriteBuffer → CoapOption → Option WriteBuffer
  setPayload : WriteBuffer → Bytes → Option WriteBuffer
  renderError : CoapError → WriteBuffer → Option WriteBuffer
  isCritical : Nat → Bool
  /-- The outcome is the inner request that was authenticated, if it was. -/
  unprotectRequest : WriteBuffer → OscoreOption → Context → Context × Option (RequestId × Message)
  /-- The message that the closure of `protect_response` writes to. -/
  plainResponse : WriteBuffer → Context → RequestId → Option WriteBuffer
  /-- What `protect_response` makes of the written message, and whether it succeeds. -/
  sealResponse : WriteBuffer → Context → RequestId → Context × WriteBuffer × Bool
  -- minicbor
  byteStringEnd : Bytes → Option Nat
  decodeAceCbor : Bytes → Option AceCbor
  decodeEncrypt0 : Bytes → Option CoseEncrypt0
  decodeSign1 : Bytes → Option CoseSign1
  decodeHeaderMap : Bytes → Option HeaderMap
  encodeEncrypt0 : String → Bytes → Bytes → Bytes
  encodeSignature1 : String → Bytes → Bytes → Bytes → Bytes
  encodeBytes : Bytes → Bytes
  encodeAceCbor : AceCbor → Bytes
  -- The wrapped handler
  Inner : Type
  RequestData : Type
  ExtractError : Type
  RenderError : Type
  BuildError : Type
  extractInner : Inner → Message → Inner × Except ExtractError RequestData
  buildInner : Inner → WriteBuffer → RequestData → Inner × WriteBuffer × Option BuildError
  renderBuildError : BuildError → WriteBuffer → WriteBuffer × Bool
  renderExtractError : ExtractError → WriteBuffer → WriteBuffer × Option RenderError
  renderRenderError : RenderError → WriteBuffer → WriteBuffer × Bool

structure ServerSecurityConfig (P : Platform) where
  parsesTokens : Bool
  hasEdhoc : Bool
  Claims : Type
  requestIsAllowed : Claims → Message → Bool
  timeConstraint : Claims → TimeConstraint
  isImportant : Claims → Bool
  decryptSymmetricToken : HeaderMap → Bytes → Bytes → Except CredentialError (Claims × CwtClaimsSet)
  verifyAsymmetricToken : HeaderMap → Bytes → Bytes → Bytes →
    Except CredentialError (Claims × CwtClaimsSet)
  ownEdhocCredential : Option (P.Credential × P.PrivateKey)
  expandIdCredX : P.IdCred → Option (P.Credential × Claims)
  nosecAuthorization : Option Claims
  renderNotAllowed : P.WriteBuffer → P.WriteBuffer × Bool

/-- What libOSCORE promises: contexts have the identifiers they were derived with, and neither
    requests nor responses change their keys and identifiers. -/
structure Platform.KeepsKeys (P : Platform) : Prop where
  fresh : ∀ keys, P.immutables (P.newFromFreshMaterial keys) = keys
  recipient : ∀ {hkdf secret salt idContext aead sender recipient keys},
    P.derive hkdf secret salt idContext aead sender recipient = some keys →
      P.recipientId keys = recipient
  sender : ∀ {hkdf secret salt idContext aead sender recipient keys},
    P.derive hkdf secret salt idContext aead sender recipient = some keys → P.senderId keys = sender
  unprotect : ∀ message option context,
    P.immutables (P.unprotectRequest message option context).1 = P.immutables context
  protect : ∀ message context requestId,
    P.immutables (P.sealResponse message context requestId).1 = P.immutables context

end ArielOS.Coapcore
