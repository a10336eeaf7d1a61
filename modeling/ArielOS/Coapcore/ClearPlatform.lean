import ArielOS.Coapcore.Handler

namespace ArielOS.Coapcore

/-! A platform without cryptography: what the peers would protect is sent in the clear. It runs the
    model on given inputs. -/

namespace Clear

/-- The secret and the identifiers of both sides. -/
structure Keys where
  secret : Bytes
  sender : Bytes
  recipient : Bytes
  deriving DecidableEq

/-- `h'...'` with a length of at most 23. -/
def byteStringEnd : Bytes → Option Nat
  | head :: rest =>
    let length := head.toNat - 0x40
    if 0x40 ≤ head ∧ head ≤ 0x57 ∧ length ≤ rest.length then some (1 + length) else none
  | [] => none

/-- C_I is the first byte of message 1. -/
def processMessage1 (message1 : Bytes) : Option (Bytes × Bytes × Option EADItem) :=
  match message1 with
  | cI :: _ => some (message1, [cI], none)
  | [] => none

/-- A byte string of the identity of the peer, and of the label and the criticality of an EAD item. -/
def parseMessage3 (waiting message3 : Bytes) : Option (Bytes × Bytes × Option EADItem) :=
  match message3 with
  | [_, idCred] => some (waiting, [idCred], none)
  | [_, idCred, label, critical] => some (waiting, [idCred], some {
      label := label.toNat
      isCritical := critical = 1
      value := none })
  | _ => none

/-- A flag byte for a kid and a partial IV of one byte. -/
def parseOption : Bytes → Option Bytes
  | flags :: _ :: kid => if flags = 0x09 then some kid else none
  | _ => none

def aceCbor : Bytes → Option AceCbor
  | [clientId] => some {
      accessToken := some []
      nonce1 := some []
      nonce2 := none
      aceClientRecipientid := some [clientId]
      aceServerRecipientid := none }
  | _ => none

/-- Payloads that begin with 1 pass for authentic. -/
def unprotectRequest (message : Message) (context : Keys × Nat) :
    (Keys × Nat) × Option (Nat × Message) :=
  match message.payload with
  | 1 :: payload => (context, some (0, { code := Code.post, options := [], payload }))
  | _ => (context, none)

/-- A response carries the secret that it is protected with. -/
def sealResponse (message : Message) (context : Keys × Nat) : (Keys × Nat) × Message × Bool :=
  ((context.1, context.2 + 1), { message with payload := context.1.secret ++ message.payload }, true)

end Clear

def Platform.clear : Platform where
  Crypto := Unit
  Credential := Bytes
  PrivateKey := Unit
  IdCred := Bytes
  ProcessedM1 := Bytes
  WaitM3 := Bytes
  ProcessingM3 := Bytes
  ProcessedM3 := Bytes
  Completed := Bytes
  maxMessageSize := 256
  maxCredentialSize := 128
  processMessage1 _ _ _ message1 := Clear.processMessage1 message1
  prepareMessage2 message1 _ cR := some (message1, cR ++ message1)
  parseMessage3 := Clear.parseMessage3
  verifyMessage3 message1 _ := some message1
  completedWithoutMessage4 message1 := some message1
  edhocExporter message1 _ _ length :=
    (message1, (message1 ++ List.replicate length 0).take length)
  newCcs _ x := x
  HkdfAlg := Unit
  AeadAlg := Unit
  OscoreOption := Bytes
  Immutables := Clear.Keys
  Context := Clear.Keys × Nat
  RequestId := Nat
  hkdfFromNumber _ := some ()
  aeadFromNumber _ := some ()
  parseOption := Clear.parseOption
  kid := some
  derive _ secret _ _ _ sender recipient := some { secret, sender, recipient }
  newFromFreshMaterial keys := (keys, 0)
  immutables := Prod.fst
  senderId := Clear.Keys.sender
  recipientId := Clear.Keys.recipient
  WriteBuffer := Message
  newBuffer _ := { code := 0, options := [], payload := [] }
  setCode message code := { message with code }
  addOption message option := some { message with options := message.options ++ [option] }
  setPayload message payload := if payload.length ≤ 1024 then some { message with payload } else none
  renderError _ message := some { message with code := 0x80 }
  isCritical number := number % 2 = 1
  unprotectRequest message _ context := Clear.unprotectRequest message context
  plainResponse message _ _ := some message
  sealResponse message context _ := Clear.sealResponse message context
  byteStringEnd := Clear.byteStringEnd
  decodeAceCbor := Clear.aceCbor
  decodeEncrypt0 token := some {
    protectedBytes := []
    unprotected := { alg := some 31, iv := none }
    encrypted := token }
  decodeSign1 _ := none
  decodeHeaderMap _ := some { alg := some 31, iv := none }
  encodeEncrypt0 _ protectedBytes aad := protectedBytes ++ aad
  encodeSignature1 _ protectedBytes aad payload := protectedBytes ++ aad ++ payload
  encodeBytes bytes := UInt8.ofNat (0x40 + bytes.length) :: bytes
  encodeAceCbor response := response.nonce2.getD [] ++ response.aceServerRecipientid.getD []
  Inner := Unit
  RequestData := Bytes
  ExtractError := Unit
  RenderError := Unit
  BuildError := Unit
  extractInner _ request := ((), .ok request.payload)
  buildInner _ response data := ((), { response with payload := data }, none)
  renderBuildError _ response := (response, true)
  renderExtractError _ response := (response, none)
  renderRenderError _ response := (response, true)

/-- Tokens of one authority, and a known client, are allowed everything. Only the client is
    important. -/
def ServerSecurityConfig.clear : ServerSecurityConfig .clear where
  parsesTokens := true
  hasEdhoc := true
  Claims := Bool
  requestIsAllowed _ _ := true
  timeConstraint _ := { exp := none }
  isImportant := id
  decryptSymmetricToken _ _ token :=
    .ok (false, {
      exp := 0
      cnf := { osc := some { id := [], ms := token }, coseKey := none }
      scope := [] })
  verifyAsymmetricToken _ _ _ _ := .error { position := none }
  ownEdhocCredential := some ([0], ())
  expandIdCredX (idCred : Bytes) := if idCred = [7] then some (idCred, true) else none
  nosecAuthorization := none
  renderNotAllowed response := (response, false)

theorem Platform.clear_keepsKeys : Platform.clear.KeepsKeys where
  fresh _ := rfl
  recipient derived := by cases derived; rfl
  sender derived := by cases derived; rfl
  unprotect message option context := by
    change (Clear.unprotectRequest message context).1.1 = context.1
    unfold Clear.unprotectRequest
    split <;> rfl
  protect _ _ _ := rfl

namespace Clear

def ambient : Ambient .clear := { crypto := (), nonce2 := [], now := 0 }

def start : OscoreEdhocHandler .clear := { pool := { entries := [], sorted := [] }, inner := (), log := [] }

def response : Message := { code := 0, options := [], payload := [] }

/-- EDHOC message 1 of a peer with the identifier. -/
def message1 (cI : UInt8) : Message where
  code := Code.post
  options := [⟨CoapOption.uriPath, ascii ".well-known"⟩, ⟨CoapOption.uriPath, ascii "edhoc"⟩]
  payload := [0xf5, cI]

/-- A token of a peer with the identifier. -/
def token (clientId : UInt8) : Message where
  code := Code.post
  options := [⟨CoapOption.uriPath, ascii "authz-info"⟩]
  payload := [clientId]

/-- A request that names the context of the identifier. -/
def request (kid : UInt8) (payload : Bytes) : Message where
  code := Code.post
  options := [⟨CoapOption.oscore, [0x09, 0, kid]⟩]
  payload := payload

/-- The same, with EDHOC message 3 in front of the payload. -/
def requestWithEdhoc (kid : UInt8) (payload : Bytes) : Message where
  code := Code.post
  options := [⟨CoapOption.oscore, [0x09, 0, kid]⟩, ⟨CoapOption.edhoc, []⟩]
  payload := payload

def extract (request : Message) : Call .clear := .extractRequestData ambient request

def build (req : RequestData .clear) : Call .clear := .buildResponse response req

/-- The keys of the first token, of the peer 1. -/
def keys : Keys := { secret := [], sender := [1], recipient := [0] }

/-- The handler after this token. -/
def known : OscoreEdhocHandler .clear where
  pool := { entries := [⟨some false, .oscore (keys, 0)⟩], sorted := [0] }
  inner := ()
  log := [.established keys false (.token [1] [] ⟨0, by decide⟩)]

theorem known_reachable : Machine.Reachable Call.run start known :=
  .next (extract (token 1)) .init trivial rfl

end Clear

end ArielOS.Coapcore
