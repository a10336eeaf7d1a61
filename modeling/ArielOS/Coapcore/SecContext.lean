import ArielOS.Coapcore.Ace

namespace ArielOS.Coapcore

open OrderedPool

variable {P : Platform}

def maxContexts : Nat := 4
def levelCount : Nat := 4
def edhocCopyBufferSize : Nat := 1152

inductive SecContextStage (P : Platform)
  | empty
  | edhocResponderProcessedM1 (responder : P.ProcessedM1) (cR : COwn) (cI : Bytes)
      (requestedCredByValue : Bool)
  | edhocResponderSentM2 (responder : P.WaitM3) (cR : COwn) (cI : Bytes)
  | oscore (context : P.Context)

def SecContextStage.isEmpty : SecContextStage P → Bool
  | .empty => true
  | _ => false

structure SecContextState (cfg : ServerSecurityConfig P) where
  authorization : Option cfg.Claims
  protocolStage : SecContextStage P

namespace SecContextState

variable {cfg : ServerSecurityConfig P}

def default : SecContextState cfg := { authorization := none, protocolStage := .empty }

instance : PriorityLevel (SecContextState cfg) where
  level state :=
    match state.protocolStage with
    | .empty => 3
    | .edhocResponderProcessedM1 .. => 2
    | .edhocResponderSentM2 .. => 2
    | .oscore _ => if state.authorization.any cfg.isImportant then 0 else 1

def correspondingCown (state : SecContextState cfg) : Option COwn :=
  match state.protocolStage with
  | .empty => none
  | .edhocResponderProcessedM1 _ cR .. | .edhocResponderSentM2 _ cR _ => some cR
  | .oscore context => COwn.fromKid (P.recipientId (P.immutables context))

end SecContextState

abbrev SecContextPool (cfg : ServerSecurityConfig P) :=
  OrderedPool (SecContextState cfg) maxContexts levelCount

inductive AuthorizationChecked (I : Type)
  | allowed (inner : I)
  | notAllowed

inductive OwnRequestData (P : Platform)
  | edhocOkSend2 (cR : COwn)
  | edhocOscoreRequest (kid : COwn) (correlation : P.RequestId)
      (extracted : AuthorizationChecked (Except P.ExtractError P.RequestData))
  | processedToken (response : AceCborAuthzInfoResponse)

inductive OrInner (O I : Type)
  | own (own : O)
  | inner (inner : I)

/-- The errors of `build_response`. -/
inductive BuildFailure (P : Platform)
  | coap (error : CoapError)
  | message
  | inner (error : P.BuildError)

/-- What a security context was made from. -/
inductive Origin (P : Platform)
  | token (payload nonce2 : Bytes) (id : COwn)
  | handshake (responder : P.WaitM3) (cR : COwn) (cI message3 : Bytes)

/-- What the handler did, as far as authorization is concerned. -/
inductive Record (cfg : ServerSecurityConfig P)
  | called (request : Message)
  | started (cR : COwn) (responder : P.ProcessedM1)
  | established (keys : P.Immutables) (claims : cfg.Claims) (origin : Origin P)
  | plain (request : Message) (now : Nat)
  | unprotected (context : P.Context) (claims : cfg.Claims) (request : Message) (now : Nat)
      (allowed : Bool)

structure OscoreEdhocHandler (cfg : ServerSecurityConfig P) where
  pool : SecContextPool cfg
  inner : P.Inner
  /-- The history, latest first. -/
  log : List (Record cfg)

/-- What a call takes from the crypto factory, the random number generator and the clock. -/
structure Ambient (P : Platform) where
  crypto : P.Crypto
  nonce2 : Bytes
  now : Nat

variable {cfg : ServerSecurityConfig P}

/-- The handler after a call that returned a result or an error. -/
abbrev Handled (cfg : ServerSecurityConfig P) (E α : Type) :=
  OscoreEdhocHandler cfg × Except E α

def cownButNot (pool : SecContextPool cfg) (cPeer : Bytes) : Except Panic COwn :=
  let peer := (COwn.fromKid cPeer).toList
  COwn.notInIter (some (pool.entries.length + peer.length))
    (pool.entries.filterMap SecContextState.correspondingCown ++ peer)

namespace OscoreEdhocHandler

section Edhoc

/-- The part of `extract_edhoc` before the pool is changed: the new entry. -/
def startHandshake (pool : SecContextPool cfg) (crypto : P.Crypto) (request : Message) :
    Except (Exit CoapError) (P.ProcessedM1 × COwn × SecContextState cfg) := do
  let (credential, key) ← mayFail (orError .notFound cfg.ownEdhocCredential)
  match request.payload with
  | [] => .error (.error .badRequest)
  | firstByte :: edhocM1 =>
    if firstByte ≠ 0xf5 then
      .error (.error .badRequest)
    else if P.maxMessageSize < edhocM1.length then
      .error (.error .badRequest)
    else
      let (responder, cI, ead1) ←
        mayFail (orError .badRequest (P.processMessage1 crypto credential key edhocM1))
      let requestedCredByValue := ead1.any (·.label = EdhocEad.credByValue)
      if ead1.any fun item => item.label ≠ EdhocEad.credByValue && item.isCritical then
        .error (.error .badRequest)
      else
        let cR ← mayPanic (cownButNot pool cI)
        return (responder, cR, {
          authorization := cfg.nosecAuthorization
          protocolStage := .edhocResponderProcessedM1 responder cR cI requestedCredByValue })

def extractEdhoc (handler : OscoreEdhocHandler cfg) (crypto : P.Crypto) (request : Message) :
    Except Panic (Handled cfg CoapError (OwnRequestData P)) :=
  match startHandshake handler.pool crypto request with
  | .error (.panic p) => .error p
  | .error (.error e) => return (handler, .error e)
  | .ok (responder, cR, state) => do
    let (pool, _evicted) ← handler.pool.forceInsert state
    return ({ handler with pool, log := .started cR responder :: handler.log },
      .ok (.edhocOkSend2 cR))

/-- The use part of the lookup in `build_edhoc_message_2`. -/
def sendMessage2 (cR : COwn) (matched : SecContextState cfg) :
    SecContextState cfg × Except Panic (Option Bytes) :=
  match matched with
  | { protocolStage := .edhocResponderProcessedM1 taken matchedCR cI requestedCredByValue,
      authorization } =>
    if matchedCR ≠ cR then
      (.default, .error .assertionFailed)
    else
      let transfer := if requestedCredByValue then .byValue else .byReference
      match P.prepareMessage2 taken transfer cR.asSlice with
      | none => (.default, .ok none)
      | some (responder, message2) =>
        ({ protocolStage := .edhocResponderSentM2 responder cR cI, authorization }, .ok (some message2))
  | _ => (.default, .error .notImplemented)

def buildEdhocMessage2 (handler : OscoreEdhocHandler cfg) (response : P.WriteBuffer) (cR : COwn) :
    Except Panic (Handled cfg (BuildFailure P) P.WriteBuffer) := do
  let (pool, message2) ← handler.pool.lookup (·.correspondingCown = some cR) (sendMessage2 cR)
  let handler := { handler with pool }
  match message2 with
  | none => return (handler, .ok (P.setCode response Code.internalServerError))
  | some (.error p) => .error p
  | some (.ok none) => return (handler, orError .message (P.renderError .badRequest response))
  | some (.ok (some message2)) =>
    return (handler, orError .message (P.setPayload (P.setCode response Code.changed) message2))

end Edhoc

section Oscore

/-- The credential and the claims of a token in the item. -/
def tokenCredential (cfg : ServerSecurityConfig P) : Option EADItem → Option (P.Credential × cfg.Claims)
  | some { label, value := some value, .. } =>
    if label = EdhocEad.acetoken then (processEdhocToken cfg value).toOption else none
  | _ => none

/-- What `process_edhoc_in_payload` makes of message 3 of a handshake. -/
def completeHandshake (cfg : ServerSecurityConfig P) (responder : P.WaitM3) (cR : COwn)
    (cI message3 : Bytes) : Except (Exit CoapError) (SecContextState cfg × List (Record cfg)) := do
  let (processing, idCredI, ead3) ← mayFail (orError .badRequest (P.parseMessage3 responder message3))
  -- `ead_3.take()` leaves nothing behind.
  let (taken, ead3) : Option EADItem × Option EADItem := (ead3, none)
  let (credI, authorization) ←
    mayFail (orError .badRequest (tokenCredential cfg taken <|> cfg.expandIdCredX idCredI))
  if ead3.any (·.isCritical) then
    .error (.error .badRequest)
  else
    let processed ← mayFail (orError .badRequest (P.verifyMessage3 processing credI))
    let completed ← mayFail (orError .badRequest (P.completedWithoutMessage4 processed))
    let (completed, oscoreSecret) := P.edhocExporter completed 0 [] 16
    let (_, oscoreSalt) := P.edhocExporter completed 1 [] 8
    if oscoreSecret.length < 16 ∨ oscoreSalt.length < 8 then
      .error (.panic .indexOutOfBounds)
    else
      let hkdf ← mayPanic (orError .expectFailed (P.hkdfFromNumber CoseAlg.hkdfHmac256256))
      let aead ← mayPanic (orError .expectFailed (P.aeadFromNumber CoseAlg.aesCcm1664128))
      let immutables ← mayPanic (orError .expectFailed (P.derive hkdf (oscoreSecret.take 16)
        (oscoreSalt.take 8) none aead cI cR.asSlice))
      let context := P.newFromFreshMaterial immutables
      return ({ protocolStage := .oscore context, authorization := some authorization },
        [.established (P.immutables context) authorization (.handshake responder cR cI message3)])

/-- The state after message 3, the length of the message, and whether a context was made. -/
def processEdhocInPayload (payload : Bytes) (state : SecContextState cfg) :
    Except (Exit CoapError) (SecContextState cfg × Nat × List (Record cfg)) := do
  let cutoff ← mayFail (orError .badRequest (P.byteStringEnd payload))
  match state.protocolStage with
  | .edhocResponderSentM2 responder cR cI =>
    if payload.length < cutoff then
      .error (.panic .indexOutOfBounds)
    else if P.maxMessageSize < cutoff then
      .error (.error .badRequest)
    else
      let (state, made) ← completeHandshake cfg responder cR cI (payload.take cutoff)
      return (state, cutoff, made)
  | _ => return (state, cutoff, [])

def copyOptions (copied : P.WriteBuffer) : List CoapOption → Option P.WriteBuffer
  | [] => some copied
  | opt :: options =>
    if opt.number = CoapOption.edhoc then
      copyOptions copied options
    else
      match P.addOption copied opt with
      | none => none
      | some copied => copyOptions copied options

/-- The request without the EDHOC option and payload. -/
def copyRequest (P : Platform) (request : Message) (frontTrimPayload : Nat) :
    Except (Exit CoapError) P.WriteBuffer := do
  let copied := P.setCode (P.newBuffer edhocCopyBufferSize) request.code
  let copied ← mayFail (orError .internalServerError (copyOptions copied request.options))
  if request.payload.length < frontTrimPayload then
    .error (.panic .indexOutOfBounds)
  else
    mayFail (orError .internalServerError (P.setPayload copied (request.payload.drop frontTrimPayload)))

def requestKid (P : Platform) (oscoreOption : Bytes) : Except CoapError (P.OscoreOption × COwn) := do
  let oscoreOption ← orError (.badOption CoapOption.oscore) (P.parseOption oscoreOption)
  let kid ← orError (.badOption CoapOption.oscore) (P.kid oscoreOption)
  let kid ← orError .badRequest (COwn.fromKid kid)
  return (oscoreOption, kid)

/-- What is needed to unprotect a request. -/
structure Unprotectable (cfg : ServerSecurityConfig P) where
  context : P.Context
  authorization : cfg.Claims
  copied : P.WriteBuffer
  made : List (Record cfg)

/-- The entry, after message 3 if there is one, and the length of this message. -/
def processTaken (payload : Bytes) (withEdhoc : Bool) (taken : SecContextState cfg) :
    Except (Exit CoapError) (SecContextState cfg × Nat × List (Record cfg)) :=
  if ¬ withEdhoc then
    .ok (taken, 0, [])
  else if ¬ cfg.hasEdhoc then
    .error (.panic .unreachableCode)
  else
    processEdhocInPayload payload taken

/-- The part of `extract_oscore_edhoc` between taking the entry and unprotecting the request. -/
def prepareUnprotect (request : Message) (withEdhoc : Bool) (now : Nat) (taken : SecContextState cfg) :
    Except (Exit CoapError) (Unprotectable cfg) := do
  let (taken, frontTrimPayload, made) ← processTaken request.payload withEdhoc taken
  match taken with
  | { protocolStage := .oscore context, authorization := some authorization } =>
    if ¬ (cfg.timeConstraint authorization).isValidWith now then
      .error (.error .badRequest)
    else
      let copied ← copyRequest P request frontTrimPayload
      return { context, authorization, copied, made }
  | _ => .error (.error .badRequest)

/-- The wrapped handler's `extract_request_data`. -/
def extractInner (handler : OscoreEdhocHandler cfg) (request : Message) :
    OscoreEdhocHandler cfg × Except P.ExtractError P.RequestData :=
  let (inner, extracted) := P.extractInner handler.inner request
  ({ handler with inner, log := .called request :: handler.log }, extracted)

/-- The closure of `unprotect_request`. -/
def authorizeRequest (handler : OscoreEdhocHandler cfg) (ready : Unprotectable cfg) (now : Nat)
    (request : Message) : OscoreEdhocHandler cfg ×
      AuthorizationChecked (Except P.ExtractError P.RequestData) :=
  let allowed := cfg.requestIsAllowed ready.authorization request
  let record := .unprotected ready.context ready.authorization request now allowed
  let handler := { handler with log := record :: handler.log }
  if allowed then
    let (handler, extracted) := handler.extractInner request
    (handler, .allowed extracted)
  else
    (handler, .notAllowed)

/-- What comes of the request, when it was authenticated. -/
def receive (handler : OscoreEdhocHandler cfg) (ready : Unprotectable cfg) (now : Nat) (kid : COwn) :
    Option (P.RequestId × Message) → Handled cfg CoapError (OwnRequestData P)
  | none => (handler, .error .unauthorized)
  | some (correlation, request) =>
    let (handler, extracted) := handler.authorizeRequest ready now request
    (handler, .ok (.edhocOscoreRequest kid correlation extracted))

/-- The part of `extract_oscore_edhoc` from unprotecting the request on. -/
def unprotect (handler : OscoreEdhocHandler cfg) (ready : Unprotectable cfg) (now : Nat) (kid : COwn)
    (oscoreOption : P.OscoreOption) : Except Panic (Handled cfg CoapError (OwnRequestData P)) := do
  let (context, decrypted) := P.unprotectRequest ready.copied oscoreOption ready.context
  let handler := { handler with log := ready.made ++ handler.log }
  let (handler, result) := handler.receive ready now kid decrypted
  let (pool, evicted) ← handler.pool.forceInsert
    { protocolStage := .oscore context, authorization := some ready.authorization }
  if evicted.all (·.protocolStage.isEmpty) then
    return ({ handler with pool }, result)
  else
    .error .assertionFailed

def extractOscoreEdhoc (handler : OscoreEdhocHandler cfg) (now : Nat) (request : Message)
    (oscoreOption : Bytes) (withEdhoc : Bool) :
    Except Panic (Handled cfg CoapError (OwnRequestData P)) := do
  match requestKid P oscoreOption with
  | .error e => return (handler, .error e)
  | .ok (oscoreOption, kid) =>
    let (pool, taken) ←
      handler.pool.lookup (·.correspondingCown = some kid) fun state => (.default, state)
    let handler := { handler with pool }
    match taken with
    | none => return (handler, .error .badRequest)
    | some taken =>
      match prepareUnprotect request withEdhoc now taken with
      | .error (.panic p) => .error p
      | .error (.error e) => return (handler, .error e)
      | .ok ready => handler.unprotect ready now kid oscoreOption

/-- The closure of `protect_response`. -/
def writeInner (cfg : ServerSecurityConfig P) (inner : P.Inner) (response : P.WriteBuffer) :
    AuthorizationChecked (Except P.ExtractError P.RequestData) → P.Inner × P.WriteBuffer
  | .allowed (.ok extracted) =>
    match P.buildInner inner response extracted with
    | (inner, response, none) => (inner, response)
    | (inner, response, some e) =>
      match P.renderBuildError e response with
      | (response, true) => (inner, response)
      | (response, false) => (inner, P.setCode response Code.internalServerError)
  | .allowed (.error innerRequestError) =>
    match P.renderExtractError innerRequestError response with
    | (response, none) => (inner, response)
    | (response, some e) =>
      match P.renderRenderError e response with
      | (response, true) => (inner, response)
      | (response, false) => (inner, P.setCode response Code.internalServerError)
  | .notAllowed =>
    match cfg.renderNotAllowed response with
    | (response, true) => (inner, response)
    | (response, false) => (inner, P.setCode response Code.unauthorized)

/-- The use part of the lookup in `build_oscore_response`. -/
def protectResponse (inner : P.Inner) (response : P.WriteBuffer) (correlation : P.RequestId)
    (extracted : AuthorizationChecked (Except P.ExtractError P.RequestData))
    (matched : SecContextState cfg) :
    SecContextState cfg × Except CoapError (P.Inner × P.WriteBuffer) :=
  match matched.protocolStage with
  | .oscore context =>
    let response := P.setCode response Code.changed
    match P.plainResponse response context correlation with
    | none => (matched, .ok (inner, response))
    | some plain =>
      let (inner, written) := writeInner cfg inner plain extracted
      let (context, response, _) := P.sealResponse written context correlation
      ({ matched with protocolStage := .oscore context }, .ok (inner, response))
  | _ => (matched, .error .internalServerError)

def buildOscoreResponse (handler : OscoreEdhocHandler cfg) (response : P.WriteBuffer) (kid : COwn)
    (correlation : P.RequestId)
    (extracted : AuthorizationChecked (Except P.ExtractError P.RequestData)) :
    Except Panic (Handled cfg (BuildFailure P) P.WriteBuffer) := do
  let response := P.setCode response Code.changed
  let (pool, built) ← handler.pool.lookup (·.correspondingCown = some kid)
    (protectResponse handler.inner response correlation extracted)
  let handler := { handler with pool }
  match built with
  | none => return (handler, .ok response)
  | some (.error e) => return (handler, .error (.coap e))
  | some (.ok (inner, response)) => return ({ handler with inner }, .ok response)

end Oscore

/-- The errors of a token name a position in the payload, or none. -/
def tokenError (e : CredentialError) : CoapError :=
  match e.position with
  | none => .badRequest
  | some position => .badRequestWithRbep position

def extractToken (handler : OscoreEdhocHandler cfg) (nonce2 payload : Bytes) :
    Except Panic (Handled cfg CoapError AceCborAuthzInfoResponse) :=
  match processAcecborAuthzInfo cfg payload nonce2 (cownButNot handler.pool) with
  | .error (.panic p) => .error p
  | .error (.error e) => return (handler, .error (tokenError e))
  | .ok (response, oscore, generalclaims) => do
    let (pool, _evicted) ← handler.pool.forceInsert
      { protocolStage := .oscore oscore, authorization := some generalclaims }
    let origin := .token payload nonce2 response.aceServerRecipientid
    let record := .established (P.immutables oscore) generalclaims origin
    return ({ handler with pool, log := record :: handler.log }, .ok response)

end OscoreEdhocHandler

end ArielOS.Coapcore
