import ArielOS.Coapcore.SecContext

namespace ArielOS.Coapcore

variable {P : Platform}

/-- What the options of a request were recognized as so far. -/
inductive Recognition
  | start
  | oscore (option : Bytes)
  | edhoc (option : Bytes)
  | wellKnown
  | wellKnownEdhoc
  | authzInfo
  | unencrypted

def ascii (text : String) : Bytes := text.toList.map fun c => UInt8.ofNat c.toNat

def hasOscore (cfg : ServerSecurityConfig P) : Bool := cfg.hasEdhoc || cfg.parsesTokens

namespace Recognition

/-- The next state, and whether the option is left to `ignore_elective_others`. -/
def update (cfg : ServerSecurityConfig P) (state : Recognition) (o : CoapOption) : Recognition × Bool :=
  match state with
  | .start =>
    if o.number = CoapOption.oscore ∧ hasOscore cfg then
      if o.value.length ≤ 16 then (.oscore o.value, false) else (.start, true)
    else if o.number = CoapOption.uriPath then
      if o.value = ascii ".well-known" ∧ cfg.hasEdhoc then
        (.wellKnown, false)
      else if o.value = ascii "authz-info" ∧ cfg.parsesTokens then
        (.authzInfo, false)
      else
        (.unencrypted, true)
    else
      (.start, true)
  | .oscore option =>
    if o.number = CoapOption.edhoc ∧ o.value = [] ∧ cfg.hasEdhoc then
      (.edhoc option, true)
    else
      (.oscore option, true)
  | .wellKnown =>
    if o.number = CoapOption.uriPath ∧ o.value = ascii "edhoc" ∧ cfg.hasEdhoc then
      (.wellKnownEdhoc, false)
    else
      (.wellKnown, true)
  | .authzInfo =>
    if (o.number = CoapOption.contentFormat ∨ o.number = CoapOption.accept) ∧ o.value = [19] ∧
        cfg.parsesTokens then
      (.authzInfo, false)
    else
      (.authzInfo, true)
  | .edhoc _ | .wellKnownEdhoc | .unencrypted => (state, true)

def errorsHandledHere : Recognition → Bool
  | .wellKnownEdhoc | .authzInfo => true
  | .start | .oscore _ | .edhoc _ | .wellKnown | .unencrypted => false

/-- The filtered options as `ignore_elective_others` goes through them: it stops at a critical one,
    and no option behind it is recognized. -/
def recognize (cfg : ServerSecurityConfig P) :
    Recognition → List CoapOption → Recognition × Except CoapError Unit
  | state, [] => (state, .ok ())
  | state, o :: options =>
    let (state, passedOn) := state.update cfg o
    if passedOn ∧ P.isCritical o.number then
      (state, .error (.badOption o.number))
    else
      recognize cfg state options

end Recognition

/-- The data of requests to the handler. -/
abbrev RequestData (P : Platform) :=
  OrInner (OwnRequestData P) (AuthorizationChecked P.RequestData)

abbrev ExtractRequestError (P : Platform) := OrInner CoapError P.ExtractError

namespace OscoreEdhocHandler

variable {cfg : ServerSecurityConfig P}

def new (inner : P.Inner) : Except Panic (OscoreEdhocHandler cfg) := do
  return { pool := ← OrderedPool.new, inner, log := [] }

/-- A result of the handler itself. -/
def own {α : Type} (make : α → OwnRequestData P) :
    Except CoapError α → Except (ExtractRequestError P) (RequestData P)
  | .ok a => .ok (.own (make a))
  | .error e => .error (.own e)

/-- A request without OSCORE, by the rules for unauthenticated access. -/
def extractPlain (handler : OscoreEdhocHandler cfg) (now : Nat) (request : Message) :
    Handled cfg (ExtractRequestError P) (RequestData P) :=
  if cfg.nosecAuthorization.any fun s =>
      cfg.requestIsAllowed s request && (cfg.timeConstraint s).isValidWith now then
    let handler := { handler with log := .plain request now :: handler.log }
    match handler.extractInner request with
    | (handler, .ok extracted) => (handler, .ok (.inner (.allowed extracted)))
    | (handler, .error e) => (handler, .error (.inner e))
  else
    (handler, .ok (.inner .notAllowed))

def extractRequestData (handler : OscoreEdhocHandler cfg) (ambient : Ambient P) (request : Message) :
    Except Panic (Handled cfg (ExtractRequestError P) (RequestData P)) := do
  let (state, extraOptions) := Recognition.recognize cfg .start request.options
  match state.errorsHandledHere, extraOptions with
  | true, .error error => return (handler, .error (.own error))
  | _, _ =>
    match state with
    | .start | .wellKnown | .unencrypted => return handler.extractPlain ambient.now request
    | .wellKnownEdhoc =>
      if ¬ cfg.hasEdhoc then
        .error .unreachableCode
      else if request.code ≠ Code.post then
        return (handler, .error (.own .methodNotAllowed))
      else
        let (handler, result) ← handler.extractEdhoc ambient.crypto request
        return (handler, own id result)
    | .authzInfo =>
      if ¬ cfg.parsesTokens then
        .error .unreachableCode
      else if request.code ≠ Code.post then
        return (handler, .error (.own .methodNotAllowed))
      else
        let (handler, result) ← handler.extractToken ambient.nonce2 request.payload
        return (handler, own .processedToken result)
    | .edhoc oscore =>
      if ¬ cfg.hasEdhoc then
        .error .unreachableCode
      else
        let (handler, result) ← handler.extractOscoreEdhoc ambient.now request oscore true
        return (handler, own id result)
    | .oscore oscore =>
      if ¬ hasOscore cfg then
        .error .unreachableCode
      else
        let (handler, result) ← handler.extractOscoreEdhoc ambient.now request oscore false
        return (handler, own id result)

/-- The answer to a token. -/
def renderToken (response : P.WriteBuffer) (token : AceCborAuthzInfoResponse) : Option P.WriteBuffer :=
  P.setPayload (P.setCode response Code.changed) (P.encodeAceCbor {
    accessToken := none
    nonce1 := none
    nonce2 := some token.nonce2
    aceClientRecipientid := none
    aceServerRecipientid := some token.aceServerRecipientid.asSlice })

def buildResponse (handler : OscoreEdhocHandler cfg) (response : P.WriteBuffer) (req : RequestData P) :
    Except Panic (Handled cfg (BuildFailure P) P.WriteBuffer) :=
  match req with
  | .own (.edhocOkSend2 cR) =>
    if ¬ cfg.hasEdhoc then
      .error .unreachableCode
    else
      handler.buildEdhocMessage2 response cR
  | .own (.processedToken token) =>
    if ¬ cfg.parsesTokens then
      .error .unreachableCode
    else
      .ok (handler, orError .message (renderToken response token))
  | .own (.edhocOscoreRequest kid correlation extracted) =>
    if ¬ hasOscore cfg then
      .error .unreachableCode
    else
      handler.buildOscoreResponse response kid correlation extracted
  | .inner (.allowed extracted) =>
    match P.buildInner handler.inner response extracted with
    | (inner, response, none) => .ok ({ handler with inner }, .ok response)
    | (inner, _, some e) => .ok ({ handler with inner }, .error (.inner e))
  | .inner .notAllowed =>
    match cfg.renderNotAllowed response with
    | (response, true) => .ok (handler, .ok response)
    | (_, false) => .ok (handler, .error (.coap .unauthorized))

end OscoreEdhocHandler

/-- The calls to the handler, in any order and with any data. -/
inductive Call (P : Platform)
  | extractRequestData (ambient : Ambient P) (request : Message)
  | buildResponse (response : P.WriteBuffer) (req : RequestData P)

def Call.run {cfg : ServerSecurityConfig P} (call : Call P) (handler : OscoreEdhocHandler cfg) :
    Except Panic (OscoreEdhocHandler cfg) :=
  match call with
  | .extractRequestData ambient request => do
    return (← handler.extractRequestData ambient request).1
  | .buildResponse response req => do
    return (← handler.buildResponse response req).1

end ArielOS.Coapcore
