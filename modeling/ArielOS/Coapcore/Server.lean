import ArielOS.Coapcore.Handler

namespace ArielOS.Coapcore

variable {P : Platform} {cfg : ServerSecurityConfig P}

/-- What a response has to go with: message 1 of a handshake, or the keys of a context. -/
inductive Tag (P : Platform)
  | message1 (responder : P.ProcessedM1)
  | unprotected (keys : P.Immutables)
  | other

def Record.tag : Record cfg → Option (Tag P)
  | .started _ responder => some (.message1 responder)
  | .unprotected context .. => some (.unprotected (P.immutables context))
  | _ => none

/-- A request whose response is outstanding. -/
structure Pending (P : Platform) where
  data : RequestData P
  tag : Tag P

/-- The identifier that is left of a request. -/
def Pending.kept (p : Pending P) : Option COwn :=
  match p.data with
  | .own (.edhocOkSend2 cR) => some cR
  | .own (.edhocOscoreRequest kid _ _) => some kid
  | _ => none

/-- The handler in a CoAP stack that processes requests while responses are outstanding. -/
structure Server (cfg : ServerSecurityConfig P) where
  handler : OscoreEdhocHandler cfg
  pending : List (Pending P)

inductive ServerEvent (P : Platform)
  | extract (ambient : Ambient P) (request : Message)
  | build (i : Nat) (response : P.WriteBuffer)

namespace OscoreEdhocHandler

/-- What the latest request goes with. -/
def tag (handler : OscoreEdhocHandler cfg) : Tag P :=
  (handler.log.findSome? Record.tag).getD .other

/-- The identifier that a request is given if it starts a handshake or brings a token. -/
def given (handler : OscoreEdhocHandler cfg) (ambient : Ambient P) (request : Message) : Option COwn :=
  match (Recognition.recognize cfg .start request.options).1 with
  | .wellKnownEdhoc =>
    match startHandshake handler.pool ambient.crypto request with
    | .ok (_, cR, _) => some cR
    | .error _ => none
  | .authzInfo =>
    match processAcecborAuthzInfo cfg request.payload ambient.nonce2 (cownButNot handler.pool) with
    | .ok (response, _) => some response.aceServerRecipientid
    | .error _ => none
  | _ => none

end OscoreEdhocHandler

namespace Server

def new (inner : P.Inner) : Except Panic (Server cfg) := do
  return { handler := ← OscoreEdhocHandler.new inner, pending := [] }

/-- A response is built once. -/
def run (event : ServerEvent P) (server : Server cfg) : Except Panic (Server cfg) :=
  match event with
  | .extract ambient request => do
    let (handler, result) ← server.handler.extractRequestData ambient request
    match result with
    | .ok data => return { handler, pending := server.pending ++ [⟨data, handler.tag⟩] }
    | .error _ => return { server with handler }
  | .build i response =>
    match server.pending[i]? with
    | none => return server
    | some p => do
      let (handler, _) ← server.handler.buildResponse response p.data
      return { handler, pending := server.pending.eraseIdx i }

end Server

end ArielOS.Coapcore
