import ArielOS.Coapcore.ClearPlatform
import ArielOS.Coapcore.Identifiers
import ArielOS.Coapcore.Server

namespace ArielOS.Coapcore

open Machine OrderedPool Recency OscoreEdhocHandler

variable {P : Platform} {cfg : ServerSecurityConfig P} {xs ys : List (SecContextState cfg)}
  {a b : SecContextState cfg} {p q : Pending P} {handler handler' : OscoreEdhocHandler cfg}

/-- The identifier of a handshake whose message 2 is outstanding. -/
def Pending.awaits (p : Pending P) : Option COwn :=
  match p.data with
  | .own (.edhocOkSend2 cR) => some cR
  | _ => none

theorem Pending.kept_of_awaits {id : COwn} (awaits : p.awaits = some id) : p.kept = some id := by
  obtain ⟨data, tag⟩ := p
  cases data with
  | own data => cases data <;> first | exact awaits | cases awaits
  | inner data => cases awaits

/-- The identifier stands for the handshake or the context of the request, or for nothing. -/
def Pending.Tied (cfg : ServerSecurityConfig P) (p : Pending P) (xs : List (SecContextState cfg)) :
    Prop :=
  match p.data with
  | .own (.edhocOkSend2 cR) => cfg.hasEdhoc = true ∧ ∃ responder, p.tag = .message1 responder ∧
      ∀ a ∈ xs, a.correspondingCown = some cR →
        ∃ cI byValue, a.protocolStage = .edhocResponderProcessedM1 responder cR cI byValue
  | .own (.edhocOscoreRequest kid _ _) => hasOscore cfg = true ∧ ∃ keys, p.tag = .unprotected keys ∧
      ∀ a ∈ xs, a.correspondingCown = some kid →
        ∃ context, a.protocolStage = .oscore context ∧ P.immutables context = keys
  | .own (.processedToken _) => cfg.parsesTokens = true
  | .inner _ => True

/-- What a step makes of an entry that keeps its identifier. -/
structure SecContextState.Evolves (a b : SecContextState cfg) : Prop where
  cown : b.correspondingCown = a.correspondingCown
  stage : (∃ context context', a.protocolStage = .oscore context ∧ b.protocolStage = .oscore context' ∧
      P.immutables context' = P.immutables context) ∨
    ∃ responder cR cI, a.protocolStage = .edhocResponderSentM2 responder cR cI

/-- An entry after a step: as before, evolved, or with an identifier that fulfils the condition. -/
def Follows (xs : List (SecContextState cfg)) (Fresh : COwn → Prop) (b : SecContextState cfg) : Prop :=
  b ∈ xs ∨ (∃ a ∈ xs, a.Evolves b) ∨ ∃ id, b.correspondingCown = some id ∧ Fresh id

theorem Follows.mono {Fresh Fresh' : COwn → Prop} (follows : Follows xs Fresh b)
    (weaker : ∀ id, Fresh id → Fresh' id) : Follows xs Fresh' b :=
  follows.imp_right fun follows => follows.imp_right fun ⟨id, named, fresh⟩ => ⟨id, named, weaker id fresh⟩

theorem Pending.Tied.next (tied : p.Tied cfg xs)
    (follows : ∀ b ∈ ys, Follows xs (fun id => p.kept ≠ some id) b) : p.Tied cfg ys := by
  obtain ⟨data, tag⟩ := p
  cases data with
  | inner data => trivial
  | own data =>
    cases data with
    | processedToken response => exact tied
    | edhocOkSend2 cR =>
      obtain ⟨known, responder, same, stages⟩ := tied
      refine ⟨known, responder, same, fun b member named => ?_⟩
      rcases follows b member with member | ⟨a, member, evolves⟩ | ⟨id, given, fresh⟩
      · exact stages b member named
      · obtain ⟨cI, byValue, stage⟩ := stages a member (evolves.cown ▸ named)
        rcases evolves.stage with ⟨context, context', oscore, -⟩ | ⟨waiting, cR', cI', sent⟩
        · rw [stage] at oscore
          cases oscore
        · rw [stage] at sent
          cases sent
      · exact absurd (named.symm.trans given) fresh
    | edhocOscoreRequest kid correlation extracted =>
      obtain ⟨known, keys, same, stages⟩ := tied
      refine ⟨known, keys, same, fun b member named => ?_⟩
      rcases follows b member with member | ⟨a, member, evolves⟩ | ⟨id, given, fresh⟩
      · exact stages b member named
      · obtain ⟨context, stage, keys_⟩ := stages a member (evolves.cown ▸ named)
        rcases evolves.stage with ⟨before, after, oscore, oscore', kept⟩ | ⟨waiting, cR', cI', sent⟩
        · rw [stage] at oscore
          cases oscore
          exact ⟨after, oscore', kept.trans keys_⟩
        · rw [stage] at sent
          cases sent
      · exact absurd (named.symm.trans given) fresh

/-- The context protects the response to a request. -/
def Protects (handler : OscoreEdhocHandler cfg) (response : P.WriteBuffer) (correlation : P.RequestId)
    (extracted : AuthorizationChecked (Except P.ExtractError P.RequestData)) (context : P.Context)
    (response' : P.WriteBuffer) : Prop :=
  ∃ plain context',
    P.plainResponse (P.setCode (P.setCode response Code.changed) Code.changed) context correlation =
      some plain ∧
    P.sealResponse (writeInner cfg handler.inner plain extracted).2 context correlation =
      (context', response', true)

/-- A response goes with its request: message 2 with its message 1, and a protected response with
    the keys that unprotected the request. Other responses are errors without content. -/
def Proper (handler : OscoreEdhocHandler cfg) (response : P.WriteBuffer) (p : Pending P)
    (result : Except (BuildFailure P) P.WriteBuffer) : Prop :=
  match p.data with
  | .own (.edhocOkSend2 cR) => ∃ responder, p.tag = .message1 responder ∧
      ((∃ transfer waiting m, P.prepareMessage2 responder transfer cR.asSlice = some (waiting, m) ∧
        result = orError .message (P.setPayload (P.setCode response Code.changed) m)) ∨
      result = orError .message (P.renderError .badRequest response) ∨
      result = .ok (P.setCode response Code.internalServerError))
  | .own (.edhocOscoreRequest _ correlation extracted) => ∃ context response',
      p.tag = .unprotected (P.immutables context) ∧
      Protects handler response correlation extracted context response' ∧ result = .ok response'
  | _ => True

/-- No request is given an identifier that is left of another one, and a response that is to be
    protected finds a context that can protect it. -/
def Server.Undisturbed (event : ServerEvent P) (server : Server cfg) : Prop :=
  match event with
  | .extract ambient request => ∀ p ∈ server.pending, ∀ id, p.kept = some id →
      server.handler.given ambient request ≠ some id
  | .build i response => ∀ p, server.pending[i]? = some p →
      match p.data with
      | .own (.edhocOscoreRequest kid correlation extracted) =>
        ∃ a ∈ server.handler.pool.entries, ∃ context response', a.correspondingCown = some kid ∧
          a.protocolStage = .oscore context ∧
          Protects server.handler response correlation extracted context response'
      | _ => True

namespace OscoreEdhocHandler

theorem follows_of_forceInsert {new : SecContextState cfg} {evicted : Option (SecContextState cfg)}
    {id : COwn} {Fresh : COwn → Prop} (formed : handler.pool.Formed)
    (list : Recency.forceInsert level maxContexts new handler.pool.toList =
      (handler'.pool.toList, evicted))
    (named : new.correspondingCown = some id) (fresh : Fresh id) :
    ∀ b ∈ handler'.contexts, Follows handler.contexts Fresh b := by
  intro b member
  rcases forceInsert_used formed.ordered (SecContextState.used_of_cown named) list with
    ⟨placed, -⟩ | ⟨all, -, placed, -⟩
  · rw [contexts, placed] at member
    rcases mem_place.mp member with rfl | member
    · exact Or.inr (Or.inr ⟨id, named, fresh⟩)
    · exact Or.inl member
  · rw [contexts, placed] at member
    rcases mem_place.mp member with rfl | member
    · exact Or.inr (Or.inr ⟨id, named, fresh⟩)
    · rw [contexts, all]
      exact Or.inl (List.mem_of_mem_dropLast member)

theorem follows_of_removed {front back : List (SecContextState cfg)} {Fresh : COwn → Prop}
    (member : b ∈ front ++ back) : Follows (front ++ a :: back) Fresh b :=
  Or.inl (remove_sublist.subset member)

theorem prepareUnprotect_evolves (keeps : P.KeepsKeys) {request : Message} {withEdhoc : Bool} {now : Nat}
    {ready : Unprotectable cfg} {context : P.Context}
    (done : prepareUnprotect request withEdhoc now a = .ok ready)
    (same : P.immutables context = P.immutables ready.context) :
    a.Evolves ⟨some ready.authorization, .oscore context⟩ := by
  refine ⟨(prepareUnprotect_continues keeps done same).1, ?_⟩
  obtain ⟨-, ⟨rfl, -⟩ | ⟨responder, cR, cI, message3, stage, -⟩⟩ := prepareUnprotect_ok done
  · exact Or.inl ⟨ready.context, context, rfl, rfl, same⟩
  · exact Or.inr ⟨responder, cR, cI, stage⟩

/-- Entries with a new identifier have the one that the request was given. -/
theorem Extraction.follows (keeps : P.KeepsKeys) {ambient : Ambient P} {request : Message}
    {result : Except (ExtractRequestError P) (RequestData P)} (formed : handler.pool.Formed)
    (extraction : Extraction handler ambient request handler' result) :
    ∀ b ∈ handler'.contexts,
      Follows handler.contexts (fun id => handler.given ambient request = some id) b := by
  cases extraction with
  | refused e => exact fun b member => Or.inl member
  | notAllowed => exact fun b member => Or.inl member
  | plain inner result allowed foreign => exact fun b member => Or.inl member
  | edhoc _ result known recognized done =>
    rcases extractEdhoc_ok formed done with ⟨rfl, -⟩ |
      ⟨responder, cR, state, evicted, started, -, list, -, -⟩
    · exact fun b member => Or.inl member
    · have given_ : handler.given ambient request = some cR := by simp [given, recognized, started]
      obtain ⟨-, -, -, cI, -, byValue, -, -, -, -, rfl⟩ := startHandshake_ok formed started
      exact follows_of_forceInsert formed list rfl given_
  | token _ result known recognized done =>
    rcases extractToken_ok formed done with ⟨rfl, -⟩ |
      ⟨response, context, claims, evicted, processed, -, list, -, -⟩
    · exact fun b member => Or.inl member
    · have given_ : handler.given ambient request = some response.aceServerRecipientid := by
        simp [given, recognized, processed]
      obtain ⟨-, peer, hkdf, secret, salt, idContext, aead, keys, -, derived, rfl⟩ :=
        processAcecborAuthzInfo_ok processed
      have named : (⟨some claims, .oscore (P.newFromFreshMaterial keys)⟩ :
          SecContextState cfg).correspondingCown = some response.aceServerRecipientid := by
        simp [SecContextState.correspondingCown, keeps.fresh, keeps.recipient derived]
      exact follows_of_forceInsert formed list named given_
  | oscore _ option withEdhoc result known done =>
    obtain ⟨-, ⟨same, -⟩ | ⟨option, kid, front, a, back, -, split, -, -, dropped | replaced⟩⟩ :=
      extractOscoreEdhoc_ok formed done
    · exact fun b member => Or.inl (same ▸ member)
    · obtain ⟨e, -, rest, -⟩ := dropped
      rw [rest, split]
      exact fun b => follows_of_removed
    · obtain ⟨ready, context, decrypted, prepared, unprotected, placed, -⟩ := replaced
      have same : P.immutables context = P.immutables ready.context := by
        have same := keeps.unprotect ready.copied option ready.context
        rwa [unprotected] at same
      rw [placed, split]
      intro b member
      rcases mem_place.mp member with rfl | member
      · exact Or.inr (Or.inl ⟨a, by simp, prepareUnprotect_evolves keeps prepared same⟩)
      · exact follows_of_removed member

theorem inserted_mem {new : SecContextState cfg} {evicted : Option (SecContextState cfg)} {id : COwn}
    (formed : handler.pool.Formed)
    (list : Recency.forceInsert level maxContexts new handler.pool.toList =
      (handler'.pool.toList, evicted))
    (named : new.correspondingCown = some id) : new ∈ handler'.contexts := by
  rcases forceInsert_used formed.ordered (SecContextState.used_of_cown named) list with
    ⟨placed, -⟩ | ⟨-, -, placed, -⟩ <;> rw [contexts, placed] <;> exact mem_place.mpr (Or.inl rfl)

theorem tag_of_records {ready : Unprotectable cfg} {inner : Message} {now : Nat}
    {log : List (Record cfg)} (logged : handler.log = ready.records inner now ++ log) :
    handler.tag = .unprotected (P.immutables ready.context) := by
  unfold tag
  rw [logged, Unprotectable.records]
  cases allowed : cfg.requestIsAllowed ready.authorization inner <;> rfl

/-- A new request is tied to what its tag says, and keeps an identifier that it was given or that is
    not that of a handshake before message 2. -/
theorem Extraction.pending (keeps : P.KeepsKeys) {ambient : Ambient P} {request : Message}
    {result : Except (ExtractRequestError P) (RequestData P)} {data : RequestData P}
    (formed : handler.pool.Formed) (identified : Identified handler'.contexts)
    (extraction : Extraction handler ambient request handler' result) (ok : result = .ok data) :
    (⟨data, handler'.tag⟩ : Pending P).Tied cfg handler'.contexts ∧
    (∀ id, (⟨data, handler'.tag⟩ : Pending P).awaits = some id →
      handler.given ambient request = some id) ∧
    ∀ id, (⟨data, handler'.tag⟩ : Pending P).kept = some id →
      handler.given ambient request = some id ∨
      ∃ a ∈ handler.contexts, a.correspondingCown = some id ∧
        ∀ responder cR cI byValue, a.protocolStage ≠ .edhocResponderProcessedM1 responder cR cI byValue := by
  cases extraction with
  | refused e => cases ok
  | notAllowed =>
    cases ok
    exact ⟨trivial, fun id => (nomatch ·), fun id => (nomatch ·)⟩
  | plain inner result allowed foreign =>
    cases data with
    | own data => exact absurd ok (foreign data)
    | inner data => exact ⟨trivial, fun id => (nomatch ·), fun id => (nomatch ·)⟩
  | edhoc _ result known recognized done =>
    rcases extractEdhoc_ok formed done with ⟨-, e, rfl⟩ |
      ⟨responder, cR, state, evicted, started, -, list, logged, rfl⟩
    · cases ok
    · have given_ : handler.given ambient request = some cR := by simp [given, recognized, started]
      obtain ⟨-, -, -, cI, -, byValue, -, -, -, -, rfl⟩ := startHandshake_ok formed started
      cases ok
      have tag_ : handler'.tag = .message1 responder := by
        rw [tag, logged]
        rfl
      refine ⟨⟨known, responder, tag_, fun a member named => ?_⟩, fun id same => ?_,
        fun id same => Or.inl ?_⟩
      · have new := identified.eq_of_cown member (inserted_mem formed list rfl) named
        exact ⟨cI, byValue, by rw [new]⟩
      · exact given_.trans same
      · exact given_.trans same
  | token _ result known recognized done =>
    cases result with
    | error e => cases ok
    | ok response =>
      cases ok
      exact ⟨known, fun id => (nomatch ·), fun id => (nomatch ·)⟩
  | oscore _ option withEdhoc result known done =>
    obtain ⟨-, ⟨-, -, ⟨e, rfl⟩, -⟩ | ⟨option, kid, front, a, back, -, split, -, named, dropped | replaced⟩⟩ :=
      extractOscoreEdhoc_ok formed done
    · cases ok
    · obtain ⟨e, -, -, -, rfl⟩ := dropped
      cases ok
    · obtain ⟨ready, context, decrypted, prepared, unprotected, placed,
        ⟨-, -, rfl⟩ | ⟨correlation, inner, extracted, -, logged, rfl⟩⟩ := replaced
      · cases ok
      · cases ok
        have same : P.immutables context = P.immutables ready.context := by
          have same := keeps.unprotect ready.copied option ready.context
          rwa [unprotected] at same
        have evolves := prepareUnprotect_evolves keeps prepared same
        refine ⟨⟨known, _, tag_of_records logged, fun b member named' => ?_⟩, fun id => (nomatch ·),
          fun id same => Or.inr ⟨a, by simp [split], named.trans same, ?_⟩⟩
        · have here : ⟨some ready.authorization, .oscore context⟩ ∈ handler'.contexts := by
            rw [placed]
            exact mem_place.mpr (Or.inl rfl)
          have new := identified.eq_of_cown member here (named'.trans (evolves.cown.trans named).symm)
          exact ⟨context, by rw [new], same⟩
        · intro responder cR cI byValue stage
          rcases evolves.stage with ⟨before, after, oscore, -⟩ | ⟨waiting, cR', cI', sent⟩
          · rw [stage] at oscore
            cases oscore
          · rw [stage] at sent
            cases sent

/-- Message 2 of a handshake that is still there can be built. -/
theorem buildEdhocMessage2_returns (response : P.WriteBuffer) {cR : COwn} {responder : P.ProcessedM1}
    (formed : handler.pool.Formed)
    (stages : ∀ a ∈ handler.contexts, a.correspondingCown = some cR →
      ∃ cI byValue, a.protocolStage = .edhocResponderProcessedM1 responder cR cI byValue) :
    ∃ next result, handler.buildEdhocMessage2 response cR = .ok (next, result) := by
  obtain ⟨pool, looked, -⟩ := Represents.lookup formed SecContextState.level_lt
    (·.correspondingCown = some cR) (sendMessage2 cR)
  unfold buildEdhocMessage2
  rw [looked, ok_bind]
  rcases use_used (sendMessage2 cR) formed.ordered with ⟨-, same⟩ |
    ⟨front, a, back, split, -, named, ys, used_, -⟩
  · rw [same]
    exact ⟨_, _, rfl⟩
  · rw [used_]
    have here : a ∈ handler.contexts := by
      rw [contexts, split]
      exact List.mem_append_cons_self
    obtain ⟨cI, byValue, stage⟩ := stages a here named
    obtain ⟨authorization, stage'⟩ := a
    cases stage
    simp only [sendMessage2, ne_eq, not_true_eq_false, ↓reduceIte]
    cases P.prepareMessage2 responder (if byValue then .byValue else .byReference) cR.asSlice with
    | none => exact ⟨_, _, rfl⟩
    | some prepared => exact ⟨_, _, rfl⟩

theorem buildOscoreResponse_returns (response : P.WriteBuffer) (kid : COwn) (correlation : P.RequestId)
    (extracted : AuthorizationChecked (Except P.ExtractError P.RequestData))
    (formed : handler.pool.Formed) :
    ∃ next result, handler.buildOscoreResponse response kid correlation extracted =
      .ok (next, result) := by
  obtain ⟨pool, looked, -⟩ := Represents.lookup formed SecContextState.level_lt
    (·.correspondingCown = some kid)
    (protectResponse handler.inner (P.setCode response Code.changed) correlation extracted)
  unfold buildOscoreResponse
  simp only [looked, ok_bind]
  split <;> exact ⟨_, _, rfl⟩

/-- Building message 2 changes no entry but that of the handshake. -/
theorem buildEdhocMessage2_follows {response : P.WriteBuffer} {cR : COwn}
    {result : Except (BuildFailure P) P.WriteBuffer} (formed : handler.pool.Formed)
    (done : handler.buildEdhocMessage2 response cR = .ok (handler', result)) :
    ∀ b ∈ handler'.contexts, Follows handler.contexts (· = cR) b := by
  obtain ⟨-, -, ⟨same, -⟩ | ⟨front, a, back, responder, cI, byValue, split, stage,
    ⟨-, rest, -⟩ | ⟨waiting, m, -, placed, -⟩⟩⟩ := buildEdhocMessage2_ok formed done
  · exact fun b member => Or.inl (same ▸ member)
  · rw [rest, split]
    exact fun b => follows_of_removed
  · rw [placed, split]
    intro b member
    rcases mem_place.mp member with rfl | member
    · exact Or.inr (Or.inr ⟨cR, rfl, rfl⟩)
    · exact follows_of_removed member

theorem buildOscoreResponse_follows (keeps : P.KeepsKeys) {response : P.WriteBuffer} {kid : COwn}
    {correlation : P.RequestId}
    {extracted : AuthorizationChecked (Except P.ExtractError P.RequestData)}
    {result : Except (BuildFailure P) P.WriteBuffer} (formed : handler.pool.Formed)
    (done : handler.buildOscoreResponse response kid correlation extracted = .ok (handler', result)) :
    ∀ b ∈ handler'.contexts, Follows handler.contexts (fun _ => False) b := by
  obtain ⟨-, -, ⟨same, -⟩ | ⟨front, a, back, split, -, -, protected_ | ⟨-, placed, -⟩⟩⟩ :=
    buildOscoreResponse_ok formed done
  · exact fun b member => Or.inl (same ▸ member)
  · obtain ⟨context, context', response', stage, protected_, placed, -⟩ := protected_
    rw [placed, split]
    intro b member
    rcases mem_place.mp member with rfl | member
    · have keys := protected_.immutables keeps
      refine Or.inr (Or.inl ⟨a, by simp, ?_, Or.inl ⟨context, context', stage, rfl, keys⟩⟩)
      simp [SecContextState.correspondingCown, stage, keys]
    · exact follows_of_removed member
  · rw [placed, split]
    intro b member
    rcases mem_place.mp member with rfl | member
    · exact Or.inl (by simp)
    · exact follows_of_removed member

/-- A response that is built for a request goes with it. -/
theorem buildResponse_proper (formed : handler.pool.Formed) (identified : Identified handler.contexts)
    (tied : p.Tied cfg handler.contexts) {response : P.WriteBuffer}
    (protectable : ∀ kid correlation extracted,
      p.data = .own (.edhocOscoreRequest kid correlation extracted) →
        ∃ a ∈ handler.pool.entries, ∃ context response', a.correspondingCown = some kid ∧
          a.protocolStage = .oscore context ∧
          Protects handler response correlation extracted context response') :
    ∃ next result, handler.buildResponse response p.data = .ok (next, result) ∧
      Proper handler response p result := by
  obtain ⟨data, tag⟩ := p
  cases data with
  | inner data =>
    cases data <;> simp only [buildResponse] <;> split <;> exact ⟨_, _, rfl, trivial⟩
  | own data =>
    cases data with
    | processedToken token =>
      have known : cfg.parsesTokens = true := tied
      simp only [buildResponse, known, not_true_eq_false, ↓reduceIte]
      exact ⟨_, _, rfl, trivial⟩
    | edhocOkSend2 cR =>
      obtain ⟨known, responder, same, stages⟩ := tied
      obtain ⟨next, result, done⟩ := buildEdhocMessage2_returns response formed stages
      refine ⟨next, result, by simp [buildResponse, known, done], responder, same, ?_⟩
      obtain ⟨-, -, ⟨-, -, rfl⟩ | ⟨front, a, back, responder', cI, byValue, split, stage,
        ⟨-, -, rfl⟩ | ⟨waiting, m, prepared, -, rfl⟩⟩⟩ := buildEdhocMessage2_ok formed done
      · exact Or.inr (Or.inr rfl)
      · exact Or.inr (Or.inl rfl)
      · have named : a.correspondingCown = some cR := by simp [SecContextState.correspondingCown, stage]
        obtain ⟨cI', byValue', stage'⟩ := stages a (by simp [split]) named
        rw [stage, SecContextStage.edhocResponderProcessedM1.injEq] at stage'
        obtain ⟨rfl, -⟩ := stage'
        exact Or.inl ⟨_, waiting, m, prepared, rfl⟩
    | edhocOscoreRequest kid correlation extracted =>
      obtain ⟨known, keys, same, stages⟩ := tied
      obtain ⟨next, result, done⟩ :=
        buildOscoreResponse_returns response kid correlation extracted formed
      refine ⟨next, result, by simp [buildResponse, known, done], ?_⟩
      obtain ⟨a, here, context, response', named, stage, plain, context', view, sealed⟩ :=
        protectable kid correlation extracted rfl
      have here : a ∈ handler.contexts :=
        mem_used.mpr ⟨formed.mem_entries.mp here, SecContextState.used_of_cown named⟩
      obtain ⟨context'', stage'', keys_⟩ := stages a here named
      rw [stage, SecContextStage.oscore.injEq] at stage''
      subst stage''
      refine ⟨context, response', by rw [keys_]; exact same, ⟨plain, context', view, sealed⟩, ?_⟩
      obtain ⟨-, -, ⟨-, missing, -⟩ | ⟨front, b, back, split, -, named', outcome⟩⟩ :=
        buildOscoreResponse_ok formed done
      · exact absurd named (missing a here)
      have found : b = a := identified.eq_of_cown (by simp [split]) here (named'.trans named.symm)
      subst found
      obtain ⟨context₁, context₂, response₂, stage₁, protected_, -, rfl⟩ | ⟨other, -⟩ := outcome
      · rw [stage, SecContextStage.oscore.injEq] at stage₁
        subst stage₁
        obtain ⟨none_, -⟩ | ⟨plain₂, protected₂, view₂, sealed₂⟩ := protected_.either
        · rw [view] at none_
          cases none_
        · rw [view, Option.some.injEq] at view₂
          subst view₂
          rw [sealed, Prod.mk.injEq, Prod.mk.injEq] at sealed₂
          rw [sealed₂.2.1]
      · exact absurd stage (other context)

/-- A response gives its own identifier, at most, to another entry. -/
theorem buildResponse_follows (keeps : P.KeepsKeys) {response : P.WriteBuffer}
    {result : Except (BuildFailure P) P.WriteBuffer} (formed : handler.pool.Formed)
    (done : handler.buildResponse response p.data = .ok (handler', result)) :
    ∀ b ∈ handler'.contexts, Follows handler.contexts (fun id => p.awaits = some id) b := by
  obtain ⟨data, tag⟩ := p
  cases data with
  | own data =>
    cases data with
    | edhocOkSend2 cR =>
      simp only [buildResponse] at done
      split at done
      · cases done
      · intro b member
        refine (buildEdhocMessage2_follows formed done b member).mono ?_
        rintro id rfl
        rfl
    | edhocOscoreRequest kid correlation extracted =>
      simp only [buildResponse] at done
      split at done
      · cases done
      · exact fun b member =>
          (buildOscoreResponse_follows keeps formed done b member).mono fun id => False.elim
    | processedToken token =>
      simp only [buildResponse] at done
      split at done
      · cases done
      · cases done
        exact fun b member => Or.inl member
  | inner data =>
    cases data <;> simp only [buildResponse] at done <;> split at done <;> cases done <;>
      exact fun b member => Or.inl member

end OscoreEdhocHandler

/-- Neither request keeps the identifier of the other one's handshake. -/
def Pending.Apart (p q : Pending P) : Prop :=
  ∀ id, (p.awaits = some id → q.kept ≠ some id) ∧ (q.awaits = some id → p.kept ≠ some id)

theorem Pending.Apart.symm (apart : p.Apart q) : q.Apart p := fun id => (apart id).symm

theorem Pending.Tied.of_awaits {id : COwn} (tied : p.Tied cfg xs) (awaits : p.awaits = some id)
    (here : a ∈ xs) (named : a.correspondingCown = some id) :
    ∃ responder cI byValue, a.protocolStage = .edhocResponderProcessedM1 responder id cI byValue := by
  obtain ⟨data, tag⟩ := p
  cases data with
  | inner data => cases awaits
  | own data =>
    cases data with
    | edhocOkSend2 cR =>
      cases awaits
      obtain ⟨-, responder, -, stages⟩ := tied
      exact ⟨responder, stages a here named⟩
    | edhocOscoreRequest kid correlation extracted => cases awaits
    | processedToken token => cases awaits

structure Server.Consistent (server : Server cfg) : Prop where
  formed : server.handler.pool.Formed
  identified : Identified server.handler.contexts
  tied : ∀ p ∈ server.pending, p.Tied cfg server.handler.contexts
  apart : server.pending.Pairwise Pending.Apart

theorem Server.Consistent.build {server : Server cfg} {i : Nat} (consistent : server.Consistent)
    (here : server.pending[i]? = some p) (formed : handler'.pool.Formed)
    (identified : Identified handler'.contexts)
    (follows : ∀ b ∈ handler'.contexts,
      Follows server.handler.contexts (fun id => p.awaits = some id) b) :
    Server.Consistent { handler := handler', pending := server.pending.eraseIdx i } := by
  obtain ⟨inside, rfl⟩ := List.getElem?_eq_some_iff.mp here
  have perm := List.getElem_cons_eraseIdx_perm inside
  have apart := (perm.pairwise_iff Pending.Apart.symm).mpr consistent.apart
  obtain ⟨others, rest⟩ := List.pairwise_cons.mp apart
  refine ⟨formed, identified, fun q member => ?_, rest⟩
  refine (consistent.tied q (List.mem_of_mem_eraseIdx member)).next fun b member' => ?_
  exact (follows b member').mono fun id awaits => (others q member id).1 awaits

theorem Server.Consistent.extract {server : Server cfg} (keeps : P.KeepsKeys) {ambient : Ambient P}
    {request : Message} {result : Except (ExtractRequestError P) (RequestData P)}
    (consistent : server.Consistent)
    (undisturbed : Server.Undisturbed (.extract ambient request) server)
    (extraction : Extraction server.handler ambient request handler' result) :
    Server.Consistent { server with handler := handler' } ∧
    ∀ data, result = .ok data → Server.Consistent
      { handler := handler', pending := server.pending ++ [⟨data, handler'.tag⟩] } := by
  obtain ⟨formed, turnover⟩ := extraction.turnover keeps consistent.formed
  have identified := turnover.identified consistent.identified
  have tied : ∀ p ∈ server.pending, p.Tied cfg handler'.contexts := by
    intro p member
    refine (consistent.tied p member).next fun b member' => ?_
    refine (extraction.follows keeps consistent.formed b member').mono fun id given_ kept => ?_
    exact undisturbed p member id kept given_
  refine ⟨⟨formed, identified, tied, consistent.apart⟩, fun data ok => ?_⟩
  obtain ⟨tied', awaits', kept'⟩ := extraction.pending keeps consistent.formed identified ok
  refine ⟨formed, identified, fun p member => ?_, List.pairwise_append.mpr
    ⟨consistent.apart, List.pairwise_singleton _ _, fun p member q new => ?_⟩⟩
  · rcases List.mem_append.mp member with member | member
    · exact tied p member
    · rwa [List.mem_singleton.mp member]
  · rw [List.mem_singleton.mp new]
    intro id
    refine ⟨fun awaits kept => ?_, fun awaits kept => undisturbed p member id kept (awaits' id awaits)⟩
    rcases kept' id kept with given_ | ⟨a, here, named, other⟩
    · exact undisturbed p member id (Pending.kept_of_awaits awaits) given_
    · obtain ⟨responder, cI, byValue, stage⟩ :=
        (consistent.tied p member).of_awaits awaits here named
      exact other responder id cI byValue stage

theorem Server.Consistent.run (keeps : P.KeepsKeys) {event : ServerEvent P} {server server' : Server cfg}
    (consistent : server.Consistent) (undisturbed : Server.Undisturbed event server)
    (done : Server.run event server = .ok server') : server'.Consistent := by
  cases event with
  | extract ambient request =>
    obtain ⟨⟨handler, result⟩, extracted, done⟩ := bind_ok_iff.mp done
    obtain ⟨refused, accepted⟩ :=
      consistent.extract keeps undisturbed (extractRequestData_cases extracted)
    dsimp only at done
    split at done
    · cases done
      exact accepted _ rfl
    · cases done
      exact refused
  | build i response =>
    simp only [Server.run] at done
    split at done
    · cases done
      exact consistent
    · rename_i p here
      obtain ⟨⟨handler, result⟩, built, done⟩ := bind_ok_iff.mp done
      cases done
      obtain ⟨formed, turnover⟩ := buildResponse_turnover keeps consistent.formed built
      exact consistent.build here formed (turnover.identified consistent.identified)
        (buildResponse_follows keeps consistent.formed built)

theorem Server.new_consistent {inner : P.Inner} {start : Server cfg}
    (started : Server.new inner = .ok start) : start.Consistent := by
  obtain ⟨handler, made, started⟩ := bind_ok_iff.mp started
  cases started
  obtain ⟨formed, none_, -⟩ := new_contexts made
  refine ⟨formed, ?_, by simp, List.Pairwise.nil⟩
  rw [none_]
  exact ⟨List.nodup_nil, by simp⟩

/-- In undisturbed runs, responses are built without a panic and go with their requests. -/
theorem responses_tied (keeps : P.KeepsKeys) {inner : P.Inner} {start server : Server cfg}
    (started : Server.new inner = .ok start)
    (reached : Reaches Server.run Server.Undisturbed start server) {i : Nat} {response : P.WriteBuffer}
    (here : server.pending[i]? = some p) (undisturbed : Server.Undisturbed (.build i response) server) :
    ∃ next result, server.handler.buildResponse response p.data = .ok (next, result) ∧
      Proper server.handler response p result := by
  have consistent := reached.invariant Server.Consistent (Server.new_consistent started)
    fun server event server' consistent undisturbed done => consistent.run keeps undisturbed done
  refine buildResponse_proper consistent.formed consistent.identified
    (consistent.tied p (List.mem_of_getElem? here)) fun kid correlation extracted same => ?_
  have protectable := undisturbed p here
  rwa [same] at protectable

/-- A request in the context of a token, and its response. -/
theorem responses_tied_sample : ∃ (server : Server .clear) (p : Pending .clear),
    server.pending[1]? = some p ∧ p.tag = .unprotected Clear.keys ∧
      ∃ next result, server.handler.buildResponse Clear.response p.data = .ok (next, result) ∧
        Proper server.handler Clear.response p result := by
  have started : (Server.new () : Except Panic (Server .clear)) = .ok ⟨Clear.start, []⟩ := rfl
  let token : Pending .clear := ⟨.own (.processedToken ⟨[], ⟨0, by decide⟩⟩), .other⟩
  have first : Reaches Server.run Server.Undisturbed ⟨Clear.start, []⟩ ⟨Clear.known, [token]⟩ :=
    .next (.extract Clear.ambient (Clear.token 1)) .init (fun p member => nomatch member) rfl
  have undisturbed : Server.Undisturbed (.extract Clear.ambient (Clear.request 0 [1, 9]))
      ⟨Clear.known, [token]⟩ := by
    intro p member id kept
    cases List.mem_singleton.mp member
    cases kept
  let inner : Message := { code := Code.post, options := [], payload := [9] }
  let handler : OscoreEdhocHandler .clear := {
    pool := { entries := [.default, ⟨some false, .oscore (Clear.keys, 0)⟩], sorted := [1, 0] }
    inner := ()
    log := .called inner :: .unprotected (Clear.keys, 0) false inner 0 true :: Clear.known.log }
  let request : Pending .clear := ⟨.own (.edhocOscoreRequest ⟨0, by decide⟩ (0 : Nat)
    (.allowed (.ok ([9] : Bytes)))), .unprotected Clear.keys⟩
  have second : Reaches Server.run Server.Undisturbed ⟨Clear.start, []⟩ ⟨handler, [token, request]⟩ :=
    first.next (.extract Clear.ambient (Clear.request 0 [1, 9])) undisturbed rfl
  have here : (⟨handler, [token, request]⟩ : Server .clear).pending[1]? = some request := rfl
  refine ⟨⟨handler, [token, request]⟩, request, here, rfl,
    responses_tied Platform.clear_keepsKeys started second here ?_⟩
  intro p here
  cases here
  exact ⟨⟨some false, .oscore (Clear.keys, 0)⟩, List.mem_cons_of_mem _ List.mem_cons_self,
    (Clear.keys, 0), _, rfl, rfl, _, _, rfl, rfl⟩

/-- Message 1 of an outstanding request, and the payload of its response or the panic. -/
def Clear.answer (server : Server .clear) (i : Nat) : Option (Bytes × Except Panic Bytes) := do
  let p ← server.pending[i]?
  match p.tag, server.handler.buildResponse Clear.response p.data with
  | .message1 message1, .ok (_, .ok response) => return (message1, .ok (Message.payload response))
  | .message1 message1, .error panic => return (message1, .error panic)
  | _, _ => none

/-- Five handshakes later, the identifier of the first one stands for the sixth: the response to the
    first message 1 answers the sixth, and the response to this one panics. -/
theorem responses_mixed_up : ∃ server server' : Server .clear,
    Reachable Server.run ⟨Clear.start, []⟩ server ∧
      Server.run (.build 0 Clear.response) server = .ok server' ∧
      Clear.answer server 0 = some ([10], .ok [0, 15]) ∧
      Clear.answer server' 4 = some ([15], .error .notImplemented) := by
  let message1 (cI : UInt8) : ServerEvent .clear := .extract Clear.ambient (Clear.message1 cI)
  obtain ⟨server, reached, check⟩ : ∃ server : Server .clear,
      Reachable Server.run ⟨Clear.start, []⟩ server ∧
        (match Server.run (.build 0 Clear.response) server with
        | .ok server' => decide (Clear.answer server 0 = some ([10], .ok [0, 15]) ∧
            Clear.answer server' 4 = some ([15], .error .notImplemented))
        | .error _ => false) = true :=
    reaches_of_check ([10, 11, 12, 13, 14, 15].map message1) (by decide)
  split at check
  · rename_i server' built
    exact ⟨server, server', reached, built, of_decide_eq_true check⟩
  · cases check

end ArielOS.Coapcore
