import ArielOS.Coapcore.Contexts

namespace ArielOS.Coapcore

open Machine OrderedPool Recency

section Exits

variable {E α : Type}

@[simp] theorem mayFail_ok {x : Except E α} {a : α} : mayFail x = .ok a ↔ x = .ok a := by
  cases x <;> simp [mayFail]

@[simp] theorem mayPanic_ok {x : Except Panic α} {a : α} :
    (mayPanic x : Except (Exit E) α) = .ok a ↔ x = .ok a := by
  cases x <;> simp [mayPanic]

theorem mayPanic_ne_error {x : Except Panic α} {e : E} : mayPanic x ≠ .error (.error e) := by
  cases x <;> simp [mayPanic]

@[simp] theorem orError_ok {error : E} {x : Option α} {a : α} :
    orError error x = .ok a ↔ x = some a := by
  cases x <;> simp [orError]

theorem mayFail_orError {error : E} {x : Option α} {exit : Exit E}
    (failed : mayFail (orError error x) = .error exit) : x = none ∧ ∃ e, exit = .error e := by
  cases x with
  | none =>
    cases failed
    exact ⟨rfl, error, rfl⟩
  | some a => cases failed

end Exits

variable {P : Platform} {cfg : ServerSecurityConfig P}

/-- The identifier of the peer. -/
def SecContextState.peerId (state : SecContextState cfg) : Bytes :=
  match state.protocolStage with
  | .empty => []
  | .edhocResponderProcessedM1 _ _ cI _ | .edhocResponderSentM2 _ _ cI => cI
  | .oscore context => P.senderId (P.immutables context)

/-- An identifier that no entry in use has, nor the peer. -/
def Free (id : COwn) (peer : Bytes) (xs : List (SecContextState cfg)) : Prop :=
  (∀ a ∈ used xs, a.correspondingCown ≠ some id) ∧ COwn.fromKid peer ≠ some id

theorem cownButNot_ok {pool : SecContextPool cfg} {cPeer : Bytes} {id : COwn}
    (formed : pool.Formed) (found : cownButNot pool cPeer = .ok id) : Free id cPeer pool.toList := by
  have free := COwn.notInIter_free found
  rw [List.mem_append, not_or] at free
  refine ⟨fun a member named => free.1 (List.mem_filterMap.mpr ⟨a, ?_, named⟩), fun same => ?_⟩
  · exact formed.mem_entries.mpr (mem_used.mp member).1
  · exact free.2 (by simp [same])

/-- A pool is too small for the identifiers to run out. -/
theorem cownButNot_total {pool : SecContextPool cfg} (formed : pool.Formed) (cPeer : Bytes) :
    ∃ id, cownButNot pool cPeer = .ok id := by
  have peer : (COwn.fromKid cPeer).toList.length ≤ 1 := by
    cases COwn.fromKid cPeer with
    | none => exact Nat.zero_le 1
    | some id => exact Nat.le_refl 1
  have entries : pool.entries.length ≤ 4 := formed.bound
  apply COwn.notInIter_total
  · rw [List.length_append]
    exact Nat.add_le_add_right (List.length_filterMap_le _ _) _
  · exact Nat.lt_of_le_of_lt (Nat.add_le_add entries peer) (by decide)

/-- The claims that a token or a configured credential gives to the peer of a handshake, with the
    credential. -/
def Credits (cfg : ServerSecurityConfig P) (ead3 : Option EADItem) (idCredI : P.IdCred)
    (credI : P.Credential) (claims : cfg.Claims) : Prop :=
  (∃ item value, ead3 = some item ∧ item.label = EdhocEad.acetoken ∧ item.value = some value ∧
    processEdhocToken cfg value = .ok (credI, claims)) ∨
  cfg.expandIdCredX idCredI = some (credI, claims)

/-- The key material that comes from the origin, together with the claims. -/
def Origin.Yields (keys : P.Immutables) (claims : cfg.Claims) : Origin P → Prop
  | .token payload nonce2 id => ∃ response context,
      processAcecborAuthzInfo cfg payload nonce2 (fun _ => .ok id) = .ok (response, context, claims) ∧
        P.immutables context = keys
  | .handshake responder cR cI message3 => ∃ processing idCredI ead3 credI processed completed,
      P.parseMessage3 responder message3 = some (processing, idCredI, ead3) ∧
      Credits cfg ead3 idCredI credI claims ∧
      P.verifyMessage3 processing credI = some processed ∧
      P.completedWithoutMessage4 processed = some completed ∧
      ∃ hkdf aead derived, P.derive hkdf ((P.edhocExporter completed 0 [] 16).2.take 16)
        ((P.edhocExporter (P.edhocExporter completed 0 [] 16).1 1 [] 8).2.take 8) none aead cI
        cR.asSlice = some derived ∧ P.immutables (P.newFromFreshMaterial derived) = keys

theorem derive_ok {material : OscoreInputMaterial} {nonce1 nonce2 senderId recipientId : Bytes}
    {context : P.Context}
    (derived : material.derive P nonce1 nonce2 senderId recipientId = .ok context) :
    ∃ hkdf secret salt idContext aead keys, P.derive hkdf secret salt idContext aead senderId
      recipientId = some keys ∧ context = P.newFromFreshMaterial keys := by
  obtain ⟨hkdf, -, derived⟩ := bind_ok_iff.mp derived
  obtain ⟨aead, -, derived⟩ := bind_ok_iff.mp derived
  obtain ⟨salt, -, derived⟩ := bind_ok_iff.mp derived
  obtain ⟨keys, made, derived⟩ := bind_ok_iff.mp derived
  cases derived
  exact ⟨hkdf, _, salt, none, aead, keys, orError_ok.mp made, rfl⟩

/-- The context of a token was derived with the peer's identifier and the one that was chosen. -/
theorem processAcecborAuthzInfo_ok {payload nonce2 : Bytes} {choose : Bytes → Except Panic COwn}
    {response : AceCborAuthzInfoResponse} {context : P.Context} {claims : cfg.Claims}
    (done : processAcecborAuthzInfo cfg payload nonce2 choose = .ok (response, context, claims)) :
    processAcecborAuthzInfo cfg payload nonce2 (fun _ => .ok response.aceServerRecipientid) =
      .ok (response, context, claims) ∧
    ∃ peer hkdf secret salt idContext aead keys, choose peer = .ok response.aceServerRecipientid ∧
      P.derive hkdf secret salt idContext aead peer response.aceServerRecipientid.asSlice =
        some keys ∧ context = P.newFromFreshMaterial keys := by
  obtain ⟨⟨nonce1, peer, osc, processed⟩, decrypted, done⟩ := bind_ok_iff.mp done
  obtain ⟨id, chosen, done⟩ := bind_ok_iff.mp done
  obtain ⟨derived, made, done⟩ := bind_ok_iff.mp done
  cases done
  rw [mayPanic_ok] at chosen
  obtain ⟨hkdf, secret, salt, idContext, aead, keys, from_, fresh⟩ := derive_ok (mayFail_ok.mp made)
  refine ⟨?_, peer, hkdf, secret, salt, idContext, aead, keys, chosen, from_, fresh⟩
  simp only [processAcecborAuthzInfo, decrypted, ok_bind, mayPanic, made, pure_eq_ok]

namespace OscoreEdhocHandler

variable {handler handler' : OscoreEdhocHandler cfg}

/-- The entries in use. -/
def contexts (handler : OscoreEdhocHandler cfg) : List (SecContextState cfg) :=
  used handler.pool.toList

theorem startHandshake_ok {pool : SecContextPool cfg} {crypto : P.Crypto} {request : Message}
    {responder : P.ProcessedM1} {cR : COwn} {state : SecContextState cfg} (formed : pool.Formed)
    (done : startHandshake pool crypto request = .ok (responder, cR, state)) :
    ∃ credential key edhocM1 cI ead1 byValue, cfg.ownEdhocCredential = some (credential, key) ∧
      request.payload = 0xf5 :: edhocM1 ∧
      P.processMessage1 crypto credential key edhocM1 = some (responder, cI, ead1) ∧
      Free cR cI pool.toList ∧
      state = ⟨cfg.nosecAuthorization, .edhocResponderProcessedM1 responder cR cI byValue⟩ := by
  obtain ⟨⟨credential, key⟩, identity, done⟩ := bind_ok_iff.mp done
  dsimp only at done
  split at done
  · cases done
  · rename_i firstByte edhocM1 payload
    split at done
    · cases done
    · rename_i starts
      split at done
      · cases done
      · obtain ⟨⟨responder, cI, ead1⟩, processed, done⟩ := bind_ok_iff.mp done
        dsimp only at done
        split at done
        · cases done
        · obtain ⟨cR, free, done⟩ := bind_ok_iff.mp done
          cases done
          rw [mayFail_ok, orError_ok] at identity processed
          rw [mayPanic_ok] at free
          rw [not_not.mp starts] at payload
          exact ⟨credential, key, edhocM1, cI, ead1, _, identity, payload, processed,
            cownButNot_ok formed free, rfl⟩

theorem extractEdhoc_ok {crypto : P.Crypto} {request : Message}
    {result : Except CoapError (OwnRequestData P)} (formed : handler.pool.Formed)
    (done : handler.extractEdhoc crypto request = .ok (handler', result)) :
    (handler' = handler ∧ ∃ e, result = .error e) ∨
    ∃ responder cR state evicted,
      startHandshake handler.pool crypto request = .ok (responder, cR, state) ∧
      handler'.pool.Formed ∧
      Recency.forceInsert level maxContexts state handler.pool.toList =
        (handler'.pool.toList, evicted) ∧
      handler'.log = .started cR responder :: handler.log ∧ result = .ok (.edhocOkSend2 cR) := by
  unfold extractEdhoc at done
  split at done
  · cases done
  · cases done
    exact Or.inl ⟨rfl, _, rfl⟩
  · rename_i responder cR state started
    obtain ⟨⟨pool, evicted⟩, inserted, done⟩ := bind_ok_iff.mp done
    cases done
    obtain ⟨formed', list⟩ := formed.forceInsert SecContextState.level_lt (by decide) (by decide) inserted
    exact Or.inr ⟨responder, cR, state, evicted, started, formed', list, rfl, rfl⟩

def transfer (byValue : Bool) : CredentialTransfer := if byValue then .byValue else .byReference

theorem sendMessage2_ok {cR : COwn} {a : SecContextState cfg} {message2 : Option Bytes}
    (sent : (sendMessage2 cR a).2 = .ok message2) : ∃ responder cI byValue,
      a.protocolStage = .edhocResponderProcessedM1 responder cR cI byValue ∧
      ((P.prepareMessage2 responder (transfer byValue) cR.asSlice = none ∧ message2 = none ∧
        (sendMessage2 cR a).1 = .default) ∨
      ∃ waiting m, P.prepareMessage2 responder (transfer byValue) cR.asSlice = some (waiting, m) ∧
        message2 = some m ∧
        (sendMessage2 cR a).1 = ⟨a.authorization, .edhocResponderSentM2 waiting cR cI⟩) := by
  obtain ⟨authorization, stage⟩ := a
  cases stage with
  | edhocResponderProcessedM1 responder matchedCR cI byValue =>
    by_cases same : matchedCR = cR
    · subst same
      refine ⟨responder, cI, byValue, rfl, ?_⟩
      simp only [sendMessage2, ne_eq, not_true_eq_false, ↓reduceIte] at sent ⊢
      cases prepared : P.prepareMessage2 responder (transfer byValue) matchedCR.asSlice with
      | none =>
        rw [transfer] at prepared
        rw [prepared] at sent ⊢
        cases sent
        exact Or.inl ⟨rfl, rfl, rfl⟩
      | some prepared_ =>
        obtain ⟨waiting, m⟩ := prepared_
        rw [transfer] at prepared
        rw [prepared] at sent ⊢
        cases sent
        exact Or.inr ⟨waiting, m, rfl, rfl, rfl⟩
    · simp [sendMessage2, same] at sent
  | _ => cases sent

/-- Message 2 answers the handshake that the identifier stands for, if it is still there. -/
theorem buildEdhocMessage2_ok {response : P.WriteBuffer} {cR : COwn}
    {result : Except (BuildFailure P) P.WriteBuffer} (formed : handler.pool.Formed)
    (done : handler.buildEdhocMessage2 response cR = .ok (handler', result)) :
    handler'.pool.Formed ∧ handler'.log = handler.log ∧
    ((handler'.contexts = handler.contexts ∧
      (∀ a ∈ handler.contexts, a.correspondingCown ≠ some cR) ∧
      result = .ok (P.setCode response Code.internalServerError)) ∨
    ∃ front a back responder cI byValue, handler.contexts = front ++ a :: back ∧
      a.protocolStage = .edhocResponderProcessedM1 responder cR cI byValue ∧
      ((P.prepareMessage2 responder (transfer byValue) cR.asSlice = none ∧
        handler'.contexts = front ++ back ∧
        result = orError .message (P.renderError .badRequest response)) ∨
      ∃ waiting m, P.prepareMessage2 responder (transfer byValue) cR.asSlice = some (waiting, m) ∧
        handler'.contexts = place level ⟨a.authorization, .edhocResponderSentM2 waiting cR cI⟩
          (front ++ back) ∧
        result = orError .message (P.setPayload (P.setCode response Code.changed) m))) := by
  obtain ⟨⟨pool, message2⟩, looked, done⟩ := bind_ok_iff.mp done
  obtain ⟨formed', ⟨missing, same, rfl⟩ | ⟨front, a, back, split_, -, -, rfl, -, contexts_⟩⟩ :=
    lookup_used formed looked
  · cases done
    exact ⟨formed', rfl, Or.inl ⟨by simp only [contexts, same], missing, rfl⟩⟩
  · cases sent : (sendMessage2 cR a).2 with
    | error p => rw [sent] at done; cases done
    | ok message2 =>
      obtain ⟨responder, cI, byValue, stage, ⟨prepared, rfl, next⟩ | ⟨waiting, m, prepared, rfl, next⟩⟩ :=
        sendMessage2_ok sent
      · rw [sent] at done
        cases done
        rw [next] at contexts_
        exact ⟨formed', rfl, Or.inr ⟨front, a, back, responder, cI, byValue, split_, stage,
          Or.inl ⟨prepared, contexts_, rfl⟩⟩⟩
      · rw [sent] at done
        cases done
        rw [next] at contexts_
        exact ⟨formed', rfl, Or.inr ⟨front, a, back, responder, cI, byValue, split_, stage,
          Or.inr ⟨waiting, m, prepared, contexts_, rfl⟩⟩⟩

theorem extractToken_ok {nonce2 payload : Bytes} {result : Except CoapError AceCborAuthzInfoResponse}
    (formed : handler.pool.Formed)
    (done : handler.extractToken nonce2 payload = .ok (handler', result)) :
    (handler' = handler ∧ ∃ e, result = .error e) ∨
    ∃ response context claims evicted,
      processAcecborAuthzInfo cfg payload nonce2 (cownButNot handler.pool) =
        .ok (response, context, claims) ∧
      handler'.pool.Formed ∧
      Recency.forceInsert level maxContexts ⟨some claims, .oscore context⟩ handler.pool.toList =
        (handler'.pool.toList, evicted) ∧
      handler'.log = .established (P.immutables context) claims
        (.token payload nonce2 response.aceServerRecipientid) :: handler.log ∧
      result = .ok response := by
  unfold extractToken at done
  split at done
  · cases done
  · cases done
    exact Or.inl ⟨rfl, _, rfl⟩
  · rename_i response context claims processed
    obtain ⟨⟨pool, evicted⟩, inserted, done⟩ := bind_ok_iff.mp done
    cases done
    obtain ⟨formed', list⟩ := formed.forceInsert SecContextState.level_lt (by decide) (by decide) inserted
    exact Or.inr ⟨response, context, claims, evicted, processed, formed', list, rfl, rfl⟩

theorem credits_of_or {ead3 : Option EADItem} {idCredI : P.IdCred} {credI : P.Credential}
    {claims : cfg.Claims}
    (found : (tokenCredential cfg ead3 <|> cfg.expandIdCredX idCredI) = some (credI, claims)) :
    Credits cfg ead3 idCredI credI claims := by
  rw [Option.orElse_eq_some] at found
  rcases found with found | ⟨-, found⟩
  · unfold tokenCredential at found
    split at found
    · rename_i label isCritical value
      split at found
      · rename_i token
        cases processed : processEdhocToken cfg value with
        | error e => rw [processed] at found; cases found
        | ok credited =>
          rw [processed] at found
          cases found
          exact Or.inl ⟨_, value, rfl, token, rfl, processed⟩
      · cases found
    · cases found
  · exact Or.inr found

/-- Message 3 makes a context with the claims of its credential. -/
theorem completeHandshake_ok {responder : P.WaitM3} {cR : COwn} {cI message3 : Bytes}
    {state : SecContextState cfg} {made : List (Record cfg)}
    (done : completeHandshake cfg responder cR cI message3 = .ok (state, made)) :
    ∃ context claims, state = ⟨some claims, .oscore context⟩ ∧
      made = [.established (P.immutables context) claims (.handshake responder cR cI message3)] ∧
      (Origin.handshake responder cR cI message3).Yields (P.immutables context) claims ∧
      ∃ hkdf secret salt idContext aead keys, P.derive hkdf secret salt idContext aead cI
        cR.asSlice = some keys ∧ context = P.newFromFreshMaterial keys := by
  obtain ⟨⟨processing, idCredI, ead3⟩, parsed, done⟩ := bind_ok_iff.mp done
  obtain ⟨⟨credI, claims⟩, credited, done⟩ := bind_ok_iff.mp done
  simp only [Option.any_none, Bool.false_eq_true, ↓reduceIte] at done
  obtain ⟨processed, verified, done⟩ := bind_ok_iff.mp done
  obtain ⟨completed, finished, done⟩ := bind_ok_iff.mp done
  split at done
  · cases done
  obtain ⟨hkdf, -, done⟩ := bind_ok_iff.mp done
  obtain ⟨aead, -, done⟩ := bind_ok_iff.mp done
  obtain ⟨keys, derived, done⟩ := bind_ok_iff.mp done
  cases done
  rw [mayFail_ok, orError_ok] at parsed credited verified finished
  rw [mayPanic_ok, orError_ok] at derived
  exact ⟨_, claims, rfl, rfl, ⟨processing, idCredI, ead3, credI, processed, completed, parsed,
    credits_of_or credited, verified, finished, hkdf, aead, keys, derived, rfl⟩,
    hkdf, _, _, none, aead, keys, derived, rfl⟩

theorem processTaken_ok {payload : Bytes} {withEdhoc : Bool} {taken state : SecContextState cfg}
    {cutoff : Nat} {made : List (Record cfg)}
    (done : processTaken payload withEdhoc taken = .ok (state, cutoff, made)) :
    (state = taken ∧ made = []) ∨
    ∃ responder cR cI message3, taken.protocolStage = .edhocResponderSentM2 responder cR cI ∧
      completeHandshake cfg responder cR cI message3 = .ok (state, made) := by
  unfold processTaken at done
  split at done
  · cases done
    exact Or.inl ⟨rfl, rfl⟩
  · split at done
    · cases done
    · obtain ⟨cutoff, -, done⟩ := bind_ok_iff.mp done
      split at done
      · rename_i responder cR cI stage
        split at done
        · cases done
        · split at done
          · cases done
          · obtain ⟨⟨state, made⟩, completed, done⟩ := bind_ok_iff.mp done
            cases done
            exact Or.inr ⟨responder, cR, cI, _, stage, completed⟩
      · cases done
        exact Or.inl ⟨rfl, rfl⟩

/-- Where the context comes from that a request is to be unprotected with. -/
theorem prepareUnprotect_ok {request : Message} {withEdhoc : Bool} {now : Nat}
    {taken : SecContextState cfg} {ready : Unprotectable cfg}
    (done : prepareUnprotect request withEdhoc now taken = .ok ready) :
    (cfg.timeConstraint ready.authorization).isValidWith now = true ∧
    ((taken = ⟨some ready.authorization, .oscore ready.context⟩ ∧ ready.made = []) ∨
    ∃ responder cR cI message3, taken.protocolStage = .edhocResponderSentM2 responder cR cI ∧
      completeHandshake cfg responder cR cI message3 =
        .ok (⟨some ready.authorization, .oscore ready.context⟩, ready.made)) := by
  obtain ⟨⟨state, cutoff, made⟩, processed, done⟩ := bind_ok_iff.mp done
  dsimp only at done
  split at done
  · rename_i context authorization
    split at done
    · cases done
    · rename_i valid
      obtain ⟨copied, -, done⟩ := bind_ok_iff.mp done
      cases done
      refine ⟨not_not.mp valid, ?_⟩
      rcases processTaken_ok processed with ⟨rfl, rfl⟩ | established
      · exact Or.inl ⟨rfl, rfl⟩
      · exact Or.inr established
  · cases done

/-- What the request adds to the history when it was authenticated. -/
def Unprotectable.records (ready : Unprotectable cfg) (request : Message) (now : Nat) :
    List (Record cfg) :=
  let allowed := cfg.requestIsAllowed ready.authorization request
  (if allowed then [.called request] else []) ++
    [.unprotected ready.context ready.authorization request now allowed]

theorem receive_ok {ready : Unprotectable cfg} {now : Nat} {kid : COwn}
    {decrypted : Option (P.RequestId × Message)} {result : Except CoapError (OwnRequestData P)}
    (done : handler.receive ready now kid decrypted = (handler', result)) :
    handler'.pool = handler.pool ∧
    ((decrypted = none ∧ handler'.log = handler.log ∧ result = .error .unauthorized) ∨
    ∃ correlation request extracted, decrypted = some (correlation, request) ∧
      handler'.log = ready.records request now ++ handler.log ∧
      result = .ok (.edhocOscoreRequest kid correlation extracted)) := by
  cases decrypted with
  | none =>
    cases done
    exact ⟨rfl, Or.inl ⟨rfl, rfl, rfl⟩⟩
  | some decrypted =>
    obtain ⟨correlation, request⟩ := decrypted
    simp only [receive, authorizeRequest, extractInner] at done
    split at done <;> rename_i allowed <;> cases done <;>
      refine ⟨rfl, Or.inr ⟨correlation, request, _, rfl, ?_, rfl⟩⟩ <;>
      simp [Unprotectable.records, allowed]

theorem unprotect_ok {ready : Unprotectable cfg} {now : Nat} {kid : COwn}
    {oscoreOption : P.OscoreOption} {result : Except CoapError (OwnRequestData P)}
    {context : P.Context} {decrypted : Option (P.RequestId × Message)}
    (formed : handler.pool.Formed) (hidden : ∃ a ∈ handler.pool.toList, a.isEmpty = true)
    (unprotected : P.unprotectRequest ready.copied oscoreOption ready.context = (context, decrypted))
    (done : handler.unprotect ready now kid oscoreOption = .ok (handler', result)) :
    handler'.pool.Formed ∧
    handler'.contexts = place level ⟨some ready.authorization, .oscore context⟩ handler.contexts ∧
    ((decrypted = none ∧ handler'.log = ready.made ++ handler.log ∧
      result = .error .unauthorized) ∨
    ∃ correlation request extracted, decrypted = some (correlation, request) ∧
      handler'.log = ready.records request now ++ (ready.made ++ handler.log) ∧
      result = .ok (.edhocOscoreRequest kid correlation extracted)) := by
  unfold unprotect at done
  rw [unprotected] at done
  dsimp only at done
  cases received : receive { handler with log := ready.made ++ handler.log } ready now kid decrypted with
  | mk next result' =>
  obtain ⟨samePool, logged⟩ := receive_ok received
  rw [received] at done
  obtain ⟨⟨pool, evicted⟩, inserted, done⟩ := bind_ok_iff.mp done
  dsimp only at inserted done samePool
  rw [samePool] at inserted
  obtain ⟨formed', list⟩ := formed.forceInsert SecContextState.level_lt (by decide) (by decide) inserted
  split at done
  · cases done
    exact ⟨formed', (forceInsert_hidden formed.ordered rfl hidden list).1, logged⟩
  · cases done

/-- A request with OSCORE takes the first entry with its identifier. It is dropped, or it comes back
    with the context as it is after unprotecting the request. -/
theorem extractOscoreEdhoc_ok {now : Nat} {request : Message} {oscoreOption : Bytes}
    {withEdhoc : Bool} {result : Except CoapError (OwnRequestData P)}
    (formed : handler.pool.Formed)
    (done : handler.extractOscoreEdhoc now request oscoreOption withEdhoc = .ok (handler', result)) :
    handler'.pool.Formed ∧
    ((handler'.contexts = handler.contexts ∧ handler'.log = handler.log ∧ (∃ e, result = .error e) ∧
      ∀ option kid, requestKid P oscoreOption = .ok (option, kid) →
        ∀ a ∈ handler.contexts, a.correspondingCown ≠ some kid) ∨
    ∃ option kid front a back, requestKid P oscoreOption = .ok (option, kid) ∧
      handler.contexts = front ++ a :: back ∧ (∀ b ∈ front, b.correspondingCown ≠ some kid) ∧
      a.correspondingCown = some kid ∧
      ((∃ e, prepareUnprotect request withEdhoc now a = .error (.error e) ∧
        handler'.contexts = front ++ back ∧ handler'.log = handler.log ∧ result = .error e) ∨
      ∃ ready context decrypted, prepareUnprotect request withEdhoc now a = .ok ready ∧
        P.unprotectRequest ready.copied option ready.context = (context, decrypted) ∧
        handler'.contexts = place level ⟨some ready.authorization, .oscore context⟩ (front ++ back) ∧
        ((decrypted = none ∧ handler'.log = ready.made ++ handler.log ∧
          result = .error .unauthorized) ∨
        ∃ correlation inner extracted, decrypted = some (correlation, inner) ∧
          handler'.log = ready.records inner now ++ (ready.made ++ handler.log) ∧
          result = .ok (.edhocOscoreRequest kid correlation extracted)))) := by
  unfold extractOscoreEdhoc at done
  split at done
  · rename_i e failed
    cases done
    exact ⟨formed, Or.inl ⟨rfl, rfl, ⟨_, rfl⟩, fun option kid parsed => by rw [failed] at parsed; cases parsed⟩⟩
  · rename_i option kid parsed
    obtain ⟨⟨pool, taken⟩, looked, done⟩ := bind_ok_iff.mp done
    obtain ⟨formed', ⟨missing, same, rfl⟩ |
      ⟨front, a, back, split_, before, named, rfl, member, contexts_⟩⟩ := lookup_used formed looked
    · cases done
      refine ⟨formed', Or.inl ⟨by simp only [contexts, same], rfl, ⟨_, rfl⟩, fun option' kid' parsed' => ?_⟩⟩
      rw [parsed] at parsed'
      cases parsed'
      exact missing
    · dsimp only at done
      split at done
      · cases done
      · rename_i e failed
        cases done
        exact ⟨formed', Or.inr ⟨option, kid, front, a, back, parsed, split_, before, named,
          Or.inl ⟨e, failed, contexts_, rfl, rfl⟩⟩⟩
      · rename_i ready prepared
        cases unprotected : P.unprotectRequest ready.copied option ready.context with
        | mk context decrypted =>
        obtain ⟨formed'', placed, outcome⟩ := unprotect_ok formed' ⟨_, member, rfl⟩ unprotected done
        refine ⟨formed'', Or.inr ⟨option, kid, front, a, back, parsed, split_, before, named,
          Or.inr ⟨ready, context, decrypted, prepared, unprotected, ?_, outcome⟩⟩⟩
        rw [placed]
        exact congrArg _ contexts_

/-- What a response does to the context that it is protected with. -/
structure Protected (handler : OscoreEdhocHandler cfg) (response : P.WriteBuffer)
    (correlation : P.RequestId)
    (extracted : AuthorizationChecked (Except P.ExtractError P.RequestData)) (context : P.Context)
    (context' : P.Context) (response' : P.WriteBuffer) : Prop where
  either : (P.plainResponse response context correlation = none ∧ context' = context ∧
      response' = response) ∨
    ∃ plain protected_, P.plainResponse response context correlation = some plain ∧
      P.sealResponse (writeInner cfg handler.inner plain extracted).2 context correlation =
        (context', response', protected_)

theorem buildOscoreResponse_ok {response : P.WriteBuffer} {kid : COwn} {correlation : P.RequestId}
    {extracted : AuthorizationChecked (Except P.ExtractError P.RequestData)}
    {result : Except (BuildFailure P) P.WriteBuffer} (formed : handler.pool.Formed)
    (done : handler.buildOscoreResponse response kid correlation extracted = .ok (handler', result)) :
    handler'.pool.Formed ∧ handler'.log = handler.log ∧
    ((handler'.contexts = handler.contexts ∧
      (∀ a ∈ handler.contexts, a.correspondingCown ≠ some kid) ∧
      result = .ok (P.setCode response Code.changed)) ∨
    ∃ front a back, handler.contexts = front ++ a :: back ∧
      (∀ b ∈ front, b.correspondingCown ≠ some kid) ∧ a.correspondingCown = some kid ∧
      ((∃ context context' response', a.protocolStage = .oscore context ∧
        handler.Protected (P.setCode (P.setCode response Code.changed) Code.changed) correlation
          extracted context context' response' ∧
        handler'.contexts = place level ⟨a.authorization, .oscore context'⟩ (front ++ back) ∧
        result = .ok response') ∨
      ((∀ context, a.protocolStage ≠ .oscore context) ∧
        handler'.contexts = place level a (front ++ back) ∧
        result = .error (.coap .internalServerError)))) := by
  obtain ⟨⟨pool, built⟩, looked, done⟩ := bind_ok_iff.mp done
  obtain ⟨formed', ⟨missing, same, rfl⟩ | ⟨front, a, back, split_, before, named, rfl, -, contexts_⟩⟩ :=
    lookup_used formed looked
  · cases done
    exact ⟨formed', rfl, Or.inl ⟨by simp only [contexts, same], missing, rfl⟩⟩
  · obtain ⟨authorization, stage⟩ := a
    cases stage with
    | oscore context =>
      simp only [protectResponse] at done contexts_
      cases plain : P.plainResponse (P.setCode (P.setCode response Code.changed) Code.changed) context
          correlation with
      | none =>
        simp only [plain] at done contexts_
        cases done
        exact ⟨formed', rfl, Or.inr ⟨front, _, back, split_, before, named, Or.inl ⟨context, context, _,
          rfl, ⟨Or.inl ⟨plain, rfl, rfl⟩⟩, contexts_, rfl⟩⟩⟩
      | some view =>
        simp only [plain] at done contexts_
        cases done
        exact ⟨formed', rfl, Or.inr ⟨front, _, back, split_, before, named, Or.inl ⟨context, _, _,
          rfl, ⟨Or.inr ⟨view, _, plain, rfl⟩⟩, contexts_, rfl⟩⟩⟩
    | empty => cases named
    | edhocResponderProcessedM1 responder cR cI byValue =>
      cases done
      exact ⟨formed', rfl, Or.inr ⟨front, _, back, split_, before, named,
        Or.inr ⟨fun _ => (nomatch ·), contexts_, rfl⟩⟩⟩
    | edhocResponderSentM2 responder cR cI =>
      cases done
      exact ⟨formed', rfl, Or.inr ⟨front, _, back, split_, before, named,
        Or.inr ⟨fun _ => (nomatch ·), contexts_, rfl⟩⟩⟩

end OscoreEdhocHandler

end ArielOS.Coapcore
