import ArielOS.Coapcore.Identifiers

namespace ArielOS.Coapcore

open Machine OrderedPool Recency OscoreEdhocHandler

variable {P : Platform} {cfg : ServerSecurityConfig P} {log log' : List (Record cfg)}
  {a added : SecContextState cfg} {handler handler' : OscoreEdhocHandler cfg}

/-- The claims in the history come from where the keys come from. -/
def Yielded (log : List (Record cfg)) : Prop :=
  ∀ keys claims origin, .established keys claims origin ∈ log → origin.Yields keys claims

theorem Yielded.cons {keys : P.Immutables} {claims : cfg.Claims} {origin : Origin P}
    (yielded : Yielded log) (yields : origin.Yields keys claims) :
    Yielded (.established keys claims origin :: log) := by
  intro keys' claims' origin' member
  rcases List.mem_cons.mp member with same | member
  · cases same
    exact yields
  · exact yielded keys' claims' origin' member

/-- A context in the pool has the claims that its keys came with. -/
def Attached (log : List (Record cfg)) (a : SecContextState cfg) : Prop :=
  ∀ context, a.protocolStage = .oscore context → ∃ claims origin, a.authorization = some claims ∧
    .established (P.immutables context) claims origin ∈ log

theorem Attached.mono (attached : Attached log a) (more : log ⊆ log') : Attached log' a := by
  intro context stage
  obtain ⟨claims, origin, same, member⟩ := attached context stage
  exact ⟨claims, origin, same, more member⟩

structure Sound (handler : OscoreEdhocHandler cfg) : Prop where
  formed : handler.pool.Formed
  attached : ∀ a ∈ handler.contexts, Attached handler.log a
  yielded : Yielded handler.log

theorem Sound.next {added : SecContextState cfg} (sound : Sound handler)
    (formed : handler'.pool.Formed) (yielded : Yielded handler'.log)
    (more : handler.log ⊆ handler'.log)
    (contexts_ : ∀ a ∈ handler'.contexts, a = added ∨ a ∈ handler.contexts)
    (attached : Attached handler'.log added) : Sound handler' := by
  refine ⟨formed, fun a member => ?_, yielded⟩
  rcases contexts_ a member with rfl | member
  · exact attached
  · exact (sound.attached a member).mono more

theorem Sound.smaller (sound : Sound handler) (formed : handler'.pool.Formed)
    (log : handler'.log = handler.log) (fewer : handler'.contexts.Sublist handler.contexts) :
    Sound handler' :=
  ⟨formed, fun a member => log ▸ sound.attached a (fewer.subset member), log ▸ sound.yielded⟩

/-- A request was unprotected with a context of the pool, or of the handshake that the pool has, and
    the claims that came together with its keys allow it. -/
structure Covered (handler : OscoreEdhocHandler cfg) (log : List (Record cfg)) (context : P.Context)
    (claims : cfg.Claims) (request : Message) (now : Nat) : Prop where
  authentic : ∃ copied option correlation,
    (P.unprotectRequest copied option context).2 = some (correlation, request)
  allowed : cfg.requestIsAllowed claims request = true
  valid : (cfg.timeConstraint claims).isValidWith now = true
  established : ∃ origin, .established (P.immutables context) claims origin ∈ log ∧
    origin.Yields (P.immutables context) claims ∧
    (⟨some claims, .oscore context⟩ ∈ handler.contexts ∨
      ∃ a ∈ handler.contexts, ∃ responder cR cI message3,
        a.protocolStage = .edhocResponderSentM2 responder cR cI ∧
        origin = .handshake responder cR cI message3)

/-- While the handler processes a request, it calls the wrapped handler with requests that are
    allowed. -/
def CallsAllowed (handler handler' : OscoreEdhocHandler cfg) (outer : Message) (now : Nat) : Prop :=
  ∃ records, handler'.log = records ++ handler.log ∧ ∀ request, .called request ∈ records →
    (request = outer ∧ PlainAllowed cfg outer now) ∨
    ∃ context claims, Covered handler handler'.log context claims request now

theorem CallsAllowed.of_none {outer : Message} {now : Nat} {records : List (Record cfg)}
    (log : handler'.log = records ++ handler.log) (none_ : ∀ request, .called request ∉ records) :
    CallsAllowed handler handler' outer now :=
  ⟨records, log, fun request member => absurd member (none_ request)⟩

/-- Responses make no calls with requests. -/
def Call.Authorized (call : Call P) (handler handler' : OscoreEdhocHandler cfg) : Prop :=
  match call with
  | .extractRequestData ambient request => CallsAllowed handler handler' request ambient.now
  | .buildResponse _ _ => handler'.log = handler.log

/-- The payload of the request that the record is about. -/
def Record.request : Record cfg → Option Bytes
  | .called request | .plain request _ | .unprotected _ _ request _ _ => some request.payload
  | .started .. | .established .. => none

namespace OscoreEdhocHandler

theorem mem_contexts_of_forceInsert {evicted : Option (SecContextState cfg)}
    (formed : handler.pool.Formed) (used_ : added.isEmpty = false)
    (list : Recency.forceInsert level maxContexts added handler.pool.toList =
      (handler'.pool.toList, evicted)) (member : a ∈ handler'.contexts) :
    a = added ∨ a ∈ handler.contexts := by
  rcases forceInsert_used formed.ordered used_ list with ⟨placed, -⟩ | ⟨all, -, placed, -⟩
  · rw [contexts, placed] at member
    exact mem_place.mp member
  · rw [contexts, placed] at member
    refine (mem_place.mp member).imp_right fun member => ?_
    rw [contexts, all]
    exact List.mem_of_mem_dropLast member

theorem mem_contexts_of_replaced {b : SecContextState cfg} {front back : List (SecContextState cfg)}
    (split : handler.contexts = front ++ b :: back)
    (placed : handler'.contexts = place level added (front ++ back)) (member : a ∈ handler'.contexts) :
    a = added ∨ a ∈ handler.contexts := by
  rw [placed] at member
  rw [split]
  exact (mem_place.mp member).imp_right fun member => remove_sublist.subset member

theorem extractEdhoc_sound {crypto : P.Crypto} {request : Message}
    {result : Except CoapError (OwnRequestData P)} (sound : Sound handler)
    (done : handler.extractEdhoc crypto request = .ok (handler', result)) :
    Sound handler' ∧ ∀ outer now, CallsAllowed handler handler' outer now := by
  rcases extractEdhoc_ok sound.formed done with ⟨rfl, -⟩ |
    ⟨responder, cR, state, evicted, started, formed', list, logged, -⟩
  · exact ⟨sound, fun _ _ => .of_none (List.nil_append _).symm (by simp)⟩
  · obtain ⟨-, -, -, cI, -, byValue, -, -, -, -, rfl⟩ := startHandshake_ok sound.formed started
    have records : handler'.log = [.started cR responder] ++ handler.log := logged
    refine ⟨sound.next formed' ?_ ?_
      (fun a => mem_contexts_of_forceInsert sound.formed rfl list) fun context => (nomatch ·),
      fun _ _ => .of_none records (by simp)⟩
    · rw [logged]
      exact fun keys claims origin member => sound.yielded keys claims origin (by simpa using member)
    · simp [logged]

theorem extractToken_sound {nonce2 payload : Bytes} {result : Except CoapError AceCborAuthzInfoResponse}
    (sound : Sound handler) (done : handler.extractToken nonce2 payload = .ok (handler', result)) :
    Sound handler' ∧ ∀ outer now, CallsAllowed handler handler' outer now := by
  rcases extractToken_ok sound.formed done with ⟨rfl, -⟩ |
    ⟨response, context, claims, evicted, processed, formed', list, logged, -⟩
  · exact ⟨sound, fun _ _ => .of_none (List.nil_append _).symm (by simp)⟩
  · have yields := (processAcecborAuthzInfo_ok processed).1
    let origin : Origin P := .token payload nonce2 response.aceServerRecipientid
    have records : handler'.log = [.established (P.immutables context) claims origin] ++ handler.log :=
      logged
    refine ⟨sound.next formed' ?_ ?_ (fun a => mem_contexts_of_forceInsert sound.formed rfl list) ?_,
      fun _ _ => .of_none records (by simp)⟩
    · rw [logged]
      exact sound.yielded.cons ⟨response, context, yields, rfl⟩
    · simp [logged]
    · intro context' stage
      cases stage
      exact ⟨claims, origin, rfl, by simp [records]⟩

/-- The context for a request has the claims that its keys came with, now or earlier. -/
theorem prepareUnprotect_sound {request : Message} {withEdhoc : Bool} {now : Nat}
    {ready : Unprotectable cfg} (yielded : Yielded log) (attached : Attached log a)
    (done : prepareUnprotect request withEdhoc now a = .ok ready) :
    (∀ request, .called request ∉ ready.made) ∧ Yielded (ready.made ++ log) ∧ ∃ origin,
      .established (P.immutables ready.context) ready.authorization origin ∈ ready.made ++ log ∧
      (a = ⟨some ready.authorization, .oscore ready.context⟩ ∨
        ∃ responder cR cI message3, a.protocolStage = .edhocResponderSentM2 responder cR cI ∧
          origin = .handshake responder cR cI message3) := by
  obtain ⟨-, ⟨rfl, none_⟩ | ⟨responder, cR, cI, message3, stage, completed⟩⟩ := prepareUnprotect_ok done
  · rw [none_]
    obtain ⟨claims, origin, same, member⟩ := attached _ rfl
    cases same
    exact ⟨by simp, yielded, origin, member, Or.inl rfl⟩
  · obtain ⟨context, claims, same, made, yields, -⟩ := completeHandshake_ok completed
    obtain ⟨context, claims, copied, made'⟩ := ready
    cases same
    dsimp only at made
    subst made
    exact ⟨by simp, yielded.cons yields, _, List.mem_cons_self,
      Or.inr ⟨responder, cR, cI, message3, stage, rfl⟩⟩

theorem Unprotectable.called_mem {ready : Unprotectable cfg} {request inner : Message} {now : Nat}
    (member : .called request ∈ ready.records inner now) :
    request = inner ∧ cfg.requestIsAllowed ready.authorization inner = true := by
  unfold Unprotectable.records at member
  cases allowed : cfg.requestIsAllowed ready.authorization inner with
  | false => simp [allowed] at member
  | true => simpa [allowed] using member

theorem Unprotectable.established_not_mem {ready : Unprotectable cfg} {inner : Message} {now : Nat}
    {keys : P.Immutables} {claims : cfg.Claims} {origin : Origin P} :
    .established keys claims origin ∉ ready.records inner now := by
  unfold Unprotectable.records
  cases cfg.requestIsAllowed ready.authorization inner <;> simp

theorem extractOscoreEdhoc_sound (keeps : P.KeepsKeys) {now : Nat} {request : Message}
    {oscoreOption : Bytes} {withEdhoc : Bool} {result : Except CoapError (OwnRequestData P)}
    (sound : Sound handler)
    (done : handler.extractOscoreEdhoc now request oscoreOption withEdhoc = .ok (handler', result)) :
    Sound handler' ∧ ∀ outer, CallsAllowed handler handler' outer now := by
  obtain ⟨formed', ⟨same, logged, -⟩ | ⟨option, kid, front, a, back, -, split, -, -, dropped | replaced⟩⟩ :=
    extractOscoreEdhoc_ok sound.formed done
  · exact ⟨sound.smaller formed' logged (by rw [same]),
      fun _ => .of_none (logged.trans (List.nil_append _).symm) (by simp)⟩
  · obtain ⟨e, -, rest, logged, -⟩ := dropped
    exact ⟨sound.smaller formed' logged (by rw [rest, split]; exact remove_sublist),
      fun _ => .of_none (logged.trans (List.nil_append _).symm) (by simp)⟩
  · obtain ⟨ready, context, decrypted, prepared, unprotected, placed, outcome⟩ := replaced
    have here : a ∈ handler.contexts := by simp [split]
    obtain ⟨uncalled, yielded, origin, established, from_⟩ :=
      prepareUnprotect_sound sound.yielded (sound.attached a here) prepared
    have keys : P.immutables context = P.immutables ready.context := by
      have same := keeps.unprotect ready.copied option ready.context
      rwa [unprotected] at same
    -- The history is that of the context, and what came of the request.
    obtain ⟨records, logged, made, calls⟩ : ∃ records,
        handler'.log = records ++ (ready.made ++ handler.log) ∧
        (∀ keys claims origin, .established keys claims origin ∉ records) ∧
        ∀ inner, .called inner ∈ records →
          (∃ correlation, decrypted = some (correlation, inner)) ∧
          cfg.requestIsAllowed ready.authorization inner = true := by
      rcases outcome with ⟨-, logged, -⟩ | ⟨correlation, inner, extracted, authentic, logged, -⟩
      · exact ⟨[], logged, by simp, by simp⟩
      · refine ⟨ready.records inner now, logged,
          fun keys claims origin => Unprotectable.established_not_mem, fun inner' member => ?_⟩
        obtain ⟨rfl, allowed⟩ := Unprotectable.called_mem member
        exact ⟨⟨correlation, authentic⟩, allowed⟩
    have more : ready.made ++ handler.log ⊆ handler'.log := by
      rw [logged]
      exact List.subset_append_right _ _
    have yielded' : Yielded handler'.log := by
      intro keys claims origin member
      rw [logged] at member
      exact yielded keys claims origin
        ((List.mem_append.mp member).resolve_left (made keys claims origin))
    refine ⟨sound.next formed' yielded' ?_ (fun b => mem_contexts_of_replaced split placed) ?_,
      fun outer => ⟨records ++ ready.made, by rw [logged, List.append_assoc], fun inner member => ?_⟩⟩
    · exact List.Subset.trans (List.subset_append_right _ _) more
    · intro context' stage
      cases stage
      rw [keys]
      exact ⟨_, origin, rfl, more established⟩
    · obtain ⟨⟨correlation, authentic⟩, allowed⟩ :=
        calls inner ((List.mem_append.mp member).resolve_right (uncalled inner))
      refine Or.inr ⟨ready.context, ready.authorization, ?_, allowed, (prepareUnprotect_ok prepared).1, ?_⟩
      · exact ⟨ready.copied, option, correlation, by rw [unprotected, authentic]⟩
      · refine ⟨origin, more established, yielded _ _ _ established, from_.imp (fun same => ?_) ?_⟩
        · rwa [← same]
        · exact fun from_ => ⟨a, here, from_⟩

theorem Extraction.sound (keeps : P.KeepsKeys) {ambient : Ambient P} {request : Message}
    {result : Except (ExtractRequestError P) (RequestData P)} (sound : Sound handler)
    (extraction : Extraction handler ambient request handler' result) :
    Sound handler' ∧ CallsAllowed handler handler' request ambient.now := by
  cases extraction with
  | refused e => exact ⟨sound, .of_none (List.nil_append _).symm (by simp)⟩
  | notAllowed => exact ⟨sound, .of_none (List.nil_append _).symm (by simp)⟩
  | plain inner result allowed foreign =>
    refine ⟨⟨sound.formed, fun a member => ?_, fun keys claims origin member => ?_⟩,
      [.called request, .plain request ambient.now], rfl, fun inner member => Or.inl ?_⟩
    · exact (sound.attached a member).mono (by simp)
    · exact sound.yielded keys claims origin (by simpa using member)
    · exact ⟨by simpa using member, allowed⟩
  | edhoc _ result known recognized done => exact (extractEdhoc_sound sound done).imp_right fun calls => calls _ _
  | token _ result known recognized done => exact (extractToken_sound sound done).imp_right fun calls => calls _ _
  | oscore _ option withEdhoc result known done =>
    exact (extractOscoreEdhoc_sound keeps sound done).imp_right fun calls => calls _

theorem buildEdhocMessage2_sound {response : P.WriteBuffer} {cR : COwn}
    {result : Except (BuildFailure P) P.WriteBuffer} (sound : Sound handler)
    (done : handler.buildEdhocMessage2 response cR = .ok (handler', result)) :
    Sound handler' ∧ handler'.log = handler.log := by
  obtain ⟨formed', logged, ⟨same, -⟩ | ⟨front, a, back, responder, cI, byValue, split, -,
    ⟨-, rest, -⟩ | ⟨waiting, m, -, placed, -⟩⟩⟩ := buildEdhocMessage2_ok sound.formed done
  · exact ⟨sound.smaller formed' logged (by rw [same]), logged⟩
  · exact ⟨sound.smaller formed' logged (by rw [rest, split]; exact remove_sublist), logged⟩
  · refine ⟨sound.next formed' ?_ ?_ (fun b => mem_contexts_of_replaced split placed) ?_, logged⟩
    · rw [logged]
      exact sound.yielded
    · simp [logged]
    · exact fun context => (nomatch ·)

theorem buildOscoreResponse_sound (keeps : P.KeepsKeys) {response : P.WriteBuffer} {kid : COwn}
    {correlation : P.RequestId}
    {extracted : AuthorizationChecked (Except P.ExtractError P.RequestData)}
    {result : Except (BuildFailure P) P.WriteBuffer} (sound : Sound handler)
    (done : handler.buildOscoreResponse response kid correlation extracted = .ok (handler', result)) :
    Sound handler' ∧ handler'.log = handler.log := by
  obtain ⟨formed', logged, ⟨same, -⟩ | ⟨front, a, back, split, -, -, protected_ | ⟨-, placed, -⟩⟩⟩ :=
    buildOscoreResponse_ok sound.formed done
  · exact ⟨sound.smaller formed' logged (by rw [same]), logged⟩
  · obtain ⟨context, context', response', stage, protected_, placed, -⟩ := protected_
    refine ⟨sound.next formed' ?_ ?_ (fun b => mem_contexts_of_replaced split placed) ?_, logged⟩
    · rw [logged]
      exact sound.yielded
    · simp [logged]
    · obtain ⟨claims, origin, same, established⟩ := sound.attached a (by simp [split]) context stage
      intro context'' stage''
      cases stage''
      rw [protected_.immutables keeps, logged]
      exact ⟨claims, origin, same, established⟩
  · refine ⟨sound.next formed' ?_ ?_ (fun b => mem_contexts_of_replaced split placed) ?_, logged⟩
    · rw [logged]
      exact sound.yielded
    · simp [logged]
    · rw [logged]
      exact sound.attached a (by simp [split])

theorem buildResponse_sound (keeps : P.KeepsKeys) {response : P.WriteBuffer} {req : RequestData P}
    {result : Except (BuildFailure P) P.WriteBuffer} (sound : Sound handler)
    (done : handler.buildResponse response req = .ok (handler', result)) :
    Sound handler' ∧ handler'.log = handler.log := by
  cases req with
  | own req =>
    cases req with
    | edhocOkSend2 cR =>
      simp only [buildResponse] at done
      split at done
      · cases done
      · exact buildEdhocMessage2_sound sound done
    | edhocOscoreRequest kid correlation extracted =>
      simp only [buildResponse] at done
      split at done
      · cases done
      · exact buildOscoreResponse_sound keeps sound done
    | processedToken token =>
      simp only [buildResponse] at done
      split at done
      · cases done
      · cases done
        exact ⟨sound, rfl⟩
  | inner req =>
    cases req <;> simp only [buildResponse] at done <;> split at done <;> cases done <;>
      exact ⟨⟨sound.formed, sound.attached, sound.yielded⟩, rfl⟩

theorem Call.sound (keeps : P.KeepsKeys) {call : Call P} (sound : Sound handler)
    (done : call.run handler = .ok handler') : Sound handler' ∧ call.Authorized handler handler' := by
  cases call with
  | extractRequestData ambient request =>
    obtain ⟨⟨next, result⟩, extracted, done⟩ := bind_ok_iff.mp done
    cases done
    exact (extractRequestData_cases extracted).sound keeps sound
  | buildResponse response req =>
    obtain ⟨⟨next, result⟩, built, done⟩ := bind_ok_iff.mp done
    cases done
    exact buildResponse_sound keeps sound built

theorem sound_of_reachable (keeps : P.KeepsKeys) {inner : P.Inner} {start : OscoreEdhocHandler cfg}
    (started : new inner = .ok start) (reached : Reachable Call.run start handler) : Sound handler := by
  refine reached.invariant Sound ?_ fun handler call handler' sound _ done =>
    (Call.sound keeps sound done).1
  obtain ⟨formed, noContexts, noRecords⟩ := new_contexts started
  refine ⟨formed, ?_, ?_⟩
  · rw [noContexts]
    simp
  · rw [noRecords]
    exact fun keys claims origin => (nomatch ·)

end OscoreEdhocHandler

end ArielOS.Coapcore
