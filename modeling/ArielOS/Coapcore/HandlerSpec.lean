import ArielOS.Coapcore.Handler
import ArielOS.Coapcore.SecContextSpec

namespace ArielOS.Coapcore

open Machine OrderedPool Recency

variable {P : Platform} {cfg : ServerSecurityConfig P}

namespace OscoreEdhocHandler

variable {handler handler' : OscoreEdhocHandler cfg}

/-- A call to the wrapped handler without OSCORE is allowed to everybody. -/
def PlainAllowed (cfg : ServerSecurityConfig P) (request : Message) (now : Nat) : Prop :=
  ∃ claims, cfg.nosecAuthorization = some claims ∧ cfg.requestIsAllowed claims request = true ∧
    (cfg.timeConstraint claims).isValidWith now = true

/-- What a request leads to. -/
inductive Extraction (handler : OscoreEdhocHandler cfg) (ambient : Ambient P) (request : Message) :
    OscoreEdhocHandler cfg → Except (ExtractRequestError P) (RequestData P) → Prop
  | refused (e : ExtractRequestError P) : Extraction handler ambient request handler (.error e)
  | notAllowed : Extraction handler ambient request handler (.ok (.inner .notAllowed))
  | plain (inner : P.Inner) (result : Except (ExtractRequestError P) (RequestData P))
      (allowed : PlainAllowed cfg request ambient.now)
      (foreign : ∀ data, result ≠ .ok (.own data)) : Extraction handler ambient request
        ⟨handler.pool, inner, .called request :: .plain request ambient.now :: handler.log⟩ result
  | edhoc (handler' : OscoreEdhocHandler cfg) (result : Except CoapError (OwnRequestData P))
      (known : cfg.hasEdhoc = true)
      (recognized : (Recognition.recognize cfg .start request.options).1 = .wellKnownEdhoc)
      (done : handler.extractEdhoc ambient.crypto request = .ok (handler', result)) :
      Extraction handler ambient request handler' (own id result)
  | token (handler' : OscoreEdhocHandler cfg) (result : Except CoapError AceCborAuthzInfoResponse)
      (known : cfg.parsesTokens = true)
      (recognized : (Recognition.recognize cfg .start request.options).1 = .authzInfo)
      (done : handler.extractToken ambient.nonce2 request.payload = .ok (handler', result)) :
      Extraction handler ambient request handler' (own .processedToken result)
  | oscore (handler' : OscoreEdhocHandler cfg) (option : Bytes) (withEdhoc : Bool)
      (result : Except CoapError (OwnRequestData P)) (known : hasOscore cfg = true)
      (done : handler.extractOscoreEdhoc ambient.now request option withEdhoc =
        .ok (handler', result)) :
      Extraction handler ambient request handler' (own id result)

theorem extractPlain_cases {ambient : Ambient P} {request : Message}
    {result : Except (ExtractRequestError P) (RequestData P)}
    (done : handler.extractPlain ambient.now request = (handler', result)) :
    Extraction handler ambient request handler' result := by
  unfold extractPlain at done
  split at done
  · rename_i allowed
    have allowed : PlainAllowed cfg request ambient.now := by
      simpa [PlainAllowed, Option.any_eq_true] using allowed
    cases extracted : P.extractInner handler.inner request with
    | mk inner r =>
    simp only [extractInner, extracted] at done
    cases r <;> cases done <;> exact .plain inner _ allowed fun data same => by cases same
  · cases done
    exact .notAllowed

theorem extractRequestData_cases {ambient : Ambient P} {request : Message}
    {result : Except (ExtractRequestError P) (RequestData P)}
    (done : handler.extractRequestData ambient request = .ok (handler', result)) :
    Extraction handler ambient request handler' result := by
  unfold extractRequestData at done
  dsimp only at done
  split at done
  · cases done
    exact .refused _
  · split at done
    · exact extractPlain_cases (Except.ok.inj done)
    · exact extractPlain_cases (Except.ok.inj done)
    · exact extractPlain_cases (Except.ok.inj done)
    · rename_i recognized
      split at done
      · cases done
      · rename_i known
        split at done
        · cases done
          exact .refused _
        · obtain ⟨⟨next, r⟩, extracted, done⟩ := bind_ok_iff.mp done
          cases done
          exact .edhoc next r (not_not.mp known) recognized extracted
    · rename_i recognized
      split at done
      · cases done
      · rename_i known
        split at done
        · cases done
          exact .refused _
        · obtain ⟨⟨next, r⟩, extracted, done⟩ := bind_ok_iff.mp done
          cases done
          exact .token next r (not_not.mp known) recognized extracted
    · split at done
      · cases done
      · rename_i known
        obtain ⟨⟨next, r⟩, extracted, done⟩ := bind_ok_iff.mp done
        cases done
        exact .oscore next _ true r (by simp [hasOscore, not_not.mp known]) extracted
    · split at done
      · cases done
      · rename_i known
        obtain ⟨⟨next, r⟩, extracted, done⟩ := bind_ok_iff.mp done
        cases done
        exact .oscore next _ false r (not_not.mp known) extracted

theorem Extraction.formed {ambient : Ambient P} {request : Message}
    {result : Except (ExtractRequestError P) (RequestData P)} (formed : handler.pool.Formed)
    (extraction : Extraction handler ambient request handler' result) : handler'.pool.Formed := by
  cases extraction with
  | refused e => exact formed
  | notAllowed => exact formed
  | plain inner result allowed foreign => exact formed
  | edhoc _ result known recognized done =>
    obtain ⟨rfl, -⟩ | ⟨responder, cR, state, evicted, -, formed', -⟩ := extractEdhoc_ok formed done
    · exact formed
    · exact formed'
  | token _ result known recognized done =>
    obtain ⟨rfl, -⟩ | ⟨response, context, claims, evicted, -, formed', -⟩ := extractToken_ok formed done
    · exact formed
    · exact formed'
  | oscore _ option withEdhoc result known done => exact (extractOscoreEdhoc_ok formed done).1

theorem buildResponse_formed {response : P.WriteBuffer} {req : RequestData P}
    {result : Except (BuildFailure P) P.WriteBuffer} (formed : handler.pool.Formed)
    (done : handler.buildResponse response req = .ok (handler', result)) : handler'.pool.Formed := by
  cases req with
  | own req =>
    cases req with
    | edhocOkSend2 cR =>
      simp only [buildResponse] at done
      split at done
      · cases done
      · exact (buildEdhocMessage2_ok formed done).1
    | edhocOscoreRequest kid correlation extracted =>
      simp only [buildResponse] at done
      split at done
      · cases done
      · exact (buildOscoreResponse_ok formed done).1
    | processedToken token =>
      simp only [buildResponse] at done
      split at done
      · cases done
      · cases done
        exact formed
  | inner req =>
    cases req <;> simp only [buildResponse] at done <;> split at done <;> cases done <;> exact formed

theorem Call.formed {call : Call P} (formed : handler.pool.Formed)
    (done : call.run handler = .ok handler') : handler'.pool.Formed := by
  cases call with
  | extractRequestData ambient request =>
    obtain ⟨⟨next, result⟩, extracted, done⟩ := bind_ok_iff.mp done
    cases done
    exact (extractRequestData_cases extracted).formed formed
  | buildResponse response req =>
    obtain ⟨⟨next, result⟩, built, done⟩ := bind_ok_iff.mp done
    cases done
    exact buildResponse_formed formed built

theorem new_contexts {inner : P.Inner} (started : new inner = .ok handler) :
    handler.pool.Formed ∧ handler.contexts = [] ∧ handler.log = [] := by
  obtain ⟨pool, empty, started⟩ := bind_ok_iff.mp started
  cases started
  have repr := OrderedPool.new_represents empty
  exact ⟨repr.formed, by rw [contexts, repr.toList_eq]; rfl, rfl⟩

theorem formed_of_reachable {inner : P.Inner} {start : OscoreEdhocHandler cfg}
    (started : new inner = .ok start) (reached : Reachable Call.run start handler) :
    handler.pool.Formed :=
  reached.invariant (·.pool.Formed) (new_contexts started).1 fun _ _ _ formed _ done =>
    Call.formed formed done

end OscoreEdhocHandler

end ArielOS.Coapcore
