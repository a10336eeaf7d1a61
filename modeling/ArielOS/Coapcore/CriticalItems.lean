import ArielOS.Coapcore.ClearPlatform
import ArielOS.Coapcore.SecContextSpec

namespace ArielOS.Coapcore

open Machine OscoreEdhocHandler

variable {P : Platform} {cfg : ServerSecurityConfig P} {responder : P.WaitM3} {cR : COwn} {cI : Bytes}
  {processing : P.ProcessingM3} {idCredI : P.IdCred} {item : EADItem}

/-- The item is no token, or one that cannot be processed. -/
def Unprocessed (cfg : ServerSecurityConfig P) (item : EADItem) : Prop :=
  ∀ value credited, item.label = EdhocEad.acetoken → item.value = some value →
    processEdhocToken cfg value ≠ .ok credited

/-- The handshake ends without regard to items: the peer is unknown, or message 3 is not from it. -/
def RefusedAnyway (cfg : ServerSecurityConfig P) (processing : P.ProcessingM3) (idCredI : P.IdCred) :
    Prop :=
  ∀ credI claims, cfg.expandIdCredX idCredI = some (credI, claims) →
    ∀ processed, P.verifyMessage3 processing credI = some processed →
      P.completedWithoutMessage4 processed = none

namespace OscoreEdhocHandler

theorem tokenCredential_of_unprocessed (unprocessed : Unprocessed cfg item) :
    tokenCredential cfg (some item) = none := by
  obtain ⟨label, isCritical, value⟩ := item
  cases value with
  | none => rfl
  | some value =>
    by_cases token : label = EdhocEad.acetoken
    · cases processed : processEdhocToken cfg value with
      | error e => simp [tokenCredential, token, processed, Except.toOption]
      | ok credited => exact absurd processed (unprocessed value credited token rfl)
    · simp [tokenCredential, token]

theorem not_refusedAnyway {credI : P.Credential} {claims : cfg.Claims} {processed : P.ProcessedM3}
    {completed : P.Completed} (resolved : cfg.expandIdCredX idCredI = some (credI, claims))
    (verified : P.verifyMessage3 processing credI = some processed)
    (finished : P.completedWithoutMessage4 processed = some completed) :
    ¬ RefusedAnyway cfg processing idCredI := by
  intro refused
  rw [refused credI claims resolved processed verified] at finished
  cases finished

/-- An error comes from the credential, from the verification or from the end of the handshake, and
    a panic from what follows. -/
theorem completeHandshake_exit {message3 : Bytes} {exit : Exit CoapError}
    (unprocessed : Unprocessed cfg item)
    (parsed : P.parseMessage3 responder message3 = some (processing, idCredI, some item))
    (ended : completeHandshake cfg responder cR cI message3 = .error exit) :
    (∃ e, exit = .error e) ↔ RefusedAnyway cfg processing idCredI := by
  have credential : (tokenCredential cfg (some item) <|> cfg.expandIdCredX idCredI) =
      cfg.expandIdCredX idCredI := by
    rw [tokenCredential_of_unprocessed unprocessed]
    rfl
  rcases bind_error_iff.mp ended with ended | ⟨⟨processing', idCredI', ead3⟩, parsed', ended⟩
  · rw [parsed] at ended
    cases ended
  rw [mayFail_ok, orError_ok, parsed, Option.some.injEq, Prod.mk.injEq, Prod.mk.injEq] at parsed'
  obtain ⟨rfl, rfl, rfl⟩ := parsed'
  dsimp only at ended
  rw [credential] at ended
  rcases bind_error_iff.mp ended with ended | ⟨⟨credI, claims⟩, resolved, ended⟩
  · obtain ⟨unknown, exits⟩ := mayFail_orError ended
    refine iff_of_true exits fun credI claims resolved => ?_
    rw [unknown] at resolved
    cases resolved
  rw [mayFail_ok, orError_ok] at resolved
  simp only [Option.any_none, Bool.false_eq_true, ↓reduceIte] at ended
  rcases bind_error_iff.mp ended with ended | ⟨processed, verified, ended⟩
  · obtain ⟨unverified, exits⟩ := mayFail_orError ended
    refine iff_of_true exits fun credI' claims' resolved' processed verified => ?_
    rw [resolved, Option.some.injEq, Prod.mk.injEq] at resolved'
    rw [← resolved'.1, unverified] at verified
    cases verified
  rw [mayFail_ok, orError_ok] at verified
  rcases bind_error_iff.mp ended with ended | ⟨completed, finished, ended⟩
  · obtain ⟨unfinished, exits⟩ := mayFail_orError ended
    refine iff_of_true exits fun credI' claims' resolved' processed' verified' => ?_
    rw [resolved, Option.some.injEq, Prod.mk.injEq] at resolved'
    rw [← resolved'.1, verified, Option.some.injEq] at verified'
    rwa [← verified']
  rw [mayFail_ok, orError_ok] at finished
  refine iff_of_false ?_ (not_refusedAnyway resolved verified finished)
  rintro ⟨e, rfl⟩
  split at ended
  · cases ended
  rcases bind_error_iff.mp ended with ended | ⟨hkdf, -, ended⟩
  · exact mayPanic_ne_error ended
  rcases bind_error_iff.mp ended with ended | ⟨aead, -, ended⟩
  · exact mayPanic_ne_error ended
  rcases bind_error_iff.mp ended with ended | ⟨keys, -, ended⟩
  · exact mayPanic_ne_error ended
  · cases ended

theorem completeHandshake_error_iff {message3 : Bytes} (unprocessed : Unprocessed cfg item)
    (parsed : P.parseMessage3 responder message3 = some (processing, idCredI, some item)) :
    (∃ e, completeHandshake cfg responder cR cI message3 = .error (.error e)) ↔
      RefusedAnyway cfg processing idCredI := by
  cases ended : completeHandshake cfg responder cR cI message3 with
  | error exit =>
    rw [← completeHandshake_exit unprocessed parsed ended]
    simp
  | ok done =>
    obtain ⟨state, made⟩ := done
    refine iff_of_false (by simp) ?_
    obtain ⟨context, claims, -, -, ⟨processing', idCredI', ead3, credI, processed, completed, parsed',
      credited, verified, finished, -⟩, -⟩ := completeHandshake_ok ended
    rw [parsed, Option.some.injEq, Prod.mk.injEq, Prod.mk.injEq] at parsed'
    obtain ⟨rfl, rfl, rfl⟩ := parsed'
    rcases credited with ⟨item', value, same, token, value_, processedToken⟩ | resolved
    · cases same
      exact absurd processedToken (unprocessed value _ token value_)
    · exact not_refusedAnyway resolved verified finished

end OscoreEdhocHandler

end ArielOS.Coapcore
