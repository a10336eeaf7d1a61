import ArielOS.Coapcore.ClearPlatform
import ArielOS.Coapcore.SecContextSpec
import ArielOS.Lib.Cbor

namespace ArielOS.Coapcore

open Machine

variable {P : Platform} {token token' payload payload' : Bytes} {u u' p : HeaderMap}
  {aceCbor : AceCbor}

deriving instance DecidableEq for HeaderMap

namespace HeaderMap

/-- The headers have the values of the protected map. -/
def Keep (headers protectedMap : HeaderMap) : Prop :=
  (∀ alg, protectedMap.alg = some alg → headers.alg = some alg) ∧
    ∀ iv, protectedMap.iv = some iv → headers.iv = some iv

/-- The unprotected map has no other value than the protected map. -/
def Agree (unprotected protectedMap : HeaderMap) : Prop :=
  (∀ alg, protectedMap.alg = some alg → ∀ other, unprotected.alg = some other → other = alg) ∧
    ∀ iv, protectedMap.iv = some iv → ∀ other, unprotected.iv = some other → other = iv

/-- Two unprotected maps differ only in entries that the protected map has. -/
def DifferWithin (protectedMap u u' : HeaderMap) : Prop :=
  (protectedMap.alg = none → u.alg = u'.alg) ∧ (protectedMap.iv = none → u.iv = u'.iv)

/-- Whichever of the maps has no value, the protected one stands in for it. -/
def SameValues (protectedMap u u' : HeaderMap) : Prop :=
  (∀ alg, protectedMap.alg = some alg → u.alg.getD alg = u'.alg.getD alg) ∧
    ∀ iv, protectedMap.iv = some iv → u.iv.getD iv = u'.iv.getD iv

section Entry

variable {α : Type} {x x' y : Option α}

theorem orElse_keep : (∀ a, y = some a → (x <|> y) = some a) ↔
    ∀ a, y = some a → ∀ b, x = some b → b = a := by
  cases x <;> cases y <;> simp

theorem orElse_eq (within : y = none → x = x') : (x <|> y) = (x' <|> y) ↔
    ∀ a, y = some a → x.getD a = x'.getD a := by
  cases y with
  | none =>
    rw [within rfl]
    simp
  | some a => cases x <;> cases x' <;> simp [eq_comm]

theorem getD_of_only {a : α} (only : ∀ b, x = some b → b = a) : x.getD a = a := by
  cases x with
  | none => rfl
  | some b => exact only b rfl

end Entry

theorem updatedWith_keep : (u.updatedWith p).Keep p ↔ u.Agree p :=
  and_congr orElse_keep orElse_keep

theorem updatedWith_eq (within : DifferWithin p u u') :
    u.updatedWith p = u'.updatedWith p ↔ SameValues p u u' := by
  unfold updatedWith
  rw [HeaderMap.mk.injEq]
  exact and_congr (orElse_eq within.1) (orElse_eq within.2)

theorem SameValues.of_agree (here : u.Agree p) (there : u'.Agree p) : SameValues p u u' :=
  ⟨fun alg named => (getD_of_only (here.1 alg named)).trans (getD_of_only (there.1 alg named)).symm,
    fun iv named => (getD_of_only (here.2 iv named)).trans (getD_of_only (there.2 iv named)).symm⟩

end HeaderMap

inductive AuthorityCall
  | decryptSymmetricToken (headers : HeaderMap) (aad ciphertextBuffer : Bytes)
  | verifyAsymmetricToken (headers : HeaderMap) (signedData signature signedPayload : Bytes)

namespace AuthorityCall

def headers : AuthorityCall → HeaderMap
  | decryptSymmetricToken headers _ _ | verifyAsymmetricToken headers _ _ _ => headers

def answer (cfg : ServerSecurityConfig P) :
    AuthorityCall → Except CredentialError (cfg.Claims × CwtClaimsSet)
  | decryptSymmetricToken headers aad buffer => cfg.decryptSymmetricToken headers aad buffer
  | verifyAsymmetricToken headers signedData signature payload =>
    cfg.verifyAsymmetricToken headers signedData signature payload

end AuthorityCall

/-- The call that `process_edhoc_token` makes. -/
def edhocCall (P : Platform) (ead3 : Bytes) : Except CredentialError AuthorityCall := do
  match P.decodeEncrypt0 ead3, P.decodeSign1 ead3 with
  | some encrypt0, _ =>
    let (headers, aad, buffer) ← encrypt0.prepareDecryption P
    return .decryptSymmetricToken headers aad buffer
  | none, some sign1 =>
    let protectedHeaders ← orError .unpositioned (P.decodeHeaderMap sign1.protectedBytes)
    let headers := sign1.unprotected.updatedWith protectedHeaders
    let signed ← within Ace.maxSupportedAccesstokenLen
      (P.encodeSignature1 "Signature1" sign1.protectedBytes [] sign1.payload)
    return .verifyAsymmetricToken headers signed sign1.signature sign1.payload
  | none, none => .error .unpositioned

/-- The call that `process_acecbor_authz_info` makes, with the peer's nonce and identifier. -/
def authzInfoCall (P : Platform) (payload : Bytes) :
    Except CredentialError (Bytes × Bytes × AuthorityCall) := do
  match ← orError .unpositioned (P.decodeAceCbor payload) with
  | { accessToken := some accessToken, nonce1 := some nonce1,
      aceClientRecipientid := some aceClientRecipientid, .. } =>
    let encrypt0 ← orError .unpositioned (P.decodeEncrypt0 accessToken)
    let (headers, aad, buffer) ← encrypt0.prepareDecryption P
    if headers.alg ≠ some 31 then
      .error .unpositioned
    else
      return (nonce1, aceClientRecipientid, .decryptSymmetricToken headers aad buffer)
  | _ => .error .unpositioned

theorem processToken_eq (cfg : ServerSecurityConfig P) (ead3 : Bytes) :
    processToken cfg ead3 = edhocCall P ead3 >>= AuthorityCall.answer cfg := by
  unfold processToken edhocCall
  cases P.decodeEncrypt0 ead3 with
  | some encrypt0 =>
    dsimp only
    cases encrypt0.prepareDecryption P <;> rfl
  | none =>
    cases P.decodeSign1 ead3 with
    | none => rfl
    | some sign1 =>
      dsimp only
      cases P.decodeHeaderMap sign1.protectedBytes with
      | none => rfl
      | some protectedHeaders =>
        simp only [orError, ok_bind]
        cases within Ace.maxSupportedAccesstokenLen
          (P.encodeSignature1 "Signature1" sign1.protectedBytes [] sign1.payload) <;> rfl

theorem decryptAuthzInfo_eq (cfg : ServerSecurityConfig P) (payload : Bytes) :
    decryptAuthzInfo cfg payload = (do
      let (nonce1, aceClientRecipientid, call) ← authzInfoCall P payload
      let (processed, parsed) ← call.answer cfg
      match parsed.cnf with
      | { osc := some osc, coseKey := none } => return (nonce1, aceClientRecipientid, osc, processed)
      | _ => .error .unpositioned) := by
  unfold decryptAuthzInfo authzInfoCall
  cases P.decodeAceCbor payload with
  | none => rfl
  | some aceCbor =>
    obtain ⟨accessToken, nonce1, _, clientId, _⟩ := aceCbor
    rcases accessToken with _ | accessToken
    · rfl
    rcases nonce1 with _ | nonce1
    · rfl
    rcases clientId with _ | clientId
    · rfl
    simp only [orError, ok_bind]
    cases P.decodeEncrypt0 accessToken with
    | none => rfl
    | some encrypt0 =>
      simp only [ok_bind]
      cases encrypt0.prepareDecryption P with
      | error e => rfl
      | ok prepared =>
        simp only [ok_bind]
        split <;> rfl

def headerMaps (P : Platform) (token : Bytes) : Option (HeaderMap × HeaderMap) :=
  match P.decodeEncrypt0 token, P.decodeSign1 token with
  | some encrypt0, _ => (P.decodeHeaderMap encrypt0.protectedBytes).map (encrypt0.unprotected, ·)
  | none, some sign1 => (P.decodeHeaderMap sign1.protectedBytes).map (sign1.unprotected, ·)
  | none, none => none

/-- What is copied or encoded of a token fits in the buffers. -/
def Fits (P : Platform) (token : Bytes) : Prop :=
  match P.decodeEncrypt0 token, P.decodeSign1 token with
  | some encrypt0, _ =>
    (P.encodeEncrypt0 "Encrypt0" encrypt0.protectedBytes []).length ≤ Ace.aadSize ∧
      encrypt0.encrypted.length ≤ Ace.maxSupportedAccesstokenLen
  | none, some sign1 =>
    (P.encodeSignature1 "Signature1" sign1.protectedBytes [] sign1.payload).length ≤
      Ace.maxSupportedAccesstokenLen
  | none, none => False

/-- Whoever is asked about a token is given what its protected headers say. -/
structure ProtectedFirst (P : Platform) (token : Bytes) : Prop where
  posted : ∀ payload nonce1 clientId call u p,
    (P.decodeAceCbor payload).bind AceCbor.accessToken = some token →
      authzInfoCall P payload = .ok (nonce1, clientId, call) → headerMaps P token = some (u, p) →
      call.headers.Keep p
  exchanged : ∀ call u p, edhocCall P token = .ok call → headerMaps P token = some (u, p) →
    call.headers.Keep p

/-- Two tokens that have everything but their unprotected headers in common. -/
inductive Variant (P : Platform) (token token' : Bytes) : HeaderMap → HeaderMap → HeaderMap → Prop
  | encrypt0 {container : CoseEncrypt0} {u' p : HeaderMap} :
    P.decodeEncrypt0 token = some container →
      P.decodeEncrypt0 token' = some { container with unprotected := u' } →
      P.decodeHeaderMap container.protectedBytes = some p →
      Variant P token token' container.unprotected u' p
  | sign1 {container : CoseSign1} {u' p : HeaderMap} :
    P.decodeEncrypt0 token = none → P.decodeEncrypt0 token' = none →
      P.decodeSign1 token = some container →
      P.decodeSign1 token' = some { container with unprotected := u' } →
      P.decodeHeaderMap container.protectedBytes = some p →
      Variant P token token' container.unprotected u' p

theorem prepareDecryption_eq {container : CoseEncrypt0}
    (decoded : P.decodeEncrypt0 token = some container)
    (read : P.decodeHeaderMap container.protectedBytes = some p) :
    (Fits P token → container.prepareDecryption P =
      .ok (container.unprotected.updatedWith p,
        P.encodeEncrypt0 "Encrypt0" container.protectedBytes [], container.encrypted)) ∧
    (¬ Fits P token → container.prepareDecryption P = .error .unpositioned) := by
  unfold Fits CoseEncrypt0.prepareDecryption
  rw [decoded, read]
  dsimp only [orError]
  rw [ok_bind]
  unfold within
  refine ⟨fun fits => ?_, fun large => ?_⟩
  · rw [if_pos fits.1, ok_bind, if_pos fits.2]
    rfl
  · rw [not_and] at large
    split
    · rename_i short
      rw [ok_bind, if_neg (large short)]
      rfl
    · rfl

theorem edhocCall_encrypt0 {container : CoseEncrypt0}
    (decoded : P.decodeEncrypt0 token = some container)
    (read : P.decodeHeaderMap container.protectedBytes = some p) :
    (Fits P token → edhocCall P token = .ok (.decryptSymmetricToken
      (container.unprotected.updatedWith p)
      (P.encodeEncrypt0 "Encrypt0" container.protectedBytes []) container.encrypted)) ∧
    (¬ Fits P token → edhocCall P token = .error .unpositioned) := by
  obtain ⟨prepared, refused⟩ := prepareDecryption_eq decoded read
  unfold edhocCall
  rw [decoded]
  dsimp only
  exact ⟨fun fits => by rw [prepared fits]; rfl, fun large => by rw [refused large]; rfl⟩

theorem edhocCall_sign1 {container : CoseSign1} (other : P.decodeEncrypt0 token = none)
    (decoded : P.decodeSign1 token = some container)
    (read : P.decodeHeaderMap container.protectedBytes = some p) :
    (Fits P token → edhocCall P token = .ok (.verifyAsymmetricToken
      (container.unprotected.updatedWith p)
      (P.encodeSignature1 "Signature1" container.protectedBytes [] container.payload)
      container.signature container.payload)) ∧
    (¬ Fits P token → edhocCall P token = .error .unpositioned) := by
  unfold Fits edhocCall
  rw [other, decoded]
  dsimp only
  rw [read]
  dsimp only [orError]
  rw [ok_bind]
  unfold within
  exact ⟨fun fits => by rw [if_pos fits]; rfl, fun large => by rw [if_neg large]; rfl⟩

namespace Variant

theorem fits (variant : Variant P token token' u u' p) : Fits P token' ↔ Fits P token := by
  cases variant with
  | encrypt0 here there _ =>
    unfold Fits
    rw [here, there]
  | sign1 otherHere otherThere here there _ =>
    unfold Fits
    rw [otherHere, otherThere, here, there]

/-- The calls for the two tokens differ only in the headers. -/
theorem call_eq (variant : Variant P token token' u u' p) : ∃ make : HeaderMap → AuthorityCall,
    (∀ headers, (make headers).headers = headers) ∧
      (Fits P token → edhocCall P token = .ok (make (u.updatedWith p)) ∧
        edhocCall P token' = .ok (make (u'.updatedWith p))) ∧
      (¬ Fits P token → edhocCall P token = .error .unpositioned ∧
        edhocCall P token' = .error .unpositioned) := by
  have same := variant.fits
  cases variant with
  | @encrypt0 container _ _ here there read =>
    obtain ⟨first, refused⟩ := edhocCall_encrypt0 here read
    obtain ⟨second, refused'⟩ := edhocCall_encrypt0 there read
    refine ⟨fun headers => .decryptSymmetricToken headers
      (P.encodeEncrypt0 "Encrypt0" container.protectedBytes []) container.encrypted, fun _ => rfl,
      fun fits => ⟨first fits, second (same.mpr fits)⟩,
      fun large => ⟨refused large, refused' (mt same.mp large)⟩⟩
  | @sign1 container _ _ otherHere otherThere here there read =>
    obtain ⟨first, refused⟩ := edhocCall_sign1 otherHere here read
    obtain ⟨second, refused'⟩ := edhocCall_sign1 otherThere there read
    refine ⟨fun headers => .verifyAsymmetricToken headers
      (P.encodeSignature1 "Signature1" container.protectedBytes [] container.payload)
      container.signature container.payload, fun _ => rfl,
      fun fits => ⟨first fits, second (same.mpr fits)⟩,
      fun large => ⟨refused large, refused' (mt same.mp large)⟩⟩

theorem refl (maps : headerMaps P token = some (u, p)) : Variant P token token u u p := by
  unfold headerMaps at maps
  split at maps
  · rename_i container decoded
    obtain ⟨_, read, same⟩ := Option.map_eq_some_iff.mp maps
    cases same
    exact .encrypt0 decoded decoded read
  · rename_i container other decoded
    obtain ⟨_, read, same⟩ := Option.map_eq_some_iff.mp maps
    cases same
    exact .sign1 other other decoded decoded read
  · cases maps

end Variant

/-- A token that is posted makes the same call, if it is encrypted with the expected algorithm. -/
theorem authzInfoCall_eq (decoded : P.decodeAceCbor payload = some aceCbor)
    (posted : aceCbor.accessToken = some token) :
    authzInfoCall P payload = (do
      let nonce1 ← orError .unpositioned aceCbor.nonce1
      let aceClientRecipientid ← orError .unpositioned aceCbor.aceClientRecipientid
      let _ ← orError .unpositioned (P.decodeEncrypt0 token)
      let call ← edhocCall P token
      if call.headers.alg ≠ some 31 then
        .error .unpositioned
      else
        return (nonce1, aceClientRecipientid, call)) := by
  unfold authzInfoCall edhocCall
  rw [decoded]
  dsimp only [orError]
  rw [ok_bind]
  obtain ⟨accessToken, nonce1, _, clientId, _⟩ := aceCbor
  obtain rfl : accessToken = some token := posted
  rcases nonce1 with _ | nonce1
  · rfl
  rcases clientId with _ | clientId
  · rfl
  dsimp only
  simp only [ok_bind]
  cases P.decodeEncrypt0 token with
  | none => rfl
  | some encrypt0 =>
    dsimp only
    simp only [ok_bind]
    cases encrypt0.prepareDecryption P <;> rfl

/-- The values of the protected headers are passed on exactly if the token does not come with another
    value, or is too long to be checked. -/
theorem protectedFirst_iff : ProtectedFirst P token ↔
    (Fits P token → ∀ u p, headerMaps P token = some (u, p) → u.Agree p) := by
  apply Iff.intro
  · intro first fits u p maps
    obtain ⟨make, headers, called, -⟩ := (Variant.refl maps).call_eq
    have keep := first.exchanged _ u p (called fits).1 maps
    rw [headers] at keep
    exact HeaderMap.updatedWith_keep.mp keep
  · intro agree
    have exchanged : ∀ call u p, edhocCall P token = .ok call → headerMaps P token = some (u, p) →
        call.headers.Keep p := by
      intro call u p asked maps
      obtain ⟨make, headers, called, refused⟩ := (Variant.refl maps).call_eq
      have fits : Fits P token := by
        by_contra large
        rw [(refused large).1] at asked
        cases asked
      rw [(called fits).1] at asked
      cases asked
      rw [headers]
      exact HeaderMap.updatedWith_keep.mpr (agree fits u p maps)
    refine ⟨fun payload nonce1 clientId call u p posted asked maps => ?_, exchanged⟩
    obtain ⟨aceCbor, decoded, posted⟩ := Option.bind_eq_some_iff.mp posted
    rw [authzInfoCall_eq decoded posted] at asked
    obtain ⟨_, -, asked⟩ := bind_ok_iff.mp asked
    obtain ⟨_, -, asked⟩ := bind_ok_iff.mp asked
    obtain ⟨_, -, asked⟩ := bind_ok_iff.mp asked
    obtain ⟨call', made, asked⟩ := bind_ok_iff.mp asked
    split at asked
    · cases asked
    · cases asked
      exact exchanged _ u p made maps

/-- No authority lets the tokens have different outcomes. -/
def SameOutcome (P : Platform) (token token' : Bytes) : Prop :=
  ∀ cfg : ServerSecurityConfig P, processEdhocToken cfg token = processEdhocToken cfg token'

def SamePostOutcome (P : Platform) (payload payload' : Bytes) : Prop :=
  ∀ (cfg : ServerSecurityConfig P) (nonce2 : Bytes) (serverRecipientId : Bytes → Except Panic COwn),
    processAcecborAuthzInfo cfg payload nonce2 serverRecipientId =
      processAcecborAuthzInfo cfg payload' nonce2 serverRecipientId

/-- An authority that has an answer of its own to some headers. -/
def recognizing (P : Platform) (headers : HeaderMap) : ServerSecurityConfig P where
  parsesTokens := true
  hasEdhoc := true
  Claims := Empty
  requestIsAllowed claims _ := claims.elim
  timeConstraint claims := claims.elim
  isImportant claims := claims.elim
  decryptSymmetricToken given _ _ := .error ⟨if given = headers then some 0 else none⟩
  verifyAsymmetricToken given _ _ _ := .error ⟨if given = headers then some 0 else none⟩
  ownEdhocCredential := none
  expandIdCredX _ := none
  nosecAuthorization := none
  renderNotAllowed message := (message, false)

theorem recognizing_answer (headers : HeaderMap) (call : AuthorityCall) :
    call.answer (recognizing P headers) =
      .error ⟨if call.headers = headers then some 0 else none⟩ := by
  cases call <;> rfl

theorem processEdhocToken_recognizing (headers : HeaderMap) :
    processEdhocToken (recognizing P headers) token =
      edhocCall P token >>= fun call => .error ⟨if call.headers = headers then some 0 else none⟩ := by
  unfold processEdhocToken
  rw [processToken_eq]
  cases edhocCall P token with
  | error e => rfl
  | ok call =>
    rw [ok_bind, recognizing_answer]
    rfl

/-- Tokens that differ in unprotected headers have one outcome exactly if their headers come out the
    same. -/
theorem sameOutcome_iff (variant : Variant P token token' u u' p)
    (differ : HeaderMap.DifferWithin p u u') :
    SameOutcome P token token' ↔ (Fits P token → HeaderMap.SameValues p u u') := by
  obtain ⟨make, headers, called, refused⟩ := variant.call_eq
  rw [← HeaderMap.updatedWith_eq differ]
  apply Iff.intro
  · intro same fits
    have outcome := same (recognizing P (u.updatedWith p))
    rw [processEdhocToken_recognizing, processEdhocToken_recognizing, (called fits).1,
      (called fits).2, ok_bind, ok_bind, headers, headers, if_pos rfl] at outcome
    by_contra differs
    rw [if_neg (Ne.symm differs)] at outcome
    cases outcome
  · intro same cfg
    have calls : edhocCall P token = edhocCall P token' := by
      by_cases fits : Fits P token
      · rw [(called fits).1, (called fits).2, same fits]
      · rw [(refused fits).1, (refused fits).2]
    unfold processEdhocToken
    rw [processToken_eq, processToken_eq, calls]

/-- A post that leads to a call: it is complete, and its token encrypted with the expected algorithm. -/
structure Asks (P : Platform) (aceCbor : AceCbor) (token : Bytes) (u p : HeaderMap) : Prop where
  nonce1 : aceCbor.nonce1 ≠ none
  clientId : aceCbor.aceClientRecipientid ≠ none
  encrypted : P.decodeEncrypt0 token ≠ none
  fits : Fits P token
  algorithm : u.alg = some 31 ∨ (u.alg = none ∧ p.alg = some 31)

theorem updatedWith_alg : (u.updatedWith p).alg = some 31 ↔
    u.alg = some 31 ∨ (u.alg = none ∧ p.alg = some 31) := by
  unfold HeaderMap.updatedWith
  cases u.alg <;> simp

theorem authzInfoCall_asks {call : AuthorityCall} (decoded : P.decodeAceCbor payload = some aceCbor)
    (posted : aceCbor.accessToken = some token) (called : Fits P token → edhocCall P token = .ok call)
    (refused : ¬ Fits P token → edhocCall P token = .error .unpositioned)
    (headers : call.headers = u.updatedWith p) :
    (Asks P aceCbor token u p → authzInfoCall P payload =
      .ok (aceCbor.nonce1.getD [], aceCbor.aceClientRecipientid.getD [], call)) ∧
    (¬ Asks P aceCbor token u p → authzInfoCall P payload = .error .unpositioned) := by
  have alg := updatedWith_alg (u := u) (p := p)
  rw [← headers] at alg
  rw [authzInfoCall_eq decoded posted]
  refine ⟨fun asks => ?_, fun silent => ?_⟩
  · obtain ⟨nonce1, given⟩ := Option.ne_none_iff_exists'.mp asks.nonce1
    obtain ⟨clientId, given'⟩ := Option.ne_none_iff_exists'.mp asks.clientId
    obtain ⟨container, encrypted⟩ := Option.ne_none_iff_exists'.mp asks.encrypted
    rw [given, given', encrypted, called asks.fits]
    dsimp only [orError]
    simp only [ok_bind]
    rw [if_neg (not_not.mpr (alg.mpr asks.algorithm))]
    rfl
  · cases given : aceCbor.nonce1 with
    | none => rfl
    | some nonce1 =>
      cases given' : aceCbor.aceClientRecipientid with
      | none => rfl
      | some clientId =>
        cases encrypted : P.decodeEncrypt0 token with
        | none => rfl
        | some container =>
          dsimp only [orError]
          simp only [ok_bind]
          by_cases fits : Fits P token
          · have other : call.headers.alg ≠ some 31 := fun same =>
              silent ⟨by simp [given], by simp [given'], by simp [encrypted], fits, alg.mp same⟩
            rw [called fits, ok_bind, if_pos other]
          · rw [refused fits]
            rfl

theorem processAcecborAuthzInfo_recognizing (headers : HeaderMap) (nonce2 : Bytes)
    (serverRecipientId : Bytes → Except Panic COwn) :
    processAcecborAuthzInfo (recognizing P headers) payload nonce2 serverRecipientId =
      mayFail (authzInfoCall P payload) >>= fun (_, _, call) =>
        .error (.error ⟨if call.headers = headers then some 0 else none⟩) := by
  unfold processAcecborAuthzInfo
  rw [decryptAuthzInfo_eq]
  cases authzInfoCall P payload with
  | error e => rfl
  | ok asked =>
    obtain ⟨nonce1, clientId, call⟩ := asked
    rw [ok_bind]
    dsimp only
    rw [recognizing_answer]
    rfl

theorem SamePostOutcome.headers {nonce1 clientId : Bytes} {call : AuthorityCall}
    (same : SamePostOutcome P payload payload')
    (asked : authzInfoCall P payload = .ok (nonce1, clientId, call)) :
    authzInfoCall P payload' ≠ .error .unpositioned ∧ ∀ nonce1' clientId' call',
      authzInfoCall P payload' = .ok (nonce1', clientId', call') → call'.headers = call.headers := by
  have outcome := same (recognizing P call.headers) [] fun _ => .error .unreachableCode
  rw [processAcecborAuthzInfo_recognizing, processAcecborAuthzInfo_recognizing, asked] at outcome
  refine ⟨fun silent => ?_, fun nonce1' clientId' call' asked' => ?_⟩
  · rw [silent] at outcome
    simp [mayFail, CredentialError.unpositioned] at outcome
  · rw [asked'] at outcome
    simpa [mayFail, eq_comm] using outcome

theorem samePostOutcome_iff (variant : Variant P token token' u u' p)
    (differ : HeaderMap.DifferWithin p u u') (decoded : P.decodeAceCbor payload = some aceCbor)
    (posted : aceCbor.accessToken = some token)
    (decoded' : P.decodeAceCbor payload' = some { aceCbor with accessToken := some token' }) :
    SamePostOutcome P payload payload' ↔
      (Asks P aceCbor token u p ∨ Asks P aceCbor token u' p → HeaderMap.SameValues p u u') := by
  obtain ⟨make, headers, called, refused⟩ := variant.call_eq
  obtain ⟨first, silent⟩ := authzInfoCall_asks (u := u) (p := p) decoded posted
    (fun fits => (called fits).1) (fun large => (refused large).1) (headers _)
  obtain ⟨second, silent'⟩ := authzInfoCall_asks (u := u') (p := p) decoded' rfl
    (fun fits => (called (variant.fits.mp fits)).2)
    (fun large => (refused (mt variant.fits.mpr large)).2) (headers _)
  have same : Asks P { aceCbor with accessToken := some token' } token' u' p ↔
      Asks P aceCbor token u' p := by
    have encrypted : P.decodeEncrypt0 token' ≠ none ↔ P.decodeEncrypt0 token ≠ none := by
      cases variant with
      | encrypt0 here there _ => simp [here, there]
      | sign1 otherHere otherThere _ _ _ => simp [otherHere, otherThere]
    exact ⟨fun asks => ⟨asks.nonce1, asks.clientId, encrypted.mp asks.encrypted,
        variant.fits.mp asks.fits, asks.algorithm⟩,
      fun asks => ⟨asks.nonce1, asks.clientId, encrypted.mpr asks.encrypted,
        variant.fits.mpr asks.fits, asks.algorithm⟩⟩
  rw [same] at second silent'
  rw [← HeaderMap.updatedWith_eq differ]
  apply Iff.intro
  · intro outcome asked
    rcases asked with asks | asks
    · obtain ⟨answered, equal⟩ := outcome.headers (first asks)
      have asks' : Asks P aceCbor token u' p := not_not.mp (mt silent' answered)
      have equal := equal _ _ _ (second asks')
      rw [headers, headers] at equal
      exact equal.symm
    · have back : SamePostOutcome P payload' payload := fun cfg nonce2 id => (outcome cfg nonce2 id).symm
      obtain ⟨answered, equal⟩ := back.headers (second asks)
      have asks' : Asks P aceCbor token u p := not_not.mp (mt silent answered)
      have equal := equal _ _ _ (first asks')
      rwa [headers, headers] at equal
  · intro equal cfg nonce2 serverRecipientId
    have calls : authzInfoCall P payload = authzInfoCall P payload' := by
      by_cases asks : Asks P aceCbor token u p
      · have asks' : Asks P aceCbor token u' p := by
          refine ⟨asks.nonce1, asks.clientId, asks.encrypted, asks.fits, updatedWith_alg.mp ?_⟩
          rw [← equal (Or.inl asks)]
          exact updatedWith_alg.mpr asks.algorithm
        rw [first asks, second asks', equal (Or.inl asks)]
      · have asks' : ¬ Asks P aceCbor token u' p := by
          intro asks'
          refine asks ⟨asks'.nonce1, asks'.clientId, asks'.encrypted, asks'.fits, updatedWith_alg.mp ?_⟩
          rw [equal (Or.inr asks')]
          exact updatedWith_alg.mpr asks'.algorithm
        rw [silent asks, silent' asks']
    unfold processAcecborAuthzInfo
    rw [decryptAuthzInfo_eq, decryptAuthzInfo_eq, calls]

/-- The protected headers take precedence exactly in the tokens whose unprotected headers do not
    contradict them, on both paths. Changes of unprotected headers are without effect exactly if the
    values come out the same. -/
theorem protected_headers_iff (P : Platform) :
    (∀ token, ProtectedFirst P token ↔
      (Fits P token → ∀ u p, headerMaps P token = some (u, p) → u.Agree p)) ∧
    ∀ token token' u u' p, Variant P token token' u u' p → HeaderMap.DifferWithin p u u' →
      (u.Agree p → u'.Agree p → HeaderMap.SameValues p u u') ∧
      (SameOutcome P token token' ↔ (Fits P token → HeaderMap.SameValues p u u')) ∧
      ∀ aceCbor payload payload', P.decodeAceCbor payload = some aceCbor →
        aceCbor.accessToken = some token →
        P.decodeAceCbor payload' = some { aceCbor with accessToken := some token' } →
        (SamePostOutcome P payload payload' ↔
          (Asks P aceCbor token u p ∨ Asks P aceCbor token u' p → HeaderMap.SameValues p u u')) :=
  ⟨fun _ => protectedFirst_iff, fun _ _ _ _ _ variant differ =>
    ⟨HeaderMap.SameValues.of_agree, sameOutcome_iff variant differ,
      fun _ _ _ decoded posted decoded' => samePostOutcome_iff variant differ decoded posted decoded'⟩⟩

namespace Clear

/-- A tagged COSE_Encrypt0 with the protected headers `{1: 31}` and the unprotected headers
    `{1: 10}`. -/
def conflictingToken : Bytes :=
  [0xd0, 0x83, 0x44, 0xa1, 0x01, 0x18, 0x1f, 0xa1, 0x01, 0x0a, 0x50] ++ List.replicate 16 0

def conflicting : Platform := { Platform.clear with
  decodeEncrypt0 := fun token =>
    if token = conflictingToken then
      some {
        protectedBytes := [0xa1, 0x01, 0x18, 0x1f]
        unprotected := { alg := some 10, iv := none }
        encrypted := List.replicate 16 0 }
    else
      none
  decodeHeaderMap := fun bytes =>
    if bytes = [0xa1, 0x01, 0x18, 0x1f] then some { alg := some 31, iv := none } else none
  encodeEncrypt0 := fun context protectedBytes externalAad => Cbor.array
    [Cbor.text (ascii context), Cbor.byteString protectedBytes, Cbor.byteString externalAad] }

end Clear

theorem unprotected_header_wins :
    headerMaps Clear.conflicting Clear.conflictingToken = some (⟨some 10, none⟩, ⟨some 31, none⟩) ∧
      (∃ call, edhocCall Clear.conflicting Clear.conflictingToken = .ok call ∧
        call.headers.alg = some 10) ∧
      ¬ ProtectedFirst Clear.conflicting Clear.conflictingToken := by
  refine ⟨by decide, ⟨_, rfl, rfl⟩, fun first => ?_⟩
  have passed := (first.exchanged _ _ _ rfl rfl).1 31 rfl
  exact absurd passed (by decide)

end ArielOS.Coapcore
