import ArielOS.Coapcore.ClearPlatform
import ArielOS.Coapcore.ConfigBuilder
import ArielOS.Coapcore.SecContextSpec

namespace ArielOS.Coapcore

open Machine

variable {P : Platform} {crates : SecurityCrates P} {builder : ConfigBuilder P} {token : Bytes}
  {headers : HeaderMap} {claims parsed : CwtClaimsSet} {processed : ConfigBuilderClaims}

/-- The headers of a COSE_Encrypt0 token, merged. -/
def encrypt0Headers (P : Platform) (token : Bytes) : Option HeaderMap := do
  let encrypt0 ← P.decodeEncrypt0 token
  let protectedHeaders ← P.decodeHeaderMap encrypt0.protectedBytes
  return encrypt0.unprotected.updatedWith protectedHeaders

/-- The headers of a token that is a COSE_Sign1 and no COSE_Encrypt0, merged. -/
def sign1Headers (P : Platform) (token : Bytes) : Option HeaderMap :=
  match P.decodeEncrypt0 token, P.decodeSign1 token with
  | none, some sign1 => do
    let protectedHeaders ← P.decodeHeaderMap sign1.protectedBytes
    return sign1.unprotected.updatedWith protectedHeaders
  | _, _ => none

/-- The claims that a COSE_Encrypt0 token has under the symmetric key, whatever its algorithm. -/
def Decrypts (crates : SecurityCrates P) (builder : ConfigBuilder P) (token : Bytes)
    (claims : CwtClaimsSet) : Prop :=
  ∃ encrypt0 headers aad buffer key nonce plaintext audience scope,
    P.decodeEncrypt0 token = some encrypt0 ∧
      encrypt0.prepareDecryption P = .ok (headers, aad, buffer) ∧ builder.asKey31 = some key ∧
      headers.iv = some nonce ∧ nonce.length = ConfigBuilder.nonceSize ∧
      ConfigBuilder.tagSize ≤ buffer.length ∧
      crates.decryptDetached key nonce aad (buffer.take (buffer.length - ConfigBuilder.tagSize))
        (buffer.drop (buffer.length - ConfigBuilder.tagSize)) = some plaintext ∧
      crates.decodeClaims plaintext = some (claims, audience) ∧
      AifValue.parse crates claims.scope = some scope

/-- The claims name a key that fits in a credential, and nothing else. -/
def ConfirmsKey (P : Platform) (claims : CwtClaimsSet) : Prop :=
  ∃ key x, claims.cnf = { osc := none, coseKey := some key } ∧
    4 + key.opaqueBytes.length ≤ P.maxCredentialSize ∧ key.x = some x ∧ x.length = 32

theorem within_ok {capacity : Nat} {bytes fitted : Bytes} :
    within capacity bytes = .ok fitted ↔ bytes.length ≤ capacity ∧ fitted = bytes := by
  unfold within
  split
  · rename_i fits
    simp [fits, eq_comm]
  · rename_i large
    simp [large]

theorem tokenClaims_ok {result : ConfigBuilderClaims × CwtClaimsSet} :
    ConfigBuilder.tokenClaims crates claims = .ok result ↔
      ∃ scope, AifValue.parse crates claims.scope = some scope ∧
        result = (⟨.aifValue scope, ⟨some claims.exp⟩, false⟩, claims) := by
  unfold ConfigBuilder.tokenClaims
  rw [bind_ok_iff]
  apply exists_congr
  intro scope
  rw [orError_ok, pure_eq_ok, Except.ok.injEq, eq_comm (a := result)]

theorem decryptSymmetricToken_ok {aad buffer : Bytes}
    (done : builder.decryptSymmetricToken crates headers aad buffer = .ok (processed, parsed)) :
    ∃ key nonce plaintext audience scope, builder.asKey31 = some key ∧ headers.iv = some nonce ∧
      nonce.length = ConfigBuilder.nonceSize ∧ ConfigBuilder.tagSize ≤ buffer.length ∧
      crates.decryptDetached key nonce aad (buffer.take (buffer.length - ConfigBuilder.tagSize))
        (buffer.drop (buffer.length - ConfigBuilder.tagSize)) = some plaintext ∧
      crates.decodeClaims plaintext = some (parsed, audience) ∧
      AifValue.parse crates parsed.scope = some scope := by
  obtain ⟨key, known, done⟩ := bind_ok_iff.mp done
  obtain ⟨nonce, given, done⟩ := bind_ok_iff.mp done
  split at done
  · cases done
  rename_i fits
  split at done
  · cases done
  rename_i long
  obtain ⟨plaintext, decrypted, done⟩ := bind_ok_iff.mp done
  obtain ⟨⟨claims, audience⟩, decoded, done⟩ := bind_ok_iff.mp done
  obtain ⟨scope, allowed, same⟩ := tokenClaims_ok.mp done
  cases same
  exact ⟨key, nonce, plaintext, audience, scope, orError_ok.mp known, orError_ok.mp given,
    not_not.mp fits, Nat.not_lt.mp long, orError_ok.mp decrypted, orError_ok.mp decoded, allowed⟩

theorem decryptSymmetricToken_of_decrypts (decrypts : Decrypts crates builder token claims) :
    ∃ processed, processToken (builder.config crates) token = .ok (processed, claims) := by
  obtain ⟨encrypt0, headers, aad, buffer, key, nonce, plaintext, audience, scope, decoded, prepared,
    known, given, fits, long, decrypted, decodedClaims, allowed⟩ := decrypts
  refine ⟨⟨.aifValue scope, ⟨some claims.exp⟩, false⟩, ?_⟩
  unfold processToken
  rw [decoded]
  dsimp only
  rw [prepared, ok_bind]
  change builder.decryptSymmetricToken crates headers aad buffer = _
  unfold ConfigBuilder.decryptSymmetricToken
  rw [known, given]
  simp only [orError, ok_bind, fits, ne_eq, not_true_eq_false, ↓reduceIte, Nat.not_lt.mpr long,
    decrypted, decodedClaims]
  exact tokenClaims_ok.mpr ⟨scope, allowed, rfl⟩

theorem prepareDecryption_headers {encrypt0 : CoseEncrypt0} {aad buffer : Bytes}
    (decoded : P.decodeEncrypt0 token = some encrypt0)
    (prepared : encrypt0.prepareDecryption P = .ok (headers, aad, buffer)) :
    encrypt0Headers P token = some headers := by
  obtain ⟨protectedHeaders, read, prepared⟩ := bind_ok_iff.mp prepared
  obtain ⟨aad', -, prepared⟩ := bind_ok_iff.mp prepared
  obtain ⟨buffer', -, prepared⟩ := bind_ok_iff.mp prepared
  cases prepared
  simp [encrypt0Headers, decoded, orError_ok.mp read]

/-- The claims of a token come from under the symmetric key, or from a signature with ES256. -/
theorem processToken_ok
    (done : processToken (builder.config crates) token = .ok (processed, parsed)) :
    (Decrypts crates builder token parsed ∧ sign1Headers P token = none) ∨
      (encrypt0Headers P token = none ∧ ∀ headers, sign1Headers P token = some headers →
        headers.alg = some (-7)) := by
  unfold processToken at done
  split at done
  · rename_i _ encrypt0 decoded
    obtain ⟨⟨headers, aad, buffer⟩, prepared, done⟩ := bind_ok_iff.mp done
    obtain ⟨key, nonce, plaintext, audience, scope, checks⟩ := decryptSymmetricToken_ok done
    refine Or.inl ⟨⟨encrypt0, headers, aad, buffer, key, nonce, plaintext, audience, scope, decoded,
      prepared, checks⟩, ?_⟩
    simp [sign1Headers, decoded]
  · rename_i sign1 none_ decoded
    obtain ⟨protectedHeaders, read, done⟩ := bind_ok_iff.mp done
    obtain ⟨signed, -, done⟩ := bind_ok_iff.mp done
    refine Or.inr ⟨by simp [encrypt0Headers, none_], fun headers given => ?_⟩
    have same : sign1.unprotected.updatedWith protectedHeaders = headers := by
      simpa [sign1Headers, none_, decoded, orError_ok.mp read] using given
    change builder.verifyAsymmetricToken crates _ signed _ _ = _ at done
    unfold ConfigBuilder.verifyAsymmetricToken at done
    split at done
    · cases done
    · rename_i algorithm
      rw [← same]
      exact not_not.mp algorithm
  · cases done

theorem processEdhocToken_ok {accepted : P.Credential × ConfigBuilderClaims}
    (done : processEdhocToken (builder.config crates) token = .ok accepted) :
    ∃ processed parsed, processToken (builder.config crates) token = .ok (processed, parsed) ∧
      ConfirmsKey P parsed := by
  obtain ⟨⟨processed, parsed⟩, processedToken, done⟩ := bind_ok_iff.mp done
  refine ⟨processed, parsed, processedToken, ?_⟩
  dsimp only at done
  split at done
  · rename_i key confirmation
    obtain ⟨prefixed, fits, done⟩ := bind_ok_iff.mp done
    obtain ⟨x, present, done⟩ := bind_ok_iff.mp done
    split at done
    · rename_i length
      have short := (within_ok.mp fits).1
      rw [List.length_append] at short
      exact ⟨key, x, confirmation, short, orError_ok.mp present, length⟩
    · cases done
  · cases done

theorem processEdhocToken_of_confirmsKey
    (done : processToken (builder.config crates) token = .ok (processed, parsed))
    (confirms : ConfirmsKey P parsed) :
    ∃ accepted, processEdhocToken (builder.config crates) token = .ok accepted := by
  obtain ⟨key, x, confirmation, short, present, length⟩ := confirms
  refine ⟨(P.newCcs ([0xa1, 0x08, 0xa1, 0x01] ++ key.opaqueBytes) x, processed), ?_⟩
  unfold processEdhocToken
  rw [done, ok_bind]
  dsimp only
  rw [confirmation]
  dsimp only
  have fits : within P.maxCredentialSize ([0xa1, 0x08, 0xa1, 0x01] ++ key.opaqueBytes) =
      .ok ([0xa1, 0x08, 0xa1, 0x01] ++ key.opaqueBytes) :=
    within_ok.mpr ⟨by rw [List.length_append]; exact short, rfl⟩
  rw [fits, ok_bind, orError_ok.mpr present, ok_bind, if_pos length]
  rfl

theorem processAcecborAuthzInfo_alg {payload nonce2 : Bytes}
    {serverRecipientId : Bytes → Except Panic COwn}
    {accepted : AceCborAuthzInfoResponse × P.Context × ConfigBuilderClaims}
    (posted : (P.decodeAceCbor payload).bind AceCbor.accessToken = some token)
    (done : processAcecborAuthzInfo (builder.config crates) payload nonce2 serverRecipientId =
      .ok accepted) :
    ∃ headers, encrypt0Headers P token = some headers ∧ headers.alg = some 31 := by
  obtain ⟨result, decrypted, -⟩ := bind_ok_iff.mp done
  obtain ⟨aceCbor, decoded, decrypted⟩ := bind_ok_iff.mp (mayFail_ok.mp decrypted)
  split at decrypted
  · rename_i accessToken nonce1 clientId
    rw [orError_ok.mp decoded] at posted
    cases posted
    obtain ⟨encrypt0, container, decrypted⟩ := bind_ok_iff.mp decrypted
    obtain ⟨⟨headers, aad, buffer⟩, prepared, decrypted⟩ := bind_ok_iff.mp decrypted
    dsimp only at decrypted
    split at decrypted
    · cases decrypted
    · rename_i algorithm
      exact ⟨headers, prepareDecryption_headers (orError_ok.mp container) prepared,
        not_not.mp algorithm⟩
  · cases decrypted

/-- What is accepted on either path has the algorithm of its container. -/
structure AlgorithmsEnforced (crates : SecurityCrates P) (builder : ConfigBuilder P) (token : Bytes) :
    Prop where
  posted : ∀ payload nonce2 serverRecipientId accepted,
    (P.decodeAceCbor payload).bind AceCbor.accessToken = some token →
      processAcecborAuthzInfo (builder.config crates) payload nonce2 serverRecipientId =
        .ok accepted →
      ∃ headers, encrypt0Headers P token = some headers ∧ headers.alg = some 31
  encrypted : ∀ accepted, processEdhocToken (builder.config crates) token = .ok accepted →
    ∀ headers, encrypt0Headers P token = some headers → headers.alg = some 31
  signed : ∀ accepted, processEdhocToken (builder.config crates) token = .ok accepted →
    ∀ headers, sign1Headers P token = some headers → headers.alg = some (-7)

/-- Both paths enforce the algorithms of a token exactly if it does not decrypt to claims with a key
    under another algorithm than 31. -/
theorem algorithms_enforced_iff (crates : SecurityCrates P) (builder : ConfigBuilder P)
    (token : Bytes) :
    AlgorithmsEnforced crates builder token ↔
      ∀ claims, Decrypts crates builder token claims → ConfirmsKey P claims →
        ∀ headers, encrypt0Headers P token = some headers → headers.alg = some 31 := by
  apply Iff.intro
  · intro enforced claims decrypts confirms
    obtain ⟨processed, done⟩ := decryptSymmetricToken_of_decrypts decrypts
    obtain ⟨accepted, done⟩ := processEdhocToken_of_confirmsKey done confirms
    exact enforced.encrypted accepted done
  · intro enforced
    refine ⟨fun _ _ _ _ posted done => processAcecborAuthzInfo_alg posted done, ?_, ?_⟩
    · intro accepted done headers given
      obtain ⟨processed, parsed, done, confirms⟩ := processEdhocToken_ok done
      rcases processToken_ok done with ⟨decrypts, -⟩ | ⟨other, -⟩
      · exact enforced parsed decrypts confirms headers given
      · rw [other] at given
        cases given
    · intro accepted done headers given
      obtain ⟨processed, parsed, done, confirms⟩ := processEdhocToken_ok done
      rcases processToken_ok done with ⟨-, other⟩ | ⟨-, signed⟩
      · rw [other] at given
        cases given
      · exact signed headers given

namespace Clear

/-- Tokens are encrypted with the algorithm 10, and are the payload that is posted. -/
def otherAlgorithm : Platform := { Platform.clear with
  decodeAceCbor := fun payload => some {
    accessToken := some payload
    nonce1 := some []
    nonce2 := none
    aceClientRecipientid := some [1]
    aceServerRecipientid := none }
  decodeEncrypt0 := fun token => some {
    protectedBytes := []
    unprotected := { alg := some 10, iv := some (List.replicate 13 0) }
    encrypted := token }
  decodeHeaderMap := fun _ => some { alg := none, iv := none } }

/-- Every plaintext holds the claims of one peer, who is allowed nothing. -/
def openCrates : SecurityCrates otherAlgorithm where
  decryptDetached _ _ _ ciphertext _ := some ciphertext
  VerifyingKey := Unit
  Signature := Unit
  verifyingKey _ _ := none
  signature _ := none
  verify _ _ _ := false
  decodeClaims _ := some ({
    exp := 0
    cnf := { osc := none, coseKey := some { opaqueBytes := [], x := some (List.replicate 32 0) } }
    scope := [] }, none)
  decodeAif _ := some []
  referenceOnly _ := true
  byKid _ := none
  byValue _ := none
  getCcs _ := none
  sameIdCred := inferInstanceAs (DecidableEq Bytes)

def openBuilder : ConfigBuilder otherAlgorithm where
  asKey31 := some (List.replicate 32 0)
  asKeyNeg7 := none
  unauthenticatedScope := none
  ownEdhocCredential := none
  knownEdhocClients := none
  requestCreationHints := []

/-- An empty plaintext and its tag. -/
def otherToken : Bytes := List.replicate ConfigBuilder.tagSize 0

end Clear

/-- A token with the algorithm 10 is refused where it is posted, and accepted in an EAD item. -/
theorem other_algorithm_accepted :
    processAcecborAuthzInfo (Clear.openBuilder.config Clear.openCrates) Clear.otherToken []
        (fun _ => .ok ⟨0, by decide⟩) = .error (.error .unpositioned) ∧
      (∃ accepted, processEdhocToken (Clear.openBuilder.config Clear.openCrates) Clear.otherToken =
        .ok accepted) ∧
      ¬ AlgorithmsEnforced Clear.openCrates Clear.openBuilder Clear.otherToken := by
  refine ⟨rfl, ⟨_, rfl⟩, fun enforced => ?_⟩
  exact absurd (enforced.encrypted _ rfl _ rfl) (by decide)

end ArielOS.Coapcore
