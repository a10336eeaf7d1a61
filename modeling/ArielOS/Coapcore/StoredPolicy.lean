import ArielOS.Coapcore.ClearPlatform
import ArielOS.Coapcore.ConfigBuilder

namespace ArielOS.Coapcore

/-- What is generated from `peers.yml`. -/
structure FlashPeers (P : Platform) where
  kccs : List (P.Credential × UnionScope)
  unauthenticatedScope : Option UnionScope

structure StoredPolicy (P : Platform) where
  ownEdhocCredential : P.Credential × P.PrivateKey

structure StoredClaims where
  scope : UnionScope

namespace StoredClaims

def timeConstraint (_ : StoredClaims) : TimeConstraint := { exp := none }

def isImportant (_ : StoredClaims) : Bool := false

end StoredClaims

namespace StoredPolicy

variable {P : Platform} (crates : SecurityCrates P) (flashPeers : FlashPeers P)

def nosecAuthorization : Option StoredClaims :=
  flashPeers.unauthenticatedScope.map fun scope => { scope }

def recognizes (credential : P.Credential) (idCredX : P.IdCred) : Bool :=
  let _ := crates.sameIdCred
  crates.byKid credential = some idCredX || crates.byValue credential = some idCredX

def expandIdCredX (idCredX : P.IdCred) : Option (P.Credential × StoredClaims) :=
  match flashPeers.kccs.find? fun (credential, _) => recognizes crates credential idCredX with
  | some (credential, scope) => some (credential, { scope })
  | none => do
    let credentialByValue ← crates.getCcs idCredX
    let unauthorizedClaims ← nosecAuthorization flashPeers
    return (credentialByValue, unauthorizedClaims)

/-- The methods that are not mentioned are those of the trait. -/
def config (policy : StoredPolicy P) : ServerSecurityConfig P where
  parsesTokens := false
  hasEdhoc := true
  Claims := StoredClaims
  requestIsAllowed claims request := claims.scope.requestIsAllowed request
  timeConstraint := StoredClaims.timeConstraint
  isImportant := StoredClaims.isImportant
  decryptSymmetricToken _ _ _ := .error .unpositioned
  verifyAsymmetricToken _ _ _ _ := .error .unpositioned
  ownEdhocCredential := some policy.ownEdhocCredential
  expandIdCredX := expandIdCredX crates flashPeers
  nosecAuthorization := nosecAuthorization flashPeers
  renderNotAllowed message := (message, false)

end StoredPolicy

/-- What lakers says of credentials: a key identifier only refers to one, and a credential by value
    does not. -/
structure SecurityCrates.References {P : Platform} (crates : SecurityCrates P) : Prop where
  kid : ∀ {credential id}, crates.byKid credential = some id → crates.referenceOnly id = true
  value : ∀ {credential id}, crates.byValue credential = some id → crates.referenceOnly id = false

variable {P : Platform} {crates : SecurityCrates P} {builder : ConfigBuilder P} {id : P.IdCred}
  {credential : P.Credential} {scope : UnionScope}

namespace ConfigBuilder

/-- Claims of an open server, for a peer that sends its credential. -/
def openAnswer (crates : SecurityCrates P) (builder : ConfigBuilder P) (id : P.IdCred) :
    Option (P.Credential × ConfigBuilderClaims) := do
  let claims ← builder.nosecAuthorization
  let sent ← crates.getCcs id
  return (sent, claims)

def expansion (crates : SecurityCrates P) (builder : ConfigBuilder P) (id : P.IdCred) :
    Option (P.Credential × ConfigBuilderClaims) :=
  match builder.knownEdhocClients with
  | some (credential, scope) =>
    if StoredPolicy.recognizes crates credential id then
      some (credential, { scope, timeConstraint := { exp := none }, isImportant := true })
    else
      openAnswer crates builder id
  | none => openAnswer crates builder id

/-- Access is open, nobody is known, and the peer sends its credential. -/
def OpenOnly (crates : SecurityCrates P) (builder : ConfigBuilder P) (id : P.IdCred) : Prop :=
  builder.knownEdhocClients = none ∧ builder.unauthenticatedScope ≠ none ∧ crates.getCcs id ≠ none

theorem openAnswer_eq_none : openAnswer crates builder id = none ↔
    ¬ (builder.unauthenticatedScope ≠ none ∧ crates.getCcs id ≠ none) := by
  unfold openAnswer nosecAuthorization
  cases builder.unauthenticatedScope <;> cases crates.getCcs id <;> simp

theorem recognizes_iff (references : crates.References) :
    (if crates.referenceOnly id then crates.byKid credential else crates.byValue credential) =
        some id ↔ StoredPolicy.recognizes crates credential id = true := by
  unfold StoredPolicy.recognizes
  cases only : crates.referenceOnly id with
  | true =>
    have other : crates.byValue credential ≠ some id := fun same =>
      Bool.noConfusion (only.symm.trans (references.value same))
    simp [other]
  | false =>
    have other : crates.byKid credential ≠ some id := fun same =>
      Bool.noConfusion (only.symm.trans (references.kid same))
    simp [other]

theorem expandIdCredX_known (references : crates.References)
    (known : builder.knownEdhocClients = some (credential, scope)) :
    builder.expandIdCredX crates id = expansion crates builder id := by
  have recognized : (if crates.referenceOnly id then crates.byKid credential else
      crates.byValue credential) = some id ↔ StoredPolicy.recognizes crates credential id = true :=
    recognizes_iff references
  unfold expandIdCredX expansion
  rw [known]
  let _ := crates.sameIdCred
  change (if (if crates.referenceOnly id then crates.byKid credential else crates.byValue credential) =
    some id then _ else _) = _
  by_cases same : StoredPolicy.recognizes crates credential id = true
  · rw [if_pos (recognized.mpr same)]
    dsimp only
    rw [if_pos same]
    rfl
  · rw [if_neg (mt recognized.mp same)]
    dsimp only
    rw [if_neg same]
    rfl

theorem expandIdCredX_unknown (unknown : builder.knownEdhocClients = none) :
    builder.expandIdCredX crates id = none := by
  unfold expandIdCredX
  rw [unknown]
  rfl

theorem expandIdCredX_eq_iff (references : crates.References) :
    builder.expandIdCredX crates id = expansion crates builder id ↔ ¬ OpenOnly crates builder id := by
  cases known : builder.knownEdhocClients with
  | some client =>
    refine iff_of_true (expandIdCredX_known references known) fun unknown => ?_
    cases known.symm.trans unknown.1
  | none =>
    rw [expandIdCredX_unknown known, expansion, known]
    dsimp only
    rw [eq_comm, openAnswer_eq_none, OpenOnly, known]
    simp

/-- Both implementations have the same peers. -/
def SamePeers (builder : ConfigBuilder P) (flashPeers : FlashPeers P) : Prop :=
  flashPeers.kccs = builder.knownEdhocClients.toList ∧
    flashPeers.unauthenticatedScope = builder.unauthenticatedScope

def answered (answer : Option (P.Credential × ConfigBuilderClaims)) :
    Option (P.Credential × UnionScope × TimeConstraint) :=
  answer.map fun (credential, claims) => (credential, claims.scope, claims.timeConstraint)

end ConfigBuilder

def StoredPolicy.answered (answer : Option (P.Credential × StoredClaims)) :
    Option (P.Credential × UnionScope × TimeConstraint) :=
  answer.map fun (credential, claims) => (credential, claims.scope, claims.timeConstraint)

namespace ConfigBuilder

variable {flashPeers : FlashPeers P}

theorem stored_expansion (same : SamePeers builder flashPeers) :
    StoredPolicy.answered (StoredPolicy.expandIdCredX crates flashPeers id) =
      answered (expansion crates builder id) := by
  have openly : StoredPolicy.answered (do
      let credentialByValue ← crates.getCcs id
      let unauthorizedClaims ← StoredPolicy.nosecAuthorization flashPeers
      return (credentialByValue, unauthorizedClaims)) = answered (openAnswer crates builder id) := by
    unfold openAnswer StoredPolicy.nosecAuthorization nosecAuthorization
    rw [same.2]
    cases crates.getCcs id <;> cases builder.unauthenticatedScope <;> rfl
  unfold StoredPolicy.expandIdCredX expansion
  rw [same.1]
  cases builder.knownEdhocClients with
  | none => exact openly
  | some client =>
    obtain ⟨credential, scope⟩ := client
    dsimp only [Option.toList]
    by_cases recognized : StoredPolicy.recognizes crates credential id = true
    · rw [if_pos recognized]
      simp only [List.find?_cons, recognized]
      rfl
    · rw [if_neg recognized]
      simp only [List.find?_cons, recognized, List.find?_nil]
      exact openly

theorem answered_injective {answer answer' : Option (P.Credential × ConfigBuilderClaims)}
    (none_ : answer = none) : answered answer = answered answer' ↔ answer = answer' := by
  subst none_
  cases answer' <;> simp [answered]

theorem answered_expansion (references : crates.References) :
    answered (builder.expandIdCredX crates id) = answered (expansion crates builder id) ↔
      ¬ OpenOnly crates builder id := by
  cases known : builder.knownEdhocClients with
  | some client =>
    have follows : builder.expandIdCredX crates id = expansion crates builder id :=
      expandIdCredX_known references known
    rw [← expandIdCredX_eq_iff references, follows]
    exact iff_of_true rfl rfl
  | none =>
    rw [answered_injective (expandIdCredX_unknown known), expandIdCredX_eq_iff references]

/-- Credentials are expanded by the law, and as by the stored policy, except on a server that is open
    to all and knows nobody. There a credential that is sent is not accepted. -/
theorem credential_expansion_iff (references : crates.References) (builder : ConfigBuilder P)
    (id : P.IdCred) :
    (builder.expandIdCredX crates id = expansion crates builder id ↔
      ¬ OpenOnly crates builder id) ∧
    (∀ flashPeers, SamePeers builder flashPeers →
      (StoredPolicy.answered (StoredPolicy.expandIdCredX crates flashPeers id) =
          answered (builder.expandIdCredX crates id) ↔
        ¬ OpenOnly crates builder id)) ∧
    ∀ credential scope, builder.knownEdhocClients = some (credential, scope) →
      StoredPolicy.recognizes crates credential id = false →
      ({ builder with knownEdhocClients := none }.expandIdCredX crates id =
          builder.expandIdCredX crates id ↔
        ¬ OpenOnly crates { builder with knownEdhocClients := none } id) := by
  refine ⟨expandIdCredX_eq_iff references, fun flashPeers same => ?_,
    fun credential scope known other => ?_⟩
  · rw [stored_expansion same, eq_comm, answered_expansion references]
  · have law : expansion crates { builder with knownEdhocClients := none } id =
        expansion crates builder id := by
      unfold expansion
      rw [known]
      dsimp only
      rw [if_neg (by simp [other])]
      rfl
    rw [expandIdCredX_known references known, ← law, expandIdCredX_eq_iff references]

end ConfigBuilder

namespace Clear

/-- Credentials begin with their key identifier, and are sent as `{14: credential}`. -/
def referenceCrates : SecurityCrates .clear where
  decryptDetached _ _ _ _ _ := none
  VerifyingKey := Unit
  Signature := Unit
  verifyingKey _ _ := none
  signature _ := none
  verify _ _ _ := false
  decodeClaims _ := none
  decodeAif _ := none
  referenceOnly (id : Bytes) := id.length = 1
  byKid (credential : Bytes) := credential.head?.map fun kid => [kid]
  byValue (credential : Bytes) := some (0xa1 :: 0x0e :: credential)
  getCcs (id : Bytes) := if id.take 2 = [0xa1, 0x0e] then some (id.drop 2) else none
  sameIdCred := inferInstanceAs (DecidableEq Bytes)

theorem referenceCrates_references : referenceCrates.References where
  kid := by
    intro credential id named
    obtain ⟨kid, -, rfl⟩ := Option.map_eq_some_iff.mp named
    rfl
  value := by
    intro credential id named
    cases named
    rfl

def openServer (known : Option (Bytes × UnionScope)) : ConfigBuilder .clear where
  asKey31 := none
  asKeyNeg7 := none
  unauthenticatedScope := some .denyAll
  ownEdhocCredential := none
  knownEdhocClients := known
  requestCreationHints := []

def sent : Bytes := [0xa1, 0x0e, 9, 9]

end Clear

namespace ConfigBuilder

theorem credential_expansion_iff_sample :
    (Clear.openServer (some ([7, 7], .allowAll))).expandIdCredX Clear.referenceCrates Clear.sent =
      some ([9, 9], { scope := .denyAll, timeConstraint := { exp := none }, isImportant := false }) :=
  ((credential_expansion_iff Clear.referenceCrates_references (Clear.openServer (some ([7, 7], .allowAll)))
    Clear.sent).1.mpr fun unknown => by cases unknown.1).trans rfl

/-- Without a known client, the open server does not accept the credential. -/
theorem open_server_refuses :
    (Clear.openServer none).expandIdCredX Clear.referenceCrates Clear.sent = none ∧
      expansion Clear.referenceCrates (Clear.openServer none) Clear.sent =
        some ([9, 9], { scope := .denyAll, timeConstraint := { exp := none }, isImportant := false }) ∧
      StoredPolicy.expandIdCredX Clear.referenceCrates ⟨[], some .denyAll⟩ Clear.sent =
        some ([9, 9], { scope := .denyAll }) :=
  ⟨rfl, rfl, rfl⟩

end ConfigBuilder

end ArielOS.Coapcore
