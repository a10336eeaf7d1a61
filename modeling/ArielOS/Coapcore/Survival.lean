import ArielOS.Coapcore.Identifiers

namespace ArielOS.Coapcore

open Machine OrderedPool Recency OscoreEdhocHandler

variable {P : Platform} {cfg : ServerSecurityConfig P} {request : Message} {withEdhoc : Bool}
  {now : Nat} {claims : cfg.Claims} {context : P.Context} {handler handler' : OscoreEdhocHandler cfg}

/-- The copy of a request, with its options other than EDHOC. -/
def optionsCopied (P : Platform) (request : Message) : Option P.WriteBuffer :=
  (request.options.filter (·.number ≠ CoapOption.edhoc)).foldlM P.addOption
    (P.setCode (P.newBuffer edhocCopyBufferSize) request.code)

/-- A request whose payload begins with a byte string if an EDHOC option announces one, and whose
    other options and remaining payload fit in the copy buffer. -/
def Copyable (P : Platform) (request : Message) (withEdhoc : Bool) : Prop :=
  ∃ trimmed copied, (if withEdhoc then P.byteStringEnd request.payload else some 0) = some trimmed ∧
    optionsCopied P request = some copied ∧
    (P.setPayload copied (request.payload.drop trimmed)).isSome = true

namespace OscoreEdhocHandler

theorem copyOptions_eq (copied : P.WriteBuffer) (options : List CoapOption) :
    copyOptions copied options =
      (options.filter (·.number ≠ CoapOption.edhoc)).foldlM P.addOption copied := by
  induction options generalizing copied with
  | nil => rfl
  | cons o options ih =>
    by_cases skipped : o.number = CoapOption.edhoc
    · simp [copyOptions, skipped, ih]
    · cases added : P.addOption copied o with
      | none => simp [copyOptions, skipped, added]
      | some next => simp [copyOptions, skipped, added, ih]

/-- How a request becomes ready for an established context. -/
inductive Preparation (request : Message) (withEdhoc : Bool) (context : P.Context)
    (claims : cfg.Claims) : Except (Exit CoapError) (Unprotectable cfg) → Prop
  | panic (p : Panic) : Preparation request withEdhoc context claims (.error (.panic p))
  | failed (e : CoapError) (uncopied : ¬ Copyable P request withEdhoc) :
      Preparation request withEdhoc context claims (.error (.error e))
  | ready (copied : P.WriteBuffer) (fits : Copyable P request withEdhoc) :
      Preparation request withEdhoc context claims (.ok ⟨context, claims, copied, []⟩)

theorem copyRequest_preparation (withEdhoc : Bool) {trimmed : Nat}
    (skipped : (if withEdhoc then P.byteStringEnd request.payload else some 0) = some trimmed) :
    Preparation request withEdhoc context claims (do
      let copied ← copyRequest P request trimmed
      return { context, authorization := claims, copied, made := [] }) := by
  have copy : copyRequest P request trimmed = (do
      let copied ← mayFail (orError .internalServerError (optionsCopied P request))
      if request.payload.length < trimmed then
        .error (.panic .indexOutOfBounds)
      else
        mayFail (orError .internalServerError (P.setPayload copied (request.payload.drop trimmed)))) := by
    simp only [copyRequest, copyOptions_eq, optionsCopied]
  have unique : ∀ {trimmed'}, (if withEdhoc then P.byteStringEnd request.payload else some 0) =
      some trimmed' → trimmed' = trimmed := fun same => Option.some.inj (same.symm.trans skipped)
  rw [copy]
  cases options : optionsCopied P request with
  | none =>
    refine .failed _ ?_
    rintro ⟨trimmed', copied, -, some_, -⟩
    rw [options] at some_
    cases some_
  | some copied =>
    simp only [orError, mayFail, ok_bind]
    split
    · exact .panic _
    · cases payload : P.setPayload copied (request.payload.drop trimmed) with
      | none =>
        refine .failed _ ?_
        rintro ⟨trimmed', copied', skipped', some_, full⟩
        rw [options, Option.some.injEq] at some_
        rw [unique skipped', ← some_, payload] at full
        cases full
      | some full => exact .ready full ⟨trimmed, copied, skipped, options, by simp [payload]⟩

/-- An established context is ready for a request exactly if the request can be copied. -/
theorem prepareUnprotect_established (request : Message) (withEdhoc : Bool) (context : P.Context)
    (valid : (cfg.timeConstraint claims).isValidWith now = true) :
    Preparation request withEdhoc context claims
      (prepareUnprotect request withEdhoc now ⟨some claims, .oscore context⟩) := by
  cases withEdhoc with
  | false =>
    simpa [prepareUnprotect, processTaken, valid] using
      copyRequest_preparation false rfl
  | true =>
    by_cases known : cfg.hasEdhoc = true
    · cases skipped : P.byteStringEnd request.payload with
      | none =>
        have failed : prepareUnprotect request true now ⟨some claims, .oscore context⟩ =
            .error (.error .badRequest) := by
          simp [prepareUnprotect, processTaken, known, processEdhocInPayload, skipped, orError, mayFail]
        rw [failed]
        refine .failed _ ?_
        rintro ⟨trimmed, copied, skipped', -⟩
        simp [skipped] at skipped'
      | some trimmed =>
        simpa [prepareUnprotect, processTaken, known, processEdhocInPayload, skipped, orError, mayFail,
          valid] using copyRequest_preparation true skipped
    · have failed : prepareUnprotect request true now ⟨some claims, .oscore context⟩ =
          .error (.panic .unreachableCode) := by simp [prepareUnprotect, processTaken, known]
      rw [failed]
      exact .panic _

/-- A request that fails leaves the context in the pool exactly if it can be copied. -/
theorem context_kept_iff (keeps : P.KeepsKeys) {inner : P.Inner} {start : OscoreEdhocHandler cfg}
    (started : new inner = .ok start) (reached : Reachable Call.run start handler)
    {oscoreOption : Bytes} {option : P.OscoreOption} {kid : COwn} {e : CoapError}
    (parsed : requestKid P oscoreOption = .ok (option, kid))
    (here : ⟨some claims, .oscore context⟩ ∈ handler.pool.entries)
    (named : COwn.fromKid (P.recipientId (P.immutables context)) = some kid)
    (valid : (cfg.timeConstraint claims).isValidWith now = true)
    (failed : handler.extractOscoreEdhoc now request oscoreOption withEdhoc = .ok (handler', .error e)) :
    (∃ context', P.immutables context' = P.immutables context ∧
      ⟨some claims, .oscore context'⟩ ∈ handler'.pool.entries) ↔ Copyable P request withEdhoc := by
  obtain ⟨formed, identified⟩ := identified_of_reachable keeps started reached
  have here : ⟨some claims, .oscore context⟩ ∈ handler.contexts :=
    mem_used.mpr ⟨formed.mem_entries.mp here, rfl⟩
  obtain ⟨formed', ⟨-, -, -, missing⟩ | ⟨option', kid', front, a, back, parsed', split, -, named', outcome⟩⟩ :=
    extractOscoreEdhoc_ok formed failed
  · exact absurd named (missing option kid parsed _ here)
  rw [parsed, Except.ok.injEq, Prod.mk.injEq] at parsed'
  obtain ⟨rfl, rfl⟩ := parsed'
  have taken : a = ⟨some claims, .oscore context⟩ :=
    identified.eq_of_cown (by simp [split]) here (named'.trans named.symm)
  subst taken
  have preparation := prepareUnprotect_established request withEdhoc context valid
  obtain ⟨e', unprepared, rest, -⟩ | ⟨ready, next, decrypted, prepared, unprotected, placed, -⟩ := outcome
  · -- The entry is lost, and no other one has its identifier.
    rw [unprepared] at preparation
    cases preparation with
    | failed _ uncopied =>
      refine iff_of_false ?_ uncopied
      rintro ⟨context', keys, member⟩
      have member : ⟨some claims, .oscore context'⟩ ∈ handler'.contexts :=
        mem_used.mpr ⟨formed'.mem_entries.mp member, rfl⟩
      rw [rest] at member
      rw [split] at identified
      refine identified.cown_ne_of_removed member ?_
      simp [SecContextState.correspondingCown, keys]
  · rw [prepared] at preparation
    cases preparation with
    | ready copied fits =>
      refine iff_of_true ⟨next, ?_, ?_⟩ fits
      · have same := keeps.unprotect copied option context
        rwa [unprotected] at same
      · refine formed'.mem_entries.mpr (mem_used.mp ?_).1
        change _ ∈ handler'.contexts
        rw [placed]
        exact mem_place.mpr (Or.inl rfl)

/-- A payload that is no byte string after an EDHOC option removes the context. -/
theorem context_lost : ∃ handler handler' : OscoreEdhocHandler .clear,
    Reachable Call.run Clear.start handler ∧
      ⟨some false, .oscore (Clear.keys, 0)⟩ ∈ handler.pool.entries ∧
      COwn.fromKid Clear.keys.recipient = some ⟨0, by decide⟩ ∧
      handler.extractOscoreEdhoc 0 (Clear.requestWithEdhoc 0 [0]) [0x09, 0, 0] true =
        .ok (handler', .error .badRequest) ∧
      ∀ a ∈ handler'.pool.entries, a.isEmpty = true := by
  refine ⟨Clear.known, _, Clear.known_reachable, List.mem_singleton.mpr rfl, rfl, rfl, ?_⟩
  intro a member
  cases List.mem_singleton.mp member
  rfl

/-- A request that is not authentic. -/
theorem context_kept_iff_sample : ∃ context', Platform.clear.immutables context' = Clear.keys ∧
    (⟨some false, .oscore context'⟩ : SecContextState .clear) ∈
      [.default, ⟨some false, .oscore (Clear.keys, 0)⟩] := by
  have started : (new () : Except Panic (OscoreEdhocHandler .clear)) = .ok Clear.start := rfl
  have parsed : requestKid .clear [0x09, 0, 0] = .ok (([0] : Bytes), ⟨0, by decide⟩) := rfl
  have here : (⟨some false, .oscore (Clear.keys, 0)⟩ : SecContextState .clear) ∈
      Clear.known.pool.entries := List.mem_singleton.mpr rfl
  let pool : SecContextPool .clear :=
    { entries := [.default, ⟨some false, .oscore (Clear.keys, 0)⟩], sorted := [1, 0] }
  have failed : Clear.known.extractOscoreEdhoc 0 (Clear.request 0 [0]) [0x09, 0, 0] false =
      .ok ({ Clear.known with pool }, .error .unauthorized) := rfl
  have fits : Copyable .clear (Clear.request 0 [0]) false := ⟨0, _, rfl, rfl, rfl⟩
  exact (context_kept_iff Platform.clear_keepsKeys started Clear.known_reachable parsed here rfl rfl
    failed).mpr fits

end OscoreEdhocHandler

end ArielOS.Coapcore
