import ArielOS.Coapcore.ClearPlatform

namespace ArielOS.Coapcore

variable {P : Platform} {cfg : ServerSecurityConfig P}

/-- The function of the handler that processes a request. -/
inductive Processing
  | plain
  | refused (error : CoapError)
  | extractEdhoc
  | extractToken
  | extractOscoreEdhoc (oscoreOption : Bytes) (withEdhoc : Bool)
  deriving DecidableEq

namespace Processing

def run (handler : OscoreEdhocHandler cfg) (ambient : Ambient P) (request : Message) :
    Processing → Except Panic (Handled cfg (ExtractRequestError P) (RequestData P))
  | .plain => return handler.extractPlain ambient.now request
  | .refused error => return (handler, .error (.own error))
  | .extractEdhoc => do
    let (handler, result) ← handler.extractEdhoc ambient.crypto request
    return (handler, OscoreEdhocHandler.own id result)
  | .extractToken => do
    let (handler, result) ← handler.extractToken ambient.nonce2 request.payload
    return (handler, OscoreEdhocHandler.own .processedToken result)
  | .extractOscoreEdhoc oscoreOption withEdhoc => do
    let (handler, result) ←
      handler.extractOscoreEdhoc ambient.now request oscoreOption withEdhoc
    return (handler, OscoreEdhocHandler.own id result)

end Processing

/-- The processing of a request, by its code and its options. -/
def processing (cfg : ServerSecurityConfig P) (request : Message) : Processing :=
  match Recognition.recognize cfg .start request.options with
  | (.start, _) | (.wellKnown, _) | (.unencrypted, _) => .plain
  | (.wellKnownEdhoc, .error error) | (.authzInfo, .error error) => .refused error
  | (.wellKnownEdhoc, .ok ()) =>
    if request.code = Code.post then .extractEdhoc else .refused .methodNotAllowed
  | (.authzInfo, .ok ()) =>
    if request.code = Code.post then .extractToken else .refused .methodNotAllowed
  | (.edhoc oscoreOption, _) => .extractOscoreEdhoc oscoreOption true
  | (.oscore oscoreOption, _) => .extractOscoreEdhoc oscoreOption false

theorem extractRequestData_eq (parsesTokens : cfg.parsesTokens = true) (hasEdhoc : cfg.hasEdhoc = true)
    (handler : OscoreEdhocHandler cfg) (ambient : Ambient P) (request : Message) :
    handler.extractRequestData ambient request =
      (processing cfg request).run handler ambient request := by
  unfold OscoreEdhocHandler.extractRequestData processing
  generalize Recognition.recognize cfg .start request.options = recognized
  obtain ⟨state, extraOptions⟩ := recognized
  cases state with
  | start => rfl
  | wellKnown => rfl
  | unencrypted => rfl
  | wellKnownEdhoc =>
    cases extraOptions with
    | error error => rfl
    | ok _ => by_cases post : request.code = Code.post <;>
        simp [Recognition.errorsHandledHere, hasEdhoc, post, Processing.run]
  | authzInfo =>
    cases extraOptions with
    | error error => rfl
    | ok _ => by_cases post : request.code = Code.post <;>
        simp [Recognition.errorsHandledHere, parsesTokens, post, Processing.run]
  | edhoc oscoreOption => simp [Recognition.errorsHandledHere, hasEdhoc, Processing.run]
  | oscore oscoreOption =>
    simp [Recognition.errorsHandledHere, hasOscore, hasEdhoc, Processing.run]

def CoapOption.isOscore (o : CoapOption) : Bool := o.number = CoapOption.oscore

/-- EDHOC message 3 is in front of the payload. -/
def CoapOption.isEmptyEdhoc (o : CoapOption) : Bool := o.number = CoapOption.edhoc && o.value = []

/-- The options in front of the first empty EDHOC option. -/
def beforeEmptyEdhoc (options : List CoapOption) : List CoapOption :=
  options.takeWhile fun o => !o.isEmptyEdhoc

def Message.uriPath (request : Message) : List Bytes :=
  (request.options.filter (·.number = CoapOption.uriPath)).map (·.value)

/-- Critical options have odd numbers. -/
def Platform.NumbersCritical (P : Platform) : Prop := ∀ number, P.isCritical number = decide (number % 2 = 1)

section Recognize

open Recognition

variable {o : CoapOption} {options rest : List CoapOption} {value : Bytes} {state : Recognition}

/-- The states of an OSCORE request. -/
def Recognition.protected : Recognition → Bool
  | .oscore _ | .edhoc _ => true
  | .start | .wellKnown | .wellKnownEdhoc | .authzInfo | .unencrypted => false

/-- A path was seen. -/
def Recognition.hasPath : Recognition → Bool
  | .wellKnown | .wellKnownEdhoc | .authzInfo | .unencrypted => true
  | .start | .oscore _ | .edhoc _ => false

theorem update_hasPath (path : state.hasPath = true) : (state.update cfg o).1.hasPath = true := by
  cases state with
  | start => cases path
  | oscore option => cases path
  | edhoc option => cases path
  | wellKnown => dsimp only [update]; split <;> rfl
  | authzInfo => dsimp only [update]; split <;> rfl
  | wellKnownEdhoc => rfl
  | unencrypted => rfl

theorem recognize_hasPath (path : state.hasPath = true) :
    (recognize cfg state options).1.hasPath = true := by
  induction options generalizing state with
  | nil => exact path
  | cons o options ih =>
    unfold recognize
    dsimp only
    split
    · exact update_hasPath path
    · exact ih (update_hasPath path)

theorem protected_of_hasPath (path : state.hasPath = true) : state.protected = false := by
  cases state with
  | oscore option => cases path
  | edhoc option => cases path
  | start => rfl
  | wellKnown => rfl
  | wellKnownEdhoc => rfl
  | authzInfo => rfl
  | unencrypted => rfl

theorem update_start_path (path : o.number = CoapOption.uriPath) :
    (update cfg .start o).1.hasPath = true := by
  have notOscore : o.number ≠ CoapOption.oscore := by rw [path]; decide
  dsimp only [update]
  rw [if_neg fun both => notOscore both.1, if_pos path]
  split
  · rfl
  · split <;> rfl

theorem update_start_other (notOscore : o.number ≠ CoapOption.oscore)
    (notPath : o.number ≠ CoapOption.uriPath) : update cfg .start o = (.start, true) := by
  dsimp only [update]
  rw [if_neg fun both => notOscore both.1, if_neg notPath]

theorem update_start_of_elective (critical : P.NumbersCritical)
    (elective : P.isCritical o.number = false) : update cfg .start o = (.start, true) := by
  rw [critical, decide_eq_false_iff_not] at elective
  exact update_start_other (fun same => elective (by rw [same]; rfl))
    (fun same => elective (by rw [same]; rfl))

theorem recognize_elective (critical : P.NumbersCritical)
    (elective : ∀ o ∈ options, P.isCritical o.number = false) :
    recognize cfg .start (options ++ rest) = recognize cfg .start rest := by
  induction options with
  | nil => rfl
  | cons o options ih =>
    have here := elective o List.mem_cons_self
    rw [List.cons_append, recognize, update_start_of_elective critical here]
    simp only [here, Bool.false_eq_true, and_false, ↓reduceIte]
    exact ih fun o member => elective o (List.mem_cons_of_mem _ member)

/-- A critical option in front of the OSCORE option keeps it from being recognized. -/
theorem recognize_obstructed (critical : P.NumbersCritical)
    (other : ∀ o ∈ options, o.number ≠ CoapOption.oscore)
    (obstructed : ∃ o ∈ options, P.isCritical o.number = true) :
    (recognize cfg .start (options ++ rest)).1.protected = false := by
  induction options with
  | nil =>
    obtain ⟨o, member, -⟩ := obstructed
    cases member
  | cons o options ih =>
    have later := ih fun o member => other o (List.mem_cons_of_mem _ member)
    cases here : P.isCritical o.number with
    | false =>
      obtain ⟨o', member, stops⟩ := obstructed
      rcases List.mem_cons.mp member with rfl | member
      · rw [here] at stops
        cases stops
      · rw [List.cons_append, recognize, update_start_of_elective critical here]
        simp only [here, Bool.false_eq_true, and_false, ↓reduceIte]
        exact later ⟨o', member, stops⟩
    | true =>
      have notOscore := other o List.mem_cons_self
      rw [List.cons_append, recognize]
      by_cases path : o.number = CoapOption.uriPath
      · have seen : (update cfg .start o).1.hasPath = true := update_start_path path
        dsimp only
        split
        · exact protected_of_hasPath seen
        · exact protected_of_hasPath (recognize_hasPath seen)
      · rw [update_start_other notOscore path]
        simp only [here, and_self, ↓reduceIte]
        rfl

theorem recognize_edhoc : (recognize cfg (.edhoc value) options).1 = .edhoc value := by
  induction options with
  | nil => rfl
  | cons o options ih =>
    unfold recognize
    dsimp only [update]
    split
    · rfl
    · exact ih

/-- An empty EDHOC option is recognized behind the OSCORE option if no critical option is between
    them. -/
theorem recognize_oscore (hasEdhoc : cfg.hasEdhoc = true) :
    (recognize cfg (.oscore value) options).1 =
      if options.any CoapOption.isEmptyEdhoc = true ∧
          ∀ o ∈ beforeEmptyEdhoc options, P.isCritical o.number = false then
        .edhoc value
      else
        .oscore value := by
  induction options with
  | nil => rfl
  | cons o options ih =>
    unfold recognize
    cases empty : o.isEmptyEdhoc with
    | true =>
      have given : o.number = CoapOption.edhoc ∧ o.value = [] := by
        simpa [CoapOption.isEmptyEdhoc] using empty
      have recognized : update cfg (.oscore value) o = (.edhoc value, true) :=
        if_pos ⟨given.1, given.2, hasEdhoc⟩
      rw [recognized, if_pos (by simp [beforeEmptyEdhoc, empty])]
      dsimp only
      split
      · rfl
      · exact recognize_edhoc
    | false =>
      have missing : ¬ (o.number = CoapOption.edhoc ∧ o.value = [] ∧ cfg.hasEdhoc = true) := by
        rintro ⟨number, value, -⟩
        simp [CoapOption.isEmptyEdhoc, number, value] at empty
      have kept : update cfg (.oscore value) o = (.oscore value, true) := if_neg missing
      rw [kept]
      simp only [List.any_cons, empty, Bool.false_or, beforeEmptyEdhoc, List.takeWhile_cons, Bool.not_false,
        ↓reduceIte, List.forall_mem_cons, true_and]
      cases here : P.isCritical o.number with
      | true => simp
      | false => simpa [beforeEmptyEdhoc] using ih

/-- The path that a state stands for. -/
def Recognition.path : Recognition → List Bytes
  | .wellKnown => [ascii ".well-known"]
  | .wellKnownEdhoc => [ascii ".well-known", ascii "edhoc"]
  | .authzInfo => [ascii "authz-info"]
  | .start | .oscore _ | .edhoc _ | .unencrypted => []

theorem update_path (critical : P.NumbersCritical)
    (goesOn : ¬ ((state.update cfg o).2 = true ∧ P.isCritical o.number = true)) :
    (state.update cfg o).1.path =
      state.path ++ if o.number = CoapOption.uriPath then [o.value] else [] := by
  by_cases path : o.number = CoapOption.uriPath
  · have stops : P.isCritical o.number = true := by rw [critical, path]; rfl
    have kept : (state.update cfg o).2 = false := by
      rw [← Bool.not_eq_true]
      exact fun passedOn => goesOn ⟨passedOn, stops⟩
    rw [if_pos path]
    clear goesOn
    cases state <;> dsimp only [update] at kept ⊢ <;> grind [Recognition.path, CoapOption.oscore,
      CoapOption.uriPath, CoapOption.contentFormat, CoapOption.accept]
  · rw [if_neg path, List.append_nil]
    cases state <;> dsimp only [update] <;> grind [Recognition.path]

theorem recognize_path (critical : P.NumbersCritical) {final : Recognition}
    (done : recognize cfg state options = (final, .ok ())) :
    final.path = state.path ++ (options.filter (·.number = CoapOption.uriPath)).map (·.value) := by
  induction options generalizing state with
  | nil =>
    cases done
    exact (List.append_nil _).symm
  | cons o options ih =>
    unfold recognize at done
    dsimp only at done
    split at done
    · cases done
    · rename_i goesOn
      rw [ih done, update_path critical goesOn, List.append_assoc]
      by_cases path : o.number = CoapOption.uriPath <;> simp [path]

end Recognize

section Requests

open Recognition

variable {request : Message} {o : CoapOption} {before after : List CoapOption} {value : Bytes}

/-- No critical option is in front of the OSCORE option, and none but it in front of an empty EDHOC
    option. -/
structure Unobstructed (P : Platform) (options : List CoapOption) : Prop where
  oscore : ∀ o ∈ options.takeWhile (fun o => !o.isOscore), P.isCritical o.number = false
  edhoc : options.any CoapOption.isEmptyEdhoc = true →
    ∀ o ∈ beforeEmptyEdhoc options, P.isCritical o.number = true → o.isOscore = true

/-- The processing is that of the options as a whole. -/
structure Classified (cfg : ServerSecurityConfig P) (request : Message) : Prop where
  oscore : ∀ o, request.options.filter CoapOption.isOscore = [o] → o.value.length ≤ 16 →
    processing cfg request =
      .extractOscoreEdhoc o.value (request.options.any CoapOption.isEmptyEdhoc)
  edhoc : processing cfg request = .extractEdhoc →
    request.uriPath = [ascii ".well-known", ascii "edhoc"] ∧ request.code = Code.post
  token : processing cfg request = .extractToken →
    request.uriPath = [ascii "authz-info"] ∧ request.code = Code.post

theorem not_oscore_of_elective (critical : P.NumbersCritical)
    (elective : P.isCritical o.number = false) : o.isOscore = false := by
  rw [critical, decide_eq_false_iff_not] at elective
  exact decide_eq_false fun number => elective (by rw [number]; rfl)

theorem not_edhoc_of_elective (critical : P.NumbersCritical)
    (elective : P.isCritical o.number = false) : o.isEmptyEdhoc = false := by
  rw [critical, decide_eq_false_iff_not] at elective
  have notEdhoc : o.number ≠ CoapOption.edhoc := fun number => elective (by rw [number]; rfl)
  simp [CoapOption.isEmptyEdhoc, notEdhoc]

theorem not_edhoc_of_oscore (oscore : o.isOscore = true) : o.isEmptyEdhoc = false := by
  have number : o.number = CoapOption.oscore := of_decide_eq_true oscore
  unfold CoapOption.isEmptyEdhoc
  rw [number]
  rfl

theorem takeWhile_oscore (other : ∀ o ∈ before, o.isOscore = false) (oscore : o.isOscore = true) :
    (before ++ o :: after).takeWhile (fun o => !o.isOscore) = before := by
  rw [List.takeWhile_append_of_pos (by simpa using other)]
  simp [oscore]

theorem beforeEmptyEdhoc_append (other : ∀ o ∈ before, o.isEmptyEdhoc = false)
    (oscore : o.isOscore = true) :
    beforeEmptyEdhoc (before ++ o :: after) = before ++ o :: beforeEmptyEdhoc after := by
  unfold beforeEmptyEdhoc
  rw [List.takeWhile_append_of_pos (by simpa using other)]
  simp [not_edhoc_of_oscore oscore]

theorem any_edhoc_append (other : ∀ o ∈ before, o.isEmptyEdhoc = false) (oscore : o.isOscore = true) :
    (before ++ o :: after).any CoapOption.isEmptyEdhoc = after.any CoapOption.isEmptyEdhoc := by
  have none : before.any CoapOption.isEmptyEdhoc = false := by simpa using other
  simp [none, not_edhoc_of_oscore oscore]

theorem unobstructed_iff (critical : P.NumbersCritical)
    (elective : ∀ o ∈ before, P.isCritical o.number = false) (oscore : o.isOscore = true)
    (only : ∀ o ∈ after, o.isOscore = false) :
    Unobstructed P (before ++ o :: after) ↔ (after.any CoapOption.isEmptyEdhoc = true →
      ∀ o ∈ beforeEmptyEdhoc after, P.isCritical o.number = false) := by
  have noOscore : ∀ o ∈ before, o.isOscore = false := fun o member =>
    not_oscore_of_elective critical (elective o member)
  have noEdhoc : ∀ o ∈ before, o.isEmptyEdhoc = false := fun o member =>
    not_edhoc_of_elective critical (elective o member)
  apply Iff.intro
  · intro free given o' member
    have other := only o' ((List.takeWhile_prefix _).subset member)
    have member' : o' ∈ beforeEmptyEdhoc (before ++ o :: after) := by
      rw [beforeEmptyEdhoc_append noEdhoc oscore]
      exact List.mem_append_right _ (List.mem_cons_of_mem _ member)
    rw [← Bool.not_eq_true]
    intro stops
    rw [free.edhoc (by rw [any_edhoc_append noEdhoc oscore]; exact given) o' member' stops] at other
    cases other
  · intro free
    refine ⟨?_, ?_⟩
    · rw [takeWhile_oscore noOscore oscore]
      exact elective
    · intro given o' member stops
      rw [any_edhoc_append noEdhoc oscore] at given
      rw [beforeEmptyEdhoc_append noEdhoc oscore, List.mem_append, List.mem_cons] at member
      rcases member with early | rfl | late
      · rw [elective o' early] at stops
        cases stops
      · exact oscore
      · rw [free given o' late] at stops
        cases stops

theorem processing_of_edhoc (recognized : (recognize cfg .start request.options).1 = .edhoc value) :
    processing cfg request = .extractOscoreEdhoc value true := by
  unfold processing
  generalize recognize cfg .start request.options = result at recognized ⊢
  obtain ⟨state, extraOptions⟩ := result
  subst recognized
  rfl

theorem processing_of_oscore (recognized : (recognize cfg .start request.options).1 = .oscore value) :
    processing cfg request = .extractOscoreEdhoc value false := by
  unfold processing
  generalize recognize cfg .start request.options = result at recognized ⊢
  obtain ⟨state, extraOptions⟩ := result
  subst recognized
  rfl

theorem protected_of_processing {withEdhoc : Bool}
    (done : processing cfg request = .extractOscoreEdhoc value withEdhoc) :
    (recognize cfg .start request.options).1.protected = true := by
  unfold processing at done
  split at done
  all_goals first | cases done | skip
  · split at done <;> cases done
  · split at done <;> cases done
  · rename_i recognized
    rw [recognized]
    rfl
  · rename_i recognized
    rw [recognized]
    rfl

theorem recognized_of_extractEdhoc (done : processing cfg request = .extractEdhoc) :
    recognize cfg .start request.options = (.wellKnownEdhoc, .ok ()) ∧ request.code = Code.post := by
  unfold processing at done
  split at done
  all_goals first | cases done | skip
  · rename_i recognized
    split at done
    · rename_i post
      exact ⟨recognized, post⟩
    · cases done
  · split at done <;> cases done

theorem recognized_of_extractToken (done : processing cfg request = .extractToken) :
    recognize cfg .start request.options = (.authzInfo, .ok ()) ∧ request.code = Code.post := by
  unfold processing at done
  split at done
  all_goals first | cases done | skip
  · split at done <;> cases done
  · rename_i recognized
    split at done
    · rename_i post
      exact ⟨recognized, post⟩
    · cases done

theorem processing_oscore_iff (hasEdhoc : cfg.hasEdhoc = true)
    (critical : P.NumbersCritical) (one : request.options.filter CoapOption.isOscore = [o])
    (short : o.value.length ≤ 16) :
    processing cfg request =
        .extractOscoreEdhoc o.value (request.options.any CoapOption.isEmptyEdhoc) ↔
      Unobstructed P request.options := by
  obtain ⟨before, after, parts, other, oscore, rest⟩ := List.filter_eq_cons_iff.mp one
  have noOscore : ∀ o ∈ before, o.isOscore = false := by simpa using other
  have only : ∀ o ∈ after, o.isOscore = false := by simpa using rest
  by_cases elective : ∀ o ∈ before, P.isCritical o.number = false
  · have noEdhoc : ∀ o ∈ before, o.isEmptyEdhoc = false := fun o member =>
      not_edhoc_of_elective critical (elective o member)
    have recognized : recognize cfg .start request.options = recognize cfg (.oscore o.value) after := by
      have number : o.number = CoapOption.oscore := of_decide_eq_true oscore
      have seen : update cfg .start o = (.oscore o.value, false) := by
        dsimp only [update]
        rw [if_pos ⟨number, by simp [hasOscore, hasEdhoc]⟩, if_pos short]
      rw [parts, recognize_elective critical elective, recognize, seen]
      rfl
    rw [parts, unobstructed_iff critical elective oscore only, any_edhoc_append noEdhoc oscore]
    have final : (recognize cfg (.oscore o.value) after).1 = _ := recognize_oscore hasEdhoc
    rw [← recognized] at final
    cases given : after.any CoapOption.isEmptyEdhoc with
    | false =>
      rw [if_neg (by simp [given])] at final
      exact iff_of_true (processing_of_oscore final) (fun absent => by cases absent)
    | true =>
      by_cases free : ∀ o ∈ beforeEmptyEdhoc after, P.isCritical o.number = false
      · rw [if_pos ⟨given, free⟩] at final
        exact iff_of_true (processing_of_edhoc final) fun _ => free
      · rw [if_neg fun both => free both.2] at final
        rw [processing_of_oscore final]
        exact iff_of_false (by simp) fun found => free (found rfl)
  · have obstructed : ∃ o ∈ before, P.isCritical o.number = true := by
      by_contra none
      exact elective fun o member => by
        rw [← Bool.not_eq_true]
        exact fun stops => none ⟨o, member, stops⟩
    have final : (recognize cfg .start (before ++ o :: after)).1.protected = false :=
      recognize_obstructed critical
        (fun o member number => by simpa [CoapOption.isOscore, number] using noOscore o member)
        obstructed
    rw [← parts] at final
    refine iff_of_false (fun done => ?_) fun free => elective ?_
    · rw [protected_of_processing done] at final
      cases final
    · have free := free.oscore
      rw [parts, takeWhile_oscore noOscore oscore] at free
      exact free

/-- The handler processes a request as its options as a whole ask for exactly if, with one OSCORE
    option, it is unobstructed. -/
theorem classified_iff (parsesTokens : cfg.parsesTokens = true) (hasEdhoc : cfg.hasEdhoc = true)
    (critical : P.NumbersCritical) (request : Message) :
    (∀ (handler : OscoreEdhocHandler cfg) (ambient : Ambient P),
        handler.extractRequestData ambient request =
          (processing cfg request).run handler ambient request) ∧
      (Classified cfg request ↔
        ∀ o, request.options.filter CoapOption.isOscore = [o] → o.value.length ≤ 16 →
          Unobstructed P request.options) := by
  refine ⟨fun handler ambient => extractRequestData_eq parsesTokens hasEdhoc handler ambient request,
    ?_⟩
  apply Iff.intro
  · intro classified o one short
    exact (processing_oscore_iff hasEdhoc critical one short).mp (classified.oscore o one short)
  · intro free
    refine ⟨?_, ?_, ?_⟩
    · intro o one short
      exact (processing_oscore_iff hasEdhoc critical one short).mpr (free o one short)
    · intro done
      obtain ⟨recognized, post⟩ := recognized_of_extractEdhoc done
      exact ⟨(recognize_path critical recognized).symm, post⟩
    · intro done
      obtain ⟨recognized, post⟩ := recognized_of_extractToken done
      exact ⟨(recognize_path critical recognized).symm, post⟩

end Requests

namespace Clear

theorem numbersCritical : Platform.clear.NumbersCritical := fun _ => rfl

/-- Unauthenticated requests are allowed everything, too. -/
def openConfig : ServerSecurityConfig .clear := { ServerSecurityConfig.clear with
  nosecAuthorization := some false }

/-- An ETag, an OSCORE option and message 3. -/
def etagOscore : Message where
  code := Code.post
  options := [⟨4, [1]⟩, ⟨CoapOption.oscore, [0x09, 0, 0]⟩, ⟨CoapOption.edhoc, []⟩]
  payload := []

/-- A Uri-Host and an OSCORE option. -/
def uriHostOscore : Message where
  code := Code.post
  options := [⟨3, ascii "h"⟩, ⟨CoapOption.oscore, [0x09, 0, 0]⟩]
  payload := [1]

end Clear

theorem classified_iff_sample :
    processing ServerSecurityConfig.clear Clear.etagOscore =
      .extractOscoreEdhoc [0x09, 0, 0] true := by
  have iff := (@classified_iff Platform.clear ServerSecurityConfig.clear rfl rfl
    Clear.numbersCritical Clear.etagOscore).2
  have classified := iff.mpr fun _ _ _ => ⟨by decide, fun _ => by decide⟩
  exact classified.oscore ⟨CoapOption.oscore, [0x09, 0, 0]⟩ rfl (by decide)

/-- Behind a Uri-Host, the OSCORE option is not recognized. The ciphertext goes to the wrapped handler
    as a request without protection. -/
theorem uri_host_oscore_plain :
    Clear.uriHostOscore.options.Pairwise (fun a b => a.number ≤ b.number) ∧
      (∃ handler : OscoreEdhocHandler Clear.openConfig, ∃ result,
        OscoreEdhocHandler.extractRequestData { pool := ⟨[], []⟩, inner := (), log := [] } Clear.ambient
          Clear.uriHostOscore = .ok (handler, result) ∧
        handler.log = [.called Clear.uriHostOscore, .plain Clear.uriHostOscore 0]) ∧
      ¬ Classified Clear.openConfig Clear.uriHostOscore := by
  refine ⟨by decide, ⟨_, _, rfl, rfl⟩, fun classified => ?_⟩
  have done := classified.oscore ⟨CoapOption.oscore, [0x09, 0, 0]⟩ rfl (by decide)
  cases done

end ArielOS.Coapcore
