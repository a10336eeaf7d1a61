import ArielOS.Coapcore.ClearPlatform
import ArielOS.Coapcore.HandlerSpec

namespace ArielOS.Coapcore

open Machine OrderedPool Recency

variable {P : Platform} {cfg : ServerSecurityConfig P} {xs ys : List (SecContextState cfg)}
  {a b : SecContextState cfg}

/-- The same identifiers on both sides. -/
def SecContextState.Continues (a b : SecContextState cfg) : Prop :=
  b.correspondingCown = a.correspondingCown ∧ b.peerId = a.peerId

/-- The identifier of the handler itself. -/
def SecContextState.ownId (state : SecContextState cfg) : Bytes :=
  match state.protocolStage with
  | .empty => []
  | .edhocResponderProcessedM1 _ cR .. | .edhocResponderSentM2 _ cR _ => cR.asSlice
  | .oscore context => P.recipientId (P.immutables context)

theorem SecContextState.cown_of_ownId (used_ : a.isEmpty = false) :
    a.correspondingCown = COwn.fromKid a.ownId := by
  obtain ⟨authorization, stage⟩ := a
  cases stage with
  | empty => cases used_
  | oscore context => rfl
  | _ => exact (COwn.fromKid_asSlice _).symm

/-- What a step does to the entries in use. -/
inductive Turnover (xs : List (SecContextState cfg)) : List (SecContextState cfg) → Prop
  | same : Turnover xs xs
  | added (new : SecContextState cfg) (id : COwn) (rest : List (SecContextState cfg))
      (kept : rest.Sublist xs) (named : new.correspondingCown = some id)
      (free : ∀ a ∈ xs, a.correspondingCown ≠ some id)
      (apart : COwn.fromKid new.peerId ≠ some id) : Turnover xs (place level new rest)
  | dropped (rest : List (SecContextState cfg)) (kept : rest.Sublist xs) : Turnover xs rest
  | replaced (front : List (SecContextState cfg)) (a : SecContextState cfg)
      (back : List (SecContextState cfg)) (b : SecContextState cfg) (split : xs = front ++ a :: back)
      (continues : a.Continues b) : Turnover xs (place level b (front ++ back))

/-- The identifiers of the entries are different from each other and from those of their peers. -/
structure Identified (xs : List (SecContextState cfg)) : Prop where
  unique : (xs.map SecContextState.correspondingCown).Nodup
  named : ∀ a ∈ xs, ∃ id, a.correspondingCown = some id ∧ COwn.fromKid a.peerId ≠ some id

theorem Identified.sublist (identified : Identified xs) (kept : ys.Sublist xs) : Identified ys :=
  ⟨identified.unique.sublist (kept.map _), fun a member => identified.named a (kept.subset member)⟩

theorem map_place_perm {α : Type} (f : SecContextState cfg → α) :
    ((place level a xs).map f).Perm (f a :: xs.map f) :=
  place_perm.map f

theorem Identified.eq_of_cown (identified : Identified xs) (here : a ∈ xs) (there : b ∈ xs)
    (same : a.correspondingCown = b.correspondingCown) : a = b :=
  List.inj_on_of_nodup_map identified.unique here there same

theorem Identified.cown_ne_of_removed {front back : List (SecContextState cfg)}
    (identified : Identified (front ++ a :: back)) (member : b ∈ front ++ back) :
    b.correspondingCown ≠ a.correspondingCown := by
  have unique := (List.perm_middle.map SecContextState.correspondingCown).nodup_iff.mp identified.unique
  intro same
  exact (List.nodup_cons.mp unique).1 (List.mem_map.mpr ⟨b, member, same⟩)

theorem Turnover.identified (identified : Identified xs) (turnover : Turnover xs ys) :
    Identified ys := by
  cases turnover with
  | same => exact identified
  | added new id rest kept named free apart =>
    have others := identified.sublist kept
    refine ⟨(map_place_perm _).nodup_iff.mpr (List.nodup_cons.mpr ⟨fun member => ?_, others.unique⟩),
      fun a member => ?_⟩
    · obtain ⟨a, member, same⟩ := List.mem_map.mp member
      exact free a (kept.subset member) (same.trans named)
    · rcases mem_place.mp member with rfl | member
      · exact ⟨id, named, apart⟩
      · exact others.named a member
  | dropped rest kept => exact identified.sublist kept
  | replaced front a back b split continues =>
    subst split
    have same : ((place level b (front ++ back)).map SecContextState.correspondingCown).Perm
        ((front ++ a :: back).map SecContextState.correspondingCown) := by
      refine (map_place_perm _).trans ?_
      rw [continues.1, List.map_append, List.map_append]
      exact List.perm_middle.symm
    refine ⟨same.nodup_iff.mpr identified.unique, fun c member => ?_⟩
    rcases mem_place.mp member with rfl | member
    · rw [continues.1, continues.2]
      exact identified.named a (by simp)
    · refine identified.named c ?_
      rcases List.mem_append.mp member with member | member <;> simp [member]

namespace OscoreEdhocHandler

variable {handler handler' : OscoreEdhocHandler cfg}

/-- An inserted entry replaces nothing, or the last entry. -/
theorem turnover_of_forceInsert {new : SecContextState cfg} {evicted : Option (SecContextState cfg)}
    {id : COwn} (formed : handler.pool.Formed)
    (list : Recency.forceInsert level maxContexts new handler.pool.toList =
      (handler'.pool.toList, evicted))
    (named : new.correspondingCown = some id) (free : Free id new.peerId handler.pool.toList) :
    Turnover handler.contexts handler'.contexts := by
  rcases forceInsert_used formed.ordered (SecContextState.used_of_cown named) list with
    ⟨placed, -⟩ | ⟨all, -, placed, -⟩
  · rw [contexts, contexts, placed]
    exact .added new id _ (List.Sublist.refl _) named free.1 free.2
  · rw [contexts, contexts, placed]
    refine .added new id _ ?_ named free.1 free.2
    rw [all]
    exact List.dropLast_sublist _

theorem remove_sublist {front back : List (SecContextState cfg)} :
    (front ++ back).Sublist (front ++ a :: back) :=
  (List.sublist_cons_self a back).append_left front

theorem extractEdhoc_turnover {crypto : P.Crypto} {request : Message}
    {result : Except CoapError (OwnRequestData P)} (formed : handler.pool.Formed)
    (done : handler.extractEdhoc crypto request = .ok (handler', result)) :
    handler'.pool.Formed ∧ Turnover handler.contexts handler'.contexts := by
  rcases extractEdhoc_ok formed done with ⟨rfl, -⟩ |
    ⟨responder, cR, state, evicted, started, formed', list, -, -⟩
  · exact ⟨formed, .same⟩
  · obtain ⟨-, -, -, cI, -, byValue, -, -, -, free, rfl⟩ := startHandshake_ok formed started
    exact ⟨formed', turnover_of_forceInsert formed list rfl free⟩

variable (keeps : P.KeepsKeys)
include keeps

theorem extractToken_turnover {nonce2 payload : Bytes}
    {result : Except CoapError AceCborAuthzInfoResponse} (formed : handler.pool.Formed)
    (done : handler.extractToken nonce2 payload = .ok (handler', result)) :
    handler'.pool.Formed ∧ Turnover handler.contexts handler'.contexts := by
  rcases extractToken_ok formed done with ⟨rfl, -⟩ |
    ⟨response, context, claims, evicted, processed, formed', list, -, -⟩
  · exact ⟨formed, .same⟩
  · obtain ⟨-, peer, hkdf, secret, salt, idContext, aead, keys, chosen, derived, rfl⟩ :=
      processAcecborAuthzInfo_ok processed
    have named : (⟨some claims, .oscore (P.newFromFreshMaterial keys)⟩ : SecContextState cfg).correspondingCown =
        some response.aceServerRecipientid := by
      simp [SecContextState.correspondingCown, keeps.fresh, keeps.recipient derived]
    refine ⟨formed', turnover_of_forceInsert formed list named ?_⟩
    simpa [SecContextState.peerId, keeps.fresh, keeps.sender derived] using cownButNot_ok formed chosen

/-- The context that comes back has the identifiers of the entry that was taken. -/
theorem prepareUnprotect_continues {request : Message} {withEdhoc : Bool} {now : Nat}
    {taken : SecContextState cfg} {ready : Unprotectable cfg} {context : P.Context}
    (done : prepareUnprotect request withEdhoc now taken = .ok ready)
    (same : P.immutables context = P.immutables ready.context) :
    taken.Continues ⟨some ready.authorization, .oscore context⟩ := by
  obtain ⟨-, ⟨rfl, -⟩ | ⟨responder, cR, cI, message3, stage, completed⟩⟩ := prepareUnprotect_ok done
  · simp [SecContextState.Continues, SecContextState.correspondingCown, SecContextState.peerId, same]
  · obtain ⟨fresh, claims, established, -, -, hkdf, secret, salt, idContext, aead, keys, derived, rfl⟩ :=
      completeHandshake_ok completed
    rw [SecContextState.mk.injEq, SecContextStage.oscore.injEq] at established
    rw [established.2] at same
    obtain ⟨authorization, stage'⟩ := taken
    cases stage
    simp [SecContextState.Continues, SecContextState.correspondingCown, SecContextState.peerId, same,
      keeps.fresh, keeps.recipient derived, keeps.sender derived]

theorem extractOscoreEdhoc_turnover {now : Nat} {request : Message} {oscoreOption : Bytes}
    {withEdhoc : Bool} {result : Except CoapError (OwnRequestData P)} (formed : handler.pool.Formed)
    (done : handler.extractOscoreEdhoc now request oscoreOption withEdhoc = .ok (handler', result)) :
    handler'.pool.Formed ∧ Turnover handler.contexts handler'.contexts := by
  obtain ⟨formed', ⟨same, -⟩ | ⟨option, kid, front, a, back, -, split, -, -, dropped | replaced⟩⟩ :=
    extractOscoreEdhoc_ok formed done
  · rw [same]
    exact ⟨formed', .same⟩
  · obtain ⟨e, -, rest, -⟩ := dropped
    rw [rest, split]
    exact ⟨formed', .dropped _ remove_sublist⟩
  · obtain ⟨ready, context, decrypted, prepared, unprotected, placed, -⟩ := replaced
    rw [placed]
    refine ⟨formed', .replaced front a back _ split (prepareUnprotect_continues keeps prepared ?_)⟩
    have same := keeps.unprotect ready.copied option ready.context
    rwa [unprotected] at same

theorem Extraction.turnover {ambient : Ambient P} {request : Message}
    {result : Except (ExtractRequestError P) (RequestData P)} (formed : handler.pool.Formed)
    (extraction : Extraction handler ambient request handler' result) :
    handler'.pool.Formed ∧ Turnover handler.contexts handler'.contexts := by
  cases extraction with
  | refused e => exact ⟨formed, .same⟩
  | notAllowed => exact ⟨formed, .same⟩
  | plain inner result allowed foreign => exact ⟨formed, .same⟩
  | edhoc _ result known recognized done => exact extractEdhoc_turnover formed done
  | token _ result known recognized done => exact extractToken_turnover keeps formed done
  | oscore _ option withEdhoc result known done => exact extractOscoreEdhoc_turnover keeps formed done

theorem Protected.immutables {response response' : P.WriteBuffer} {correlation : P.RequestId}
    {extracted : AuthorizationChecked (Except P.ExtractError P.RequestData)}
    {context context' : P.Context}
    (protected_ : handler.Protected response correlation extracted context context' response') :
    P.immutables context' = P.immutables context := by
  rcases protected_.either with ⟨-, rfl, -⟩ | ⟨plain, sealed, -, outcome⟩
  · rfl
  · have same := keeps.protect (writeInner cfg handler.inner plain extracted).2 context correlation
    rwa [outcome] at same

theorem buildOscoreResponse_turnover {response : P.WriteBuffer} {kid : COwn}
    {correlation : P.RequestId}
    {extracted : AuthorizationChecked (Except P.ExtractError P.RequestData)}
    {result : Except (BuildFailure P) P.WriteBuffer} (formed : handler.pool.Formed)
    (done : handler.buildOscoreResponse response kid correlation extracted = .ok (handler', result)) :
    handler'.pool.Formed ∧ Turnover handler.contexts handler'.contexts := by
  obtain ⟨formed', -, ⟨same, -⟩ | ⟨front, a, back, split, -, -, protected_ | ⟨-, placed, -⟩⟩⟩ :=
    buildOscoreResponse_ok formed done
  · rw [same]
    exact ⟨formed', .same⟩
  · obtain ⟨context, context', response', stage, protected_, placed, -⟩ := protected_
    rw [placed]
    refine ⟨formed', .replaced front a back _ split ?_⟩
    have same := protected_.immutables keeps
    obtain ⟨authorization, stage'⟩ := a
    cases stage
    simp [SecContextState.Continues, SecContextState.correspondingCown, SecContextState.peerId, same]
  · rw [placed]
    exact ⟨formed', .replaced front a back a split ⟨rfl, rfl⟩⟩

omit keeps in
theorem buildEdhocMessage2_turnover {response : P.WriteBuffer} {cR : COwn}
    {result : Except (BuildFailure P) P.WriteBuffer} (formed : handler.pool.Formed)
    (done : handler.buildEdhocMessage2 response cR = .ok (handler', result)) :
    handler'.pool.Formed ∧ Turnover handler.contexts handler'.contexts := by
  obtain ⟨formed', -, ⟨same, -⟩ | ⟨front, a, back, responder, cI, byValue, split, stage,
    ⟨-, rest, -⟩ | ⟨waiting, m, -, placed, -⟩⟩⟩ := buildEdhocMessage2_ok formed done
  · rw [same]
    exact ⟨formed', .same⟩
  · rw [rest, split]
    exact ⟨formed', .dropped _ remove_sublist⟩
  · rw [placed]
    refine ⟨formed', .replaced front a back _ split ?_⟩
    obtain ⟨authorization, stage'⟩ := a
    cases stage
    exact ⟨rfl, rfl⟩

theorem buildResponse_turnover {response : P.WriteBuffer} {req : RequestData P}
    {result : Except (BuildFailure P) P.WriteBuffer} (formed : handler.pool.Formed)
    (done : handler.buildResponse response req = .ok (handler', result)) :
    handler'.pool.Formed ∧ Turnover handler.contexts handler'.contexts := by
  cases req with
  | own req =>
    cases req with
    | edhocOkSend2 cR =>
      simp only [buildResponse] at done
      split at done
      · cases done
      · exact buildEdhocMessage2_turnover formed done
    | edhocOscoreRequest kid correlation extracted =>
      simp only [buildResponse] at done
      split at done
      · cases done
      · exact buildOscoreResponse_turnover keeps formed done
    | processedToken token =>
      simp only [buildResponse] at done
      split at done
      · cases done
      · cases done
        exact ⟨formed, .same⟩
  | inner req =>
    cases req <;> simp only [buildResponse] at done <;> split at done <;> cases done <;>
      exact ⟨formed, .same⟩

theorem Call.turnover {call : Call P} (formed : handler.pool.Formed)
    (done : call.run handler = .ok handler') :
    handler'.pool.Formed ∧ Turnover handler.contexts handler'.contexts := by
  cases call with
  | extractRequestData ambient request =>
    obtain ⟨⟨next, result⟩, extracted, done⟩ := bind_ok_iff.mp done
    cases done
    exact (extractRequestData_cases extracted).turnover keeps formed
  | buildResponse response req =>
    obtain ⟨⟨next, result⟩, built, done⟩ := bind_ok_iff.mp done
    cases done
    exact buildResponse_turnover keeps formed built

theorem identified_of_reachable {inner : P.Inner} {start : OscoreEdhocHandler cfg}
    (started : new inner = .ok start) (reached : Reachable Call.run start handler) :
    handler.pool.Formed ∧ Identified handler.contexts := by
  refine reached.invariant (fun handler => handler.pool.Formed ∧ Identified handler.contexts) ?_ ?_
  · obtain ⟨formed, none_, -⟩ := new_contexts started
    rw [none_]
    exact ⟨formed, List.nodup_nil, by simp⟩
  · rintro handler call handler' ⟨formed, identified⟩ - done
    obtain ⟨formed', turnover⟩ := Call.turnover keeps formed done
    exact ⟨formed', turnover.identified identified⟩

/-- The identifiers of the entries in use are different, and none is that of the entry's peer. -/
theorem identifiers_unique {inner : P.Inner} {start : OscoreEdhocHandler cfg}
    (started : new inner = .ok start) (reached : Reachable Call.run start handler) :
    (handler.pool.entries.filter (!·.isEmpty)).Pairwise
        (fun a b => a.correspondingCown ≠ b.correspondingCown) ∧
      ∀ a ∈ handler.pool.entries, a.isEmpty = false → a.correspondingCown = COwn.fromKid a.ownId ∧
        a.correspondingCown ≠ none ∧ ((COwn.fromKid a.peerId).isSome → a.ownId ≠ a.peerId) := by
  obtain ⟨formed, identified⟩ := identified_of_reachable keeps started reached
  refine ⟨?_, fun a member used_ => ?_⟩
  · have perm := (formed.perm.filter (!·.isEmpty)).map SecContextState.correspondingCown
    exact List.pairwise_map.mp (perm.nodup_iff.mp identified.unique)
  · obtain ⟨id, named, apart⟩ := identified.named a (mem_used.mpr ⟨formed.mem_entries.mp member, used_⟩)
    have own := SecContextState.cown_of_ownId used_
    refine ⟨own, by simp [named], fun _ same => apart ?_⟩
    rw [← same, ← own, named]

omit keeps in
/-- A handshake and a token. -/
theorem identifiers_unique_sample : ∃ handler : OscoreEdhocHandler .clear,
    handler.pool.entries.map (·.ownId) = [[1], [0]] ∧
      handler.pool.entries.map (·.peerId) = [[0], [2]] ∧
      (handler.pool.entries.filter (!·.isEmpty)).Pairwise
        (fun a b => a.correspondingCown ≠ b.correspondingCown) := by
  obtain ⟨handler, reached, check⟩ : ∃ handler : OscoreEdhocHandler .clear,
      Reachable Call.run Clear.start handler ∧
        decide (handler.pool.entries.map (·.ownId) = [[1], [0]] ∧
          handler.pool.entries.map (·.peerId) = [[0], [2]]) = true :=
    reaches_of_check [Clear.extract (Clear.message1 0), Clear.extract (Clear.token 2)] (by decide)
  obtain ⟨own, peer⟩ := of_decide_eq_true check
  have started : (new () : Except Panic (OscoreEdhocHandler .clear)) = .ok Clear.start := rfl
  exact ⟨handler, own, peer, (identifiers_unique Platform.clear_keepsKeys started reached).1⟩

end OscoreEdhocHandler

end ArielOS.Coapcore
