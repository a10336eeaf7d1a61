import ArielOS.Coapcore.ClearPlatform
import ArielOS.Coapcore.HandlerSpec

namespace ArielOS.Coapcore

open Machine OrderedPool Recency OscoreEdhocHandler

variable {P : Platform} {cfg : ServerSecurityConfig P} {before after : SecContextPool cfg}
  {taken new : SecContextState cfg} {handler : OscoreEdhocHandler cfg}

/-- The entry that was taken out comes back as `new`. An empty entry is evicted if any is, and the
    other entries in use are the same. -/
structure Reinserted (before after : SecContextPool cfg) (taken new : SecContextState cfg)
    (evicted : Option (SecContextState cfg)) : Prop where
  evicts : ∀ a, evicted = some a → a.isEmpty = true
  others : ∃ others, (used before.entries).Perm (taken :: others) ∧
    (used after.entries).Perm (new :: others)

theorem used_entries_perm (formed : before.Formed) :
    (used before.entries).Perm (used before.toList) :=
  (formed.perm.filter _).symm

/-- An entry in use that is taken leaves an empty one behind. -/
theorem taken_ok {id : COwn} (formed : before.Formed)
    (looked : before.lookup (·.correspondingCown = some id)
      (fun state => (SecContextState.default, state)) = .ok (after, some taken)) :
    after.Formed ∧ (∃ a ∈ after.toList, a.isEmpty = true) ∧
      ∃ others, (used before.entries).Perm (taken :: others) ∧ used after.toList = others := by
  obtain ⟨formed', ⟨-, -, missing⟩ | ⟨front, a, back, split, -, -, same, member, rest⟩⟩ :=
    lookup_used formed looked
  · cases missing
  · cases same
    refine ⟨formed', ⟨_, member, rfl⟩, front ++ back, ?_, rest⟩
    refine (used_entries_perm formed).trans ?_
    rw [split]
    exact List.perm_middle

/-- A new entry takes the place of an empty one. -/
theorem inserted_total (new : SecContextState cfg) (formed : before.Formed)
    (hidden : ∃ a ∈ before.toList, a.isEmpty = true) (new_ : new.isEmpty = false) :
    ∃ after evicted, before.forceInsert new = .ok (after, evicted) ∧
      evicted.all (·.isEmpty) = true ∧ (used after.entries).Perm (new :: used before.toList) := by
  obtain ⟨after, inserted, repr⟩ :=
    Represents.forceInsert formed SecContextState.level_lt (by decide) (by decide) new
  obtain ⟨placed, evicts⟩ := forceInsert_hidden formed.ordered new_ hidden (Prod.eta _).symm
  refine ⟨after, _, inserted, evicts, ?_⟩
  refine (used_entries_perm repr.formed).trans ?_
  rw [repr.toList_eq, placed]
  exact place_perm

namespace OscoreEdhocHandler

/-- The entry that is inserted again, with the context as it is after unprotecting the request. -/
def Unprotectable.returned (ready : Unprotectable cfg) (option : P.OscoreOption) : SecContextState cfg where
  authorization := some ready.authorization
  protocolStage := .oscore (P.unprotectRequest ready.copied option ready.context).1

/-- Once the context is in the pool again, and no other one is lost, the request is answered. -/
theorem unprotect_returns (handler : OscoreEdhocHandler cfg) {ready : Unprotectable cfg}
    {option : P.OscoreOption} {evicted : Option (SecContextState cfg)} (now : Nat) (kid : COwn)
    (inserted : handler.pool.forceInsert (ready.returned option) = .ok (after, evicted))
    (evicts : evicted.all (·.isEmpty) = true) :
    ∃ handler' result, handler.unprotect ready now kid option = .ok (handler', result) ∧
      handler'.pool = after := by
  unfold unprotect
  unfold Unprotectable.returned at inserted
  cases unprotected : P.unprotectRequest ready.copied option ready.context with
  | mk context decrypted =>
  rw [unprotected] at inserted
  dsimp only at inserted ⊢
  cases received : receive { handler with log := ready.made ++ handler.log } ready now kid decrypted with
  | mk next result =>
  have samePool : next.pool = handler.pool := (receive_ok received).1
  dsimp only
  rw [samePool, inserted, ok_bind]
  exact ⟨_, _, if_pos evicts, rfl⟩

/-- A request that comes to the re-insertion of its context passes it, and loses no other entry. -/
theorem reinsertion_evicts_nothing {inner : P.Inner} {start : OscoreEdhocHandler cfg}
    (started : OscoreEdhocHandler.new inner = .ok start) (reached : Reachable Call.run start handler)
    {request : Message} {oscoreOption : Bytes} {withEdhoc : Bool} {now : Nat}
    {option : P.OscoreOption} {kid : COwn} {pool : SecContextPool cfg} {ready : Unprotectable cfg}
    (parsed : requestKid P oscoreOption = .ok (option, kid))
    (looked : handler.pool.lookup (·.correspondingCown = some kid)
      (fun state => (SecContextState.default, state)) = .ok (pool, some taken))
    (prepared : prepareUnprotect request withEdhoc now taken = .ok ready) :
    ∃ evicted handler' result,
      pool.forceInsert (ready.returned option) = .ok (handler'.pool, evicted) ∧
      Reinserted handler.pool handler'.pool taken (ready.returned option) evicted ∧
      handler.extractOscoreEdhoc now request oscoreOption withEdhoc = .ok (handler', result) := by
  obtain ⟨formed, hidden, others, split, rest⟩ := taken_ok (formed_of_reachable started reached) looked
  obtain ⟨after, evicted, inserted, evicts, perm⟩ :=
    inserted_total (ready.returned option) formed hidden rfl
  obtain ⟨handler', result, done, rfl⟩ :=
    unprotect_returns { handler with pool } now kid inserted evicts
  refine ⟨evicted, handler', result, inserted, ⟨?_, others, split, rest ▸ perm⟩, ?_⟩
  · intro a last
    rw [last] at evicts
    exact evicts
  · unfold extractOscoreEdhoc
    rw [parsed]
    dsimp only
    rw [looked, ok_bind]
    dsimp only
    rw [prepared]
    exact done

/-- A request that names the context 1 comes to the re-insertion, in a full pool. -/
def reinserts (handler : OscoreEdhocHandler .clear) : Bool :=
  match handler.pool.lookup (·.correspondingCown = some ⟨1, by decide⟩)
      (fun state => (SecContextState.default, state)) with
  | .ok (_, some taken) =>
    handler.pool.entries.length = 4 && (prepareUnprotect (Clear.request 1 [0]) false 0 taken).isOk
  | _ => false

theorem reinsertion_evicts_nothing_sample : ∃ handler handler' : OscoreEdhocHandler .clear,
    Reachable Call.run Clear.start handler ∧ handler.pool.entries.length = 4 ∧
      ∃ taken new evicted, Reinserted handler.pool handler'.pool taken new evicted := by
  obtain ⟨handler, reached, here⟩ : ∃ handler, Reachable Call.run Clear.start handler ∧
      reinserts handler = true :=
    reaches_of_check (List.replicate 4 (Clear.extract (Clear.token 9))) (by decide)
  have started : (OscoreEdhocHandler.new () : Except Panic (OscoreEdhocHandler .clear)) =
      .ok Clear.start := rfl
  have parsed : requestKid .clear [0x09, 0, 1] = .ok (([1] : Bytes), ⟨1, by decide⟩) := rfl
  unfold reinserts at here
  split at here
  · rename_i pool taken looked
    obtain ⟨full, prepares⟩ := Bool.and_eq_true_iff.mp here
    cases prepared : prepareUnprotect (Clear.request 1 [0]) false 0 taken with
    | error e =>
      rw [prepared] at prepares
      cases prepares
    | ok ready =>
      obtain ⟨evicted, handler', -, -, reinserted, -⟩ :=
        reinsertion_evicts_nothing started reached parsed looked prepared
      exact ⟨handler, handler', reached, of_decide_eq_true full, taken, _, evicted, reinserted⟩
  · cases here

end OscoreEdhocHandler

end ArielOS.Coapcore
