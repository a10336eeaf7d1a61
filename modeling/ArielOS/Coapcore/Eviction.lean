import ArielOS.Coapcore.ClearPlatform
import ArielOS.Coapcore.HandlerSpec

namespace ArielOS.Coapcore

open Machine OrderedPool Recency OscoreEdhocHandler

variable {P : Platform} {cfg : ServerSecurityConfig P} {xs ys : List (SecContextState cfg)}
  {a b : SecContextState cfg} {handler handler' : OscoreEdhocHandler cfg}

namespace SecContextState

def isOscore (state : SecContextState cfg) : Bool :=
  match state.protocolStage with
  | .oscore _ => true
  | _ => false

def isImportant (state : SecContextState cfg) : Bool := state.authorization.any cfg.isImportant

theorem isOscore_iff_level : a.isOscore = true ↔ level a ≤ 1 := by
  obtain ⟨authorization, stage⟩ := a
  cases stage <;> simp only [isOscore, PriorityLevel.level]
  case oscore => split <;> simp
  all_goals simp

theorem isImportant_iff_level (oscore : a.isOscore = true) : a.isImportant = true ↔ level a = 0 := by
  obtain ⟨authorization, stage⟩ := a
  cases stage <;> simp only [isOscore, Bool.false_eq_true] at oscore
  simp only [isImportant, PriorityLevel.level]
  split <;> simp_all

theorem used_of_isOscore (oscore : a.isOscore = true) : a.isEmpty = false := by
  obtain ⟨authorization, stage⟩ := a
  cases stage <;> simp_all [isOscore, isEmpty, SecContextStage.isEmpty]

end SecContextState

open SecContextState

/-- The entries in stage Oscore, by priority and recentness. -/
def oscores (xs : List (SecContextState cfg)) : List (SecContextState cfg) := xs.filter (·.isOscore)

variable (xs) in
theorem oscores_used : oscores (used xs) = oscores xs := by
  rw [oscores, used, List.filter_filter]
  refine List.filter_congr fun a _ => ?_
  cases oscore : a.isOscore <;> simp [used_of_isOscore, oscore]

theorem oscores_place (ordered : Ordered level xs) (handshake : b.isOscore = false) :
    oscores (place level b xs) = oscores xs := by
  rw [oscores, filter_place _ ordered, handshake]
  rfl

theorem oscores_remove {front back : List (SecContextState cfg)} (handshake : a.isOscore = false) :
    oscores (front ++ a :: back) = oscores (front ++ back) := by
  simp [oscores, handshake]

/-- The last entry is a context only if all are. -/
theorem all_oscore {last : SecContextState cfg} (ordered : Ordered level (xs ++ [last]))
    (oscore : last.isOscore = true) : ∀ a ∈ xs ++ [last], a.isOscore = true := by
  intro a member
  rcases List.mem_append.mp member with member | member
  · have bound := (List.pairwise_append.mp ordered).2.2 a member last (by simp)
    exact isOscore_iff_level.mpr (bound.trans (isOscore_iff_level.mp oscore))
  · rwa [List.mem_singleton.mp member]

/-- A handshake takes the place of a context only in a pool that is full of contexts. -/
theorem forceInsert_oscores {evicted : Option (SecContextState cfg)} (ordered : Ordered level xs)
    (handshake : b.isOscore = false)
    (inserted : Recency.forceInsert level maxContexts b xs = (ys, evicted)) :
    oscores ys = oscores xs ∨
    (oscores xs = xs ∧ maxContexts ≤ xs.length ∧ oscores ys = xs.dropLast) := by
  unfold Recency.forceInsert at inserted
  split at inserted
  · cases inserted
    exact Or.inl (oscores_place ordered handshake)
  · rename_i full
    rw [Prod.mk.injEq] at inserted
    obtain ⟨rfl, rfl⟩ := inserted
    have rest : Ordered level xs.dropLast := ordered.sublist (List.dropLast_sublist xs)
    rw [oscores_place rest handshake]
    obtain rfl | ⟨init, last, rfl⟩ := List.eq_nil_or_concat' xs
    · exact Or.inl rfl
    rw [List.dropLast_concat]
    cases oscore : last.isOscore with
    | false => exact Or.inl (by simp [oscores, oscore])
    | true =>
      have all := all_oscore ordered oscore
      refine Or.inr ⟨List.filter_eq_self.mpr all, Nat.le_of_not_lt full, List.filter_eq_self.mpr ?_⟩
      exact fun a member => all a (List.mem_append_left _ member)

/-- The calls that the messages 1 of handshakes lead to. -/
inductive HandshakeCall (P : Platform)
  | extractEdhoc (crypto : P.Crypto) (request : Message)
  | buildEdhocMessage2 (response : P.WriteBuffer) (cR : COwn)

def HandshakeCall.run (call : HandshakeCall P) (handler : OscoreEdhocHandler cfg) :
    Except Panic (OscoreEdhocHandler cfg) :=
  match call with
  | .extractEdhoc crypto request => do
    return (← handler.extractEdhoc crypto request).1
  | .buildEdhocMessage2 response cR => do
    return (← handler.buildEdhocMessage2 response cR).1

namespace OscoreEdhocHandler

/-- What handshakes do to the contexts: nothing, or they took the place of the last one. -/
def Spared (xs ys : List (SecContextState cfg)) : Prop :=
  oscores ys = oscores xs ∨
  (oscores xs = xs ∧ maxContexts ≤ xs.length ∧ oscores ys = xs.dropLast)

theorem HandshakeCall.spared {call : HandshakeCall P} (formed : handler.pool.Formed)
    (done : call.run handler = .ok handler') :
    handler'.pool.Formed ∧ Spared handler.pool.toList handler'.pool.toList := by
  cases call with
  | extractEdhoc crypto request =>
    obtain ⟨⟨next, result⟩, extracted, done⟩ := bind_ok_iff.mp done
    cases done
    obtain ⟨rfl, -⟩ | ⟨responder, cR, state, evicted, started, formed', list, -⟩ :=
      extractEdhoc_ok formed extracted
    · exact ⟨formed, Or.inl rfl⟩
    · obtain ⟨-, -, -, cI, -, byValue, -, -, -, -, rfl⟩ := startHandshake_ok formed started
      exact ⟨formed', forceInsert_oscores formed.ordered rfl list⟩
  | buildEdhocMessage2 response cR =>
    obtain ⟨⟨next, result⟩, built, done⟩ := bind_ok_iff.mp done
    cases done
    obtain ⟨formed', -, rest⟩ := buildEdhocMessage2_ok formed built
    refine ⟨formed', Or.inl ?_⟩
    rw [← oscores_used next.pool.toList, ← oscores_used handler.pool.toList]
    change oscores next.contexts = oscores handler.contexts
    obtain ⟨same, -⟩ | ⟨front, a, back, responder, cI, byValue, split, stage, outcome⟩ := rest
    · rw [same]
    · have handshake : a.isOscore = false := by simp [isOscore, stage]
      have ordered : Ordered level (front ++ a :: back) :=
        split ▸ formed.ordered.sublist List.filter_sublist
      rw [split, oscores_remove handshake]
      obtain ⟨-, rest, -⟩ | ⟨waiting, m, -, placed, -⟩ := outcome
      · rw [rest]
      · rw [placed]
        exact oscores_place ordered.remove rfl

theorem spared_of_reachable (formed : handler.pool.Formed)
    (run : Reachable HandshakeCall.run handler handler') :
    handler'.pool.Formed ∧ Spared handler.pool.toList handler'.pool.toList := by
  refine run.invariant (fun next => next.pool.Formed ∧ Spared handler.pool.toList next.pool.toList)
    ⟨formed, Or.inl rfl⟩ ?_
  rintro next call last ⟨formed', spared⟩ - done
  obtain ⟨formed'', spared'⟩ := HandshakeCall.spared formed' done
  refine ⟨formed'', ?_⟩
  have bound : handler.pool.toList.length ≤ maxContexts := formed.length ▸ formed.bound
  rcases spared with same | ⟨all, full, rest⟩
  · rcases spared' with same' | ⟨all', full', rest'⟩
    · exact Or.inl (same'.trans same)
    · -- The contexts that fill the pool now are those that it had at first.
      have short : handler.pool.toList.length ≤ (oscores handler.pool.toList).length := by
        rw [← same, all']
        exact bound.trans full'
      have all : oscores handler.pool.toList = handler.pool.toList :=
        List.filter_sublist.eq_of_length_le short
      refine Or.inr ⟨all, ?_, ?_⟩
      · rwa [← all, ← same, all']
      · rw [rest', ← all', same, all]
  · rcases spared' with same' | ⟨all', full', -⟩
    · exact Or.inr ⟨all, full, same'.trans rest⟩
    · -- One of the four entries is a handshake.
      rw [← all', rest, List.length_dropLast] at full'
      simp only [maxContexts] at bound full'
      omega

/-- Handshakes evict at most one context: the least recently used one of the lowest priority. -/
theorem handshakes_evict_one {inner : P.Inner} {start : OscoreEdhocHandler cfg}
    (started : new inner = .ok start) (reached : Reachable Call.run start handler)
    (run : Reachable HandshakeCall.run handler handler') :
    oscores handler'.pool.toList = oscores handler.pool.toList ∨
    ∃ kept evicted, handler.pool.toList = kept ++ [evicted] ∧ oscores handler'.pool.toList = kept ∧
      handler.pool.entries.length = maxContexts ∧
      (∀ a ∈ handler.pool.entries, a.isOscore = true ∧ level a ≤ level evicted) ∧
      (evicted.isImportant = true → ∀ a ∈ handler.pool.entries, a.isImportant = true) := by
  have formed := formed_of_reachable started reached
  refine (spared_of_reachable formed run).2.imp_right ?_
  rintro ⟨all, full, rest⟩
  obtain none_ | ⟨kept, evicted, split⟩ := List.eq_nil_or_concat' handler.pool.toList
  · rw [none_] at full
    cases full
  have oscore : ∀ a ∈ handler.pool.toList, a.isOscore = true := List.filter_eq_self.mp all
  have lowest : ∀ a ∈ handler.pool.toList, level a ≤ level evicted := by
    intro a member
    have ordered := formed.ordered
    rw [split] at member ordered
    rcases List.mem_append.mp member with member | member
    · exact (List.pairwise_append.mp ordered).2.2 a member evicted (by simp)
    · rw [List.mem_singleton.mp member]
  refine ⟨kept, evicted, split, ?_, ?_, fun a member => ?_, fun important a member => ?_⟩
  · rw [rest, split, List.dropLast_concat]
  · exact Nat.le_antisymm formed.bound (formed.length ▸ full)
  · have member := formed.mem_entries.mp member
    exact ⟨oscore a member, lowest a member⟩
  · have member := formed.mem_entries.mp member
    have last := oscore evicted (by simp [split])
    have bound := lowest a member
    rw [(isImportant_iff_level last).mp important] at bound
    exact (isImportant_iff_level (oscore a member)).mpr (Nat.le_zero.mp bound)

/-- Two handshakes in a pool of four contexts, and message 2 of the second one. -/
theorem handshakes_evict_one_sample : ∃ handler handler' : OscoreEdhocHandler .clear,
    Reachable HandshakeCall.run handler handler' ∧ handler.pool.toList.length = 4 ∧
      (handler'.pool.toList.map fun a => (a.correspondingCown.map (·.value), a.isOscore)) =
        [(some 3, true), (some 2, true), (some 1, true), (some 0, false)] ∧
      (oscores handler'.pool.toList = oscores handler.pool.toList ∨
        ∃ kept evicted, handler.pool.toList = kept ++ [evicted] ∧
          oscores handler'.pool.toList = kept) := by
  let calls : List (HandshakeCall .clear) := [.extractEdhoc () (Clear.message1 5),
    .extractEdhoc () (Clear.message1 6), .buildEdhocMessage2 Clear.response ⟨0, by decide⟩]
  obtain ⟨handler, reached, check⟩ : ∃ handler : OscoreEdhocHandler .clear,
      Reachable Call.run Clear.start handler ∧
        (decide (handler.pool.toList.length = 4) &&
          (runAll HandshakeCall.run (fun _ _ => True) calls handler).any fun handler' =>
            decide ((handler'.pool.toList.map fun a => (a.correspondingCown.map (·.value), a.isOscore)) =
              [(some 3, true), (some 2, true), (some 1, true), (some 0, false)])) = true :=
    reaches_of_check (List.replicate 4 (Clear.extract (Clear.token 9))) (by decide)
  rw [Bool.and_eq_true, decide_eq_true_eq] at check
  obtain ⟨handler', run, ids⟩ := reaches_of_check calls check.2
  have started : (new () : Except Panic (OscoreEdhocHandler .clear)) = .ok Clear.start := rfl
  refine ⟨handler, handler', run, check.1, of_decide_eq_true ids,
    (handshakes_evict_one started reached run).imp_right ?_⟩
  rintro ⟨kept, evicted, split, rest, -⟩
  exact ⟨kept, evicted, split, rest⟩

end OscoreEdhocHandler

end ArielOS.Coapcore
