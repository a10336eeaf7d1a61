import ArielOS.Coapcore.Scope

namespace ArielOS.Coapcore

open AifValue (slash aifScopeMaxLen)

variable {D : Minicbor} {bytes tail : Bytes} {es : List (Bytes × BitVec 32)}

namespace ArrayIter

variable {it it' : ArrayIter} {R : Type} {failed : R} {body : Bytes × BitVec 32 → Option R}

/-- The iterator ends after exactly these items. -/
inductive Yields (D : Minicbor) : ArrayIter → List (Bytes × BitVec 32) → Prop
  | done {it : ArrayIter} : it.next D = none → Yields D it []
  | item {it it' : ArrayIter} {entry : Bytes × BitVec 32} {es : List (Bytes × BitVec 32)} :
    it.next D = some (some entry, it') → Yields D it' es → Yields D it (entry :: es)

theorem Yields.unique {es' : List (Bytes × BitVec 32)} (yields : Yields D it es)
    (yields' : Yields D it es') : es = es' := by
  induction yields generalizing es' with
  | done ended =>
    cases yields' with
    | done => rfl
    | item taken => cases ended.symm.trans taken
  | item taken _ ih =>
    cases yields' with
    | done ended => cases ended.symm.trans taken
    | item taken' rest =>
      cases taken.symm.trans taken'
      rw [ih rest]

theorem forEach_yields (yields : Yields D it es) :
    it.forEach D failed body = es.findSome? body := by
  induction yields with
  | done ended =>
    unfold forEach
    split
    · rfl
    · rename_i taken
      cases ended.symm.trans taken
    · rename_i taken
      cases ended.symm.trans taken
  | @item it it' entry es taken _ ih =>
    unfold forEach
    split
    · rename_i ended
      cases ended.symm.trans taken
    · rename_i wrong
      cases wrong.symm.trans taken
    · rename_i entry' it'' taken'
      cases taken.symm.trans taken'
      rw [List.findSome?_cons]
      cases body entry with
      | some r => rfl
      | none => exact ih

/-- A loop that comes to its end has seen all items, and went on at each. -/
theorem yields_of_forEach (ended : it.forEach D failed body = none) :
    ∃ es, Yields D it es ∧ ∀ entry ∈ es, body entry = none := by
  induction size : it.input.length using Nat.strong_induction_on generalizing it with
  | _ size ih =>
    unfold forEach at ended
    split at ended
    · rename_i done
      exact ⟨[], .done done, by simp⟩
    · cases ended
    · rename_i entry it' taken
      split at ended
      · cases ended
      · rename_i onward
        obtain ⟨es, yields, all⟩ := ih _ (size ▸ next_advances taken) ended rfl
        refine ⟨entry :: es, .item taken yields, fun e member => ?_⟩
        rcases List.mem_cons.mp member with rfl | member
        · exact onward
        · exact all e member

/-- What stands behind the array does not matter. -/
theorem Yields.append (yields : Yields D it es) (tail : Bytes) :
    Yields D { it with input := it.input ++ tail } es := by
  induction yields with
  | @done it ended =>
    refine .done ?_
    obtain ⟨len, input⟩ := it
    unfold next at ended ⊢
    rcases len with _ | _ | n
    · dsimp only at ended ⊢
      split at ended
      · rename_i closed
        cases input with
        | nil => cases closed
        | cons first input => rw [if_pos (by simpa using closed)]
      · cases ended
    · rfl
    · cases ended
  | @item it it' entry es taken _ ih =>
    obtain ⟨decoded, counts⟩ := next_some taken
    have decoded := D.local_entry.append decoded tail
    refine .item ?_ ih
    obtain ⟨len, input⟩ := it
    obtain ⟨len', input'⟩ := it'
    unfold next
    rcases counts with ⟨n, counted, counts⟩ | ⟨counted, more, counts⟩
    · obtain rfl : len = some (n + 1) := counted
      obtain rfl : len' = some n := counts
      simp only [read, decoded]
    · obtain rfl : len = none := counted
      obtain rfl : len' = none := counts
      have more : (input ++ tail).head? ≠ some breakByte := by
        cases input with
        | nil => exact absurd (next_advances taken) (Nat.not_lt_zero _)
        | cons first input => exact more
      simp only [if_neg more, read, decoded]

end ArrayIter

/-- The input begins with an array of these items. -/
def Minicbor.Entries (D : Minicbor) (bytes : Bytes) (es : List (Bytes × BitVec 32)) : Prop :=
  ∃ items, D.arrayIter bytes = some items ∧ items.Yields D es

namespace Minicbor

theorem Entries.unique {es' : List (Bytes × BitVec 32)} (entries : D.Entries bytes es)
    (entries' : D.Entries bytes es') : es = es' := by
  obtain ⟨items, array, yields⟩ := entries
  obtain ⟨items', array', yields'⟩ := entries'
  cases array.symm.trans array'
  exact yields.unique yields'

theorem Entries.append (entries : D.Entries bytes es) (tail : Bytes) :
    D.Entries (bytes ++ tail) es := by
  obtain ⟨items, array, yields⟩ := entries
  obtain ⟨⟨len, input⟩, decoded, rfl⟩ := Option.map_eq_some_iff.mp array
  exact ⟨_, Option.map_eq_some_iff.mpr ⟨_, D.local_array.append decoded tail, rfl⟩,
    yields.append tail⟩

end Minicbor

namespace AifValue

/-- An empty rest behind the last slash is no part, other than in a list of the segments. -/
theorem splitOn_parts {part r : Bytes} (plain : slash ∉ part) :
    (part ++ r).splitOn slash = parts part r ++
      if part ++ r = [] ∨ (part ++ r).getLast? = some slash then [[]] else [] := by
  induction r generalizing part with
  | nil =>
    rw [List.append_nil, List.splitOn_eq_singleton plain, parts]
    by_cases empty : part = []
    · simp [empty]
    · have last : part.getLast? ≠ some slash := fun last => plain (List.mem_of_getLast? last)
      simp [empty, last]
  | cons b r ih =>
    rw [parts]
    split
    · rename_i same
      subst same
      have last : (part ++ slash :: r = [] ∨ (part ++ slash :: r).getLast? = some slash) ↔
          (r = [] ∨ r.getLast? = some slash) := by
        cases r <;> simp
      have ih := @ih [] List.not_mem_nil
      rw [List.nil_append] at ih
      rw [List.splitOn_append_cons_self_of_not_mem plain, ih, if_congr last rfl rfl]
      rfl
    · rename_i other
      have plain' : slash ∉ part ++ [b] := by simp [plain, Ne.symm other]
      have ih := ih plain'
      rwa [List.append_assoc, List.singleton_append] at ih

end AifValue

namespace Scope.AifValue

open Coapcore.AifValue (parts splitOn_parts)

variable {path remainder : Bytes} {pathopts : List Bytes} {perms : BitVec 32} {request : Message}
  {scope : AifValue}

theorem parts_of_splitOnce {acc part rest : Bytes} (found : splitOnce remainder = some (part, rest)) :
    parts acc remainder = (acc ++ part) :: parts [] rest := by
  induction remainder generalizing acc part with
  | nil => cases found
  | cons b remainder ih =>
    rw [splitOnce] at found
    rw [parts]
    split
    · rename_i same
      rw [if_pos same] at found
      cases found
      rw [List.append_nil]
    · rename_i other
      rw [if_neg other] at found
      obtain ⟨⟨part', rest'⟩, found, same⟩ := Option.map_eq_some_iff.mp found
      cases same
      rw [ih found, List.append_assoc, List.singleton_append]

theorem parts_of_no_slash {acc : Bytes} (missing : splitOnce remainder = none)
    (some_ : acc ++ remainder ≠ []) : parts acc remainder = [acc ++ remainder] := by
  induction remainder generalizing acc with
  | nil =>
    rw [List.append_nil] at some_ ⊢
    rw [parts, if_neg some_]
  | cons b remainder ih =>
    rw [splitOnce] at missing
    rw [parts]
    split
    · rename_i same
      rw [if_pos same] at missing
      cases missing
    · rename_i other
      rw [if_neg other] at missing
      have rest := @ih (acc ++ [b]) (Option.map_eq_none_iff.mp missing) (by simp)
      rw [rest, List.append_assoc, List.singleton_append]

/-- A request has exactly the parts of the path as its options. -/
theorem walk_iff : walk remainder pathopts = some [] ↔ parts [] remainder = pathopts := by
  induction pathopts generalizing remainder with
  | nil =>
    cases remainder with
    | nil => simp [walk, parts]
    | cons b remainder =>
      refine iff_of_false (by simp [walk]) fun none_ => ?_
      cases found : splitOnce (b :: remainder) with
      | none =>
        rw [parts_of_no_slash found (by simp)] at none_
        cases none_
      | some split =>
        rw [parts_of_splitOnce found] at none_
        cases none_
  | cons thisOpt pathopts ih =>
    cases remainder with
    | nil => simp [walk, parts]
    | cons b remainder =>
      have step : ∀ part rest, (splitOnce (b :: remainder)).getD (b :: remainder, []) = (part, rest) →
          parts [] (b :: remainder) = part :: parts [] rest := by
        intro part rest found
        cases split : splitOnce (b :: remainder) with
        | none =>
          rw [split] at found
          cases found
          exact parts_of_no_slash split (by simp)
        | some found' =>
          rw [split] at found
          cases found
          exact parts_of_splitOnce split
      rw [walk]
      · dsimp only
        rw [step _ _ rfl]
        split
        · rename_i other
          exact iff_of_false (by simp) fun same => other (List.cons.inj same).1.symm
        · rename_i same
          rw [ih, List.cons.injEq]
          exact (and_iff_right (not_not.mp same).symm).symm
      · exact List.cons_ne_nil _ _

/-- A path has the segments between its slashes, other than the root. -/
def segments (path : Bytes) : List Bytes :=
  if path.drop 1 = [] then [] else (path.drop 1).splitOn slash

def Trailing (path : Bytes) : Prop := path ≠ [slash] ∧ path.getLast? = some slash

instance : DecidablePred Trailing := fun _ => inferInstanceAs (Decidable (_ ∧ _))

theorem segments_eq (absolute : path.head? = some slash) :
    segments path = parts [] (path.drop 1) ++ if Trailing path then [[]] else [] := by
  obtain ⟨r, rfl⟩ : ∃ r, path = slash :: r := by
    cases path with
    | nil => cases absolute
    | cons b r => exact ⟨r, by rw [Option.some.inj absolute]⟩
  have split := splitOn_parts (r := r) (List.not_mem_nil (a := slash))
  rw [List.nil_append] at split
  unfold segments Trailing
  rw [List.drop_one, List.tail_cons, split]
  cases r with
  | nil => simp [parts]
  | cons b r => simp

/-- The permissions have a bit for the method of the request. -/
def Grants (perms : BitVec 32) (request : Message) : Prop :=
  request.code.toNat ≤ 32 ∧ perms.getLsbD (request.code.toNat - 1) = true

instance : Decidable (Grants perms request) := inferInstanceAs (Decidable (_ ∧ _))

theorem and_codebit {bits : Nat} (small : bits < 32) :
    perms &&& 1#32 <<< bits = 0 ↔ perms.getLsbD bits = false := by
  have bit : (BitVec.twoPow 32 bits).toNat ≠ 0 := by
    rw [BitVec.toNat_twoPow_of_lt small]
    exact Nat.two_pow_pos bits |>.ne'
  rw [← BitVec.twoPow_eq, BitVec.and_twoPow]
  cases perms.getLsbD bits with
  | false => simp
  | true =>
    refine iff_of_false (fun zero => bit ?_) (by simp)
    rw [show BitVec.twoPow 32 bits = 0 from zero]
    rfl

theorem evaluate_eq {bits : Nat} (small : bits < 32) (absolute : path.head? = some slash) :
    evaluate (1#32 <<< bits) request (path, perms) =
      if perms.getLsbD bits = true ∧ parts [] (path.drop 1) = uriPath request then some (.ok true)
      else none := by
  unfold evaluate
  dsimp only
  by_cases granted : perms.getLsbD bits = true
  · have some_ : ¬ perms &&& 1#32 <<< bits = 0 := by
      rw [and_codebit small, granted]
      decide
    rw [if_neg some_]
    by_cases root : path = [slash] ∧ uriPath request = []
    · have same : parts [] (path.drop 1) = uriPath request := by
        rw [root.1, root.2]
        rfl
      rw [if_pos root, if_pos ⟨granted, same⟩]
    · rw [if_neg root, if_neg (not_not.mpr absolute)]
      have walks : walk (path.drop 1) (uriPath request) = some [] ↔
          parts [] (path.drop 1) = uriPath request := walk_iff
      cases walked : walk (path.drop 1) (uriPath request) with
      | none =>
        have other : ¬ parts [] (path.drop 1) = uriPath request := by
          rw [← walks, walked]
          simp
        rw [if_neg fun both => other both.2]
      | some rest =>
        rw [walked, Option.some.injEq] at walks
        dsimp only
        exact if_congr (walks.trans (and_iff_right granted).symm) rfl rfl
  · rw [if_pos ((and_codebit small).mpr (by simpa using granted)), if_neg fun both => granted both.1]

theorem parse_ok (parsed : parse D bytes = some scope) :
    bytes.length ≤ aifScopeMaxLen ∧
      scope.buffer = bytes ++ List.replicate (aifScopeMaxLen - bytes.length) 0 ∧
      ∃ es, D.Entries bytes es ∧ ∀ entry ∈ es, entry.1.head? = some slash := by
  unfold parse at parsed
  split at parsed
  · rename_i fits
    split at parsed
    · cases parsed
    · rename_i items array
      split at parsed
      · cases parsed
      · rename_i ended
        obtain ⟨es, yields, all⟩ := ArrayIter.yields_of_forEach ended
        cases parsed
        refine ⟨fits, rfl, es, ⟨items, array, yields⟩, fun entry member => ?_⟩
        by_contra relative
        have wrong := all entry member
        dsimp only at wrong
        rw [if_neg relative] at wrong
        cases wrong
  · cases parsed

theorem parse_of_entries (fits : bytes.length ≤ aifScopeMaxLen) (entries : D.Entries bytes es)
    (absolute : ∀ entry ∈ es, entry.1.head? = some slash) : ∃ scope, parse D bytes = some scope := by
  obtain ⟨items, array, yields⟩ := entries
  refine ⟨copied bytes fits, ?_⟩
  unfold parse
  rw [dif_pos fits, array]
  dsimp only
  rw [ArrayIter.forEach_yields yields, List.findSome?_eq_none_iff.mpr]
  intro entry member
  rw [if_pos (absolute entry member)]

def AnyMatch (es : List (Bytes × BitVec 32)) (request : Message) : Prop :=
  ∃ entry ∈ es, Grants entry.2 request ∧ parts [] (entry.1.drop 1) = uriPath request

instance : Decidable (AnyMatch es request) := inferInstanceAs (Decidable (∃ _ ∈ _, _))

theorem grants_iff {bits : Nat} (code : request.code.toNat = bits + 1) :
    Grants perms request ↔ bits < 32 ∧ perms.getLsbD bits = true := by
  rw [Grants, code]
  rfl

theorem evaluate_all {bits : Nat} (code : request.code.toNat = bits + 1) (small : bits < 32)
    (absolute : ∀ entry ∈ es, entry.1.head? = some slash) :
    es.findSome? (evaluate (1#32 <<< bits) request) =
      if AnyMatch es request then some (.ok true) else none := by
  induction es with
  | nil => simp [AnyMatch]
  | cons entry es ih =>
    have rest := ih fun entry member => absolute entry (List.mem_cons_of_mem _ member)
    have any : AnyMatch (entry :: es) request ↔ (entry.2.getLsbD bits = true ∧
        parts [] (entry.1.drop 1) = uriPath request) ∨ AnyMatch es request := by
      unfold AnyMatch
      rw [List.exists_mem_cons_iff, grants_iff code, and_iff_right small]
    rw [List.findSome?_cons, evaluate_eq small (absolute entry List.mem_cons_self), rest]
    split
    · rename_i here
      split at here
      · rename_i match_
        cases here
        rw [if_pos (any.mpr (Or.inl match_))]
      · cases here
    · rename_i onward
      split at onward
      · cases onward
      · rename_i other
        exact if_congr (by rw [any, or_iff_right other]) rfl rfl

/-- What is decided about a request of any method: the padded copy has the items of the parsed bytes. -/
theorem requestIsAllowed_eq (parsed : parse D bytes = some scope) (entries : D.Entries bytes es)
    (method : request.code ≠ 0) :
    requestIsAllowed D scope request = .ok (decide (AnyMatch es request)) := by
  obtain ⟨fits, copy, es', entries', absolute⟩ := parse_ok parsed
  cases entries.unique entries'
  obtain ⟨items, array, yields⟩ := entries.append (List.replicate (aifScopeMaxLen - bytes.length) 0)
  rw [← copy] at array
  obtain ⟨bits, code⟩ : ∃ bits, request.code.toNat = bits + 1 :=
    Nat.exists_eq_succ_of_ne_zero fun zero => method (UInt8.toNat_inj.mp zero)
  unfold requestIsAllowed overflowingShl
  rw [code]
  dsimp only
  by_cases small : bits < 32
  · rw [if_pos small, array]
    dsimp only
    rw [ArrayIter.forEach_yields yields, evaluate_all code small absolute]
    by_cases any : AnyMatch es request
    · rw [if_pos any, decide_eq_true any]
    · rw [if_neg any, decide_eq_false any]
  · have none_ : ¬ AnyMatch es request := by
      rintro ⟨entry, -, granted, -⟩
      exact small ((grants_iff code).mp granted).1
    rw [if_neg small, decide_eq_false none_]

theorem requestIsAllowed_zero (empty : request.code = 0) :
    requestIsAllowed D scope request = .error .expectFailed := by
  unfold requestIsAllowed
  rw [empty]
  rfl

end Scope.AifValue

end ArielOS.Coapcore
