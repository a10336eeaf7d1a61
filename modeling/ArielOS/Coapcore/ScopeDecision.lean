import Mathlib.Data.List.MinMax
import ArielOS.Coapcore.ScopeSpec

namespace ArielOS.Coapcore

open AifValue (slash aifScopeMaxLen parts)

variable {D : Minicbor} {bytes : Bytes} {es : List (Bytes × BitVec 32)} {request : Message}

namespace Scope.AifValue

variable {scope : AifValue}

/-- An entry of the array permits the method on the path of the request. -/
def Permits (es : List (Bytes × BitVec 32)) (request : Message) : Prop :=
  ∃ entry ∈ es, Grants entry.2 request ∧ segments entry.1 = uriPath request

def Decides (D : Minicbor) (scope : AifValue) (es : List (Bytes × BitVec 32)) (request : Message) :
    Prop :=
  requestIsAllowed D scope request = .ok true ↔ Permits es request

/-- Entries that permit the request, by a path without and with a trailing slash, and those that would
    without the slash. -/
def PermitsPlain (es : List (Bytes × BitVec 32)) (request : Message) : Prop :=
  ∃ entry ∈ es, Grants entry.2 request ∧ ¬ Trailing entry.1 ∧ segments entry.1 = uriPath request

def PermitsTrailing (es : List (Bytes × BitVec 32)) (request : Message) : Prop :=
  ∃ entry ∈ es, Grants entry.2 request ∧ Trailing entry.1 ∧ segments entry.1 = uriPath request

def PermitsTrimmed (es : List (Bytes × BitVec 32)) (request : Message) : Prop :=
  ∃ entry ∈ es, Grants entry.2 request ∧ Trailing entry.1 ∧
    (segments entry.1).dropLast = uriPath request

theorem permits_iff : Permits es request ↔ PermitsPlain es request ∨ PermitsTrailing es request := by
  apply Iff.intro
  · rintro ⟨entry, member, granted, same⟩
    by_cases trailing : Trailing entry.1
    · exact Or.inr ⟨entry, member, granted, trailing, same⟩
    · exact Or.inl ⟨entry, member, granted, trailing, same⟩
  · rintro (⟨entry, member, granted, -, same⟩ | ⟨entry, member, granted, -, same⟩)
    · exact ⟨entry, member, granted, same⟩
    · exact ⟨entry, member, granted, same⟩

theorem anyMatch_iff (absolute : ∀ entry ∈ es, entry.1.head? = some slash) :
    AnyMatch es request ↔ PermitsPlain es request ∨ PermitsTrimmed es request := by
  apply Iff.intro
  · rintro ⟨entry, member, granted, same⟩
    have split := segments_eq (absolute entry member)
    by_cases trailing : Trailing entry.1
    · rw [if_pos trailing] at split
      refine Or.inr ⟨entry, member, granted, trailing, ?_⟩
      rw [split, List.dropLast_concat, same]
    · rw [if_neg trailing, List.append_nil] at split
      exact Or.inl ⟨entry, member, granted, trailing, split.trans same⟩
  · rintro (⟨entry, member, granted, plain, same⟩ | ⟨entry, member, granted, trailing, same⟩)
    · have split := segments_eq (absolute entry member)
      rw [if_neg plain, List.append_nil] at split
      exact ⟨entry, member, granted, split.symm.trans same⟩
    · have split := segments_eq (absolute entry member)
      rw [if_pos trailing] at split
      rw [split, List.dropLast_concat] at same
      exact ⟨entry, member, granted, same⟩

theorem anyMatch_plain (absolute : ∀ entry ∈ es, entry.1.head? = some slash)
    (plain : ∀ entry ∈ es, Grants entry.2 request → ¬ Trailing entry.1) :
    AnyMatch es request ↔ Permits es request := by
  rw [anyMatch_iff absolute, permits_iff]
  refine or_congr_right (iff_of_false ?_ ?_)
  · rintro ⟨entry, member, granted, trailing, -⟩
    exact plain entry member granted trailing
  · rintro ⟨entry, member, granted, trailing, -⟩
    exact plain entry member granted trailing

theorem splitOn_injective {r r' : Bytes} (same : r.splitOn slash = r'.splitOn slash) : r = r' := by
  have joined : ∀ path : Bytes, [slash].intercalate (path.splitOn slash) = path :=
    fun _ => List.intercalate_splitOn slash
  rw [← joined r, same, joined]

/-- The segments of a path with a trailing slash are the parts of one path alone, that with one more
    slash. -/
theorem parts_ne_segments {path path' : Bytes} (absolute : path.head? = some slash)
    (absolute' : path'.head? = some slash) (trailing : Trailing path)
    (longest : Trailing path' → path'.length ≤ path.length) :
    parts [] (path'.drop 1) ≠ segments path := by
  intro same
  have split := segments_eq absolute'
  rw [same] at split
  obtain ⟨r, rfl⟩ : ∃ r, path = slash :: r := List.head?_eq_some_iff.mp absolute
  obtain ⟨r', rfl⟩ : ∃ r', path' = slash :: r' := List.head?_eq_some_iff.mp absolute'
  have long : r ≠ [] := fun empty => trailing.1 (by rw [empty])
  have own : segments (slash :: r) = r.splitOn slash := if_neg long
  have long' : r' ≠ [] := by
    rintro rfl
    rw [own] at same
    exact List.splitOn_ne_nil _ _ same.symm
  have own' : segments (slash :: r') = r'.splitOn slash := if_neg long'
  rw [own, own'] at split
  by_cases trailing' : Trailing (slash :: r')
  · have concat : (r ++ [slash]).splitOn slash = r.splitOn slash ++ [[]] :=
      List.splitOn_append_cons_self r []
    rw [if_pos trailing', ← concat] at split
    have shorter := longest trailing'
    rw [splitOn_injective split] at shorter
    simp only [List.length_cons, List.length_append, List.length_nil] at shorter
    omega
  · rw [if_neg trailing', List.append_nil] at split
    rw [splitOn_injective split] at trailing'
    exact trailing' trailing

theorem exists_longest {p : Bytes × BitVec 32 → Prop} [DecidablePred p] {entry : Bytes × BitVec 32}
    (member : entry ∈ es) (here : p entry) :
    ∃ longest ∈ es, p longest ∧ ∀ e ∈ es, p e → e.1.length ≤ longest.1.length := by
  have found : entry ∈ es.filter p := List.mem_filter.mpr ⟨member, decide_eq_true here⟩
  cases longest : (es.filter p).argmax (·.1.length) with
  | none =>
    rw [List.argmax_eq_none.mp longest] at found
    cases found
  | some e =>
    obtain ⟨within, good⟩ := List.mem_filter.mp (List.argmax_mem longest)
    refine ⟨e, within, of_decide_eq_true good, fun e' member' good' => ?_⟩
    exact List.le_of_mem_argmax (f := fun e => e.1.length)
      (List.mem_filter.mpr ⟨member', decide_eq_true good'⟩) longest

def requestOf (code : UInt8) (path : List Bytes) : Message where
  code := code
  options := path.map fun value => { number := CoapOption.uriPath, value }
  payload := []

@[simp] theorem uriPath_requestOf (code : UInt8) (path : List Bytes) :
    uriPath (requestOf code path) = path := by
  have all : (path.map fun value => ({ number := CoapOption.uriPath, value } : CoapOption)).filter
      (·.number = CoapOption.uriPath) = path.map fun value => { number := CoapOption.uriPath, value } :=
    List.filter_eq_self.mpr fun option member => by
      obtain ⟨value, -, rfl⟩ := List.mem_map.mp member
      rfl
  rw [uriPath, requestOf, all, List.map_map]
  exact List.map_id path

/-- An entry with a trailing slash makes a decision wrong: the longest such entry is not matched on
    its own segments. -/
theorem exists_wrong {code : UInt8} {entry : Bytes × BitVec 32}
    (absolute : ∀ entry ∈ es, entry.1.head? = some slash) (member : entry ∈ es)
    (trailing : Trailing entry.1) (granted : Grants entry.2 (requestOf code [])) :
    ∃ path, Permits es (requestOf code path) ∧ ¬ AnyMatch es (requestOf code path) := by
  have grants : ∀ {perms path}, Grants perms (requestOf code path) ↔
      Grants perms (requestOf code []) := Iff.rfl
  obtain ⟨longest, within, ⟨ends, grant⟩, most⟩ := exists_longest
    (p := fun e => Trailing e.1 ∧ Grants e.2 (requestOf code [])) member ⟨trailing, granted⟩
  refine ⟨segments longest.1, ⟨longest, within, grants.mpr grant, (uriPath_requestOf ..).symm⟩, ?_⟩
  rintro ⟨e, member', granted', same⟩
  rw [uriPath_requestOf] at same
  exact parts_ne_segments (absolute longest within) (absolute e member') ends
    (fun ends' => most e member' ⟨ends', grants.mp granted'⟩) same

theorem exists_grants {perms : BitVec 32} (some_ : perms ≠ 0) :
    ∃ code : UInt8, code ≠ 0 ∧ Grants perms (requestOf code []) := by
  obtain ⟨bits, set⟩ : ∃ bits, perms.getLsbD bits = true := by
    by_contra none_
    refine some_ (BitVec.eq_of_getLsbD_eq fun i _ => ?_)
    have clear : perms.getLsbD i ≠ true := fun set => none_ ⟨i, set⟩
    simpa using clear
  have small : bits < 32 := BitVec.lt_of_getLsbD set
  have code : (UInt8.ofNat (bits + 1)).toNat = bits + 1 := by
    rw [UInt8.toNat_ofNat']
    omega
  refine ⟨UInt8.ofNat (bits + 1), fun zero => ?_, (grants_iff code).mpr ⟨small, set⟩⟩
  rw [zero] at code
  cases code

theorem decides_iff (parsed : parse D bytes = some scope) (entries : D.Entries bytes es)
    (method : request.code ≠ 0) :
    Decides D scope es request ↔ (AnyMatch es request ↔ Permits es request) := by
  rw [Decides, requestIsAllowed_eq parsed entries method]
  simp

/-- A parsed scope decides about a request as its array says exactly if a plain entry permits it, or
    the entries with a trailing slash permit it with and without the slash; and about all requests
    exactly if no entry with permissions has a trailing slash. -/
theorem scope_decides_iff (parsed : parse D bytes = some scope) : ∃ es, D.Entries bytes es ∧
    (∀ request, request.code ≠ 0 → (Decides D scope es request ↔
      (PermitsPlain es request ∨ (PermitsTrailing es request ↔ PermitsTrimmed es request)))) ∧
    ((∀ request, request.code ≠ 0 → Decides D scope es request) ↔
      ∀ entry ∈ es, entry.2 ≠ 0 → ¬ Trailing entry.1) := by
  obtain ⟨-, -, es, entries, absolute⟩ := parse_ok parsed
  refine ⟨es, entries, fun request method => ?_, ?_⟩
  · rw [decides_iff parsed entries method, anyMatch_iff absolute, permits_iff]
    tauto
  · apply Iff.intro
    · intro all entry member some_ trailing
      obtain ⟨code, method, granted⟩ := exists_grants some_
      obtain ⟨path, permits, missed⟩ := exists_wrong absolute member trailing granted
      exact missed (((decides_iff parsed entries method).mp (all _ method)).mpr permits)
    · intro plain request method
      refine (decides_iff parsed entries method).mpr (anyMatch_plain absolute ?_)
      intro entry member granted
      refine plain entry member fun zero => ?_
      rw [zero] at granted
      simp [Grants] at granted

/-- The evaluation of a parsed scope ends without a panic exactly for requests with a method. -/
theorem evaluation_total_iff (parsed : parse D bytes = some scope) (request : Message) :
    (∃ allowed, requestIsAllowed D scope request = .ok allowed) ↔ request.code ≠ 0 := by
  obtain ⟨-, -, es, entries, -⟩ := parse_ok parsed
  apply Iff.intro
  · rintro ⟨allowed, evaluated⟩ empty
    rw [requestIsAllowed_zero empty] at evaluated
    cases evaluated
  · exact fun method => ⟨_, requestIsAllowed_eq parsed entries method⟩

/-- The scope that the configuration works with decides alike, if it gets the items of the array. -/
theorem parse_refines {P : Platform} {crates : SecurityCrates P}
    (decodes : ∀ bytes es, D.Entries bytes es →
      crates.decodeAif bytes = some (es.map fun (path, perms) => (path, perms.toNat)))
    (parsed : parse D bytes = some scope) :
    ∃ scope', Coapcore.AifValue.parse crates bytes = some scope' ∧ ∀ request, request.code ≠ 0 →
      requestIsAllowed D scope request = .ok (scope'.requestIsAllowed request) := by
  obtain ⟨fits, -, es, entries, absolute⟩ := parse_ok parsed
  refine ⟨⟨es.map fun (path, perms) => (path, perms.toNat)⟩, ?_, fun request method => ?_⟩
  · unfold Coapcore.AifValue.parse
    rw [if_neg (Nat.not_lt.mpr fits), decodes bytes es entries]
    refine if_pos (List.all_eq_true.mpr fun entry member => ?_)
    obtain ⟨source, within, rfl⟩ := List.mem_map.mp member
    exact decide_eq_true (absolute source within)
  · rw [requestIsAllowed_eq parsed entries method]
    have positive : 1 ≤ request.code.toNat :=
      Nat.one_le_iff_ne_zero.mpr fun zero => method (UInt8.toNat_inj.mp zero)
    refine congrArg Except.ok (Bool.eq_iff_iff.mpr (decide_eq_true_iff.trans ?_))
    unfold Coapcore.AifValue.requestIsAllowed AnyMatch Grants
    simp only [decide_eq_true_eq, Bool.and_eq_true, List.any_eq_true, List.mem_map, positive,
      true_and, exists_exists_and_eq_and, BitVec.testBit_toNat]
    apply Iff.intro
    · rintro ⟨entry, member, ⟨small, set⟩, same⟩
      exact ⟨small, entry, member, set, same⟩
    · rintro ⟨small, entry, member, set, same⟩
      exact ⟨entry, member, ⟨small, set⟩, same⟩

end Scope.AifValue

namespace Clear

open Reader Cbor

def readEntry : Reader (Bytes × BitVec 32) :=
  (readHead 4).bind fun n =>
    if n ≠ 2 then fail
    else readText.bind fun path => (readHead 0).bind fun perms =>
      if perms < 4294967296 then pure (path, BitVec.ofNat 32 perms) else fail

theorem local_readEntry_rest (n : Nat) :
    Local (if n ≠ 2 then fail
      else readText.bind fun path => (readHead 0).bind fun perms =>
        if perms < 4294967296 then pure (path, BitVec.ofNat 32 perms) else fail) := by
  split
  · exact local_fail
  · refine local_readText.bind fun path => local_readHead.bind fun perms => ?_
    split
    · exact local_pure _
    · exact local_fail

/-- minicbor, but for the check of UTF-8. -/
def minicbor : Minicbor where
  array := readArray
  entry := readEntry
  local_array := local_readArray
  local_entry := local_readHead.bind local_readEntry_rest
  advances_entry := advances_readHead.bind local_readEntry_rest

/-- `[["/a", 1]]`. -/
def plainScope : Bytes := [0x81, 0x82, 0x62, 0x2f, 0x61, 0x01]

theorem plainScope_entries : minicbor.Entries plainScope [([0x2f, 0x61], 1)] :=
  ⟨_, rfl, .item rfl (.done rfl)⟩

/-- `[["/a/", 1]]`. -/
def trailingScope : Bytes := [0x81, 0x82, 0x63, 0x2f, 0x61, 0x2f, 0x01]

theorem trailingScope_entries : minicbor.Entries trailingScope [([0x2f, 0x61, 0x2f], 1)] :=
  ⟨_, rfl, .item rfl (.done rfl)⟩

end Clear

namespace Scope.AifValue

theorem scope_decides_iff_sample : ∃ scope, parse Clear.minicbor Clear.plainScope = some scope ∧
    requestIsAllowed Clear.minicbor scope (requestOf 1 [[0x61]]) = .ok true := by
  obtain ⟨scope, parsed⟩ := parse_of_entries (by decide) Clear.plainScope_entries (by decide)
  obtain ⟨es, entries, -, all⟩ := scope_decides_iff parsed
  cases entries.unique Clear.plainScope_entries
  refine ⟨scope, parsed, (all.mpr (by decide) _ (by decide)).mpr ?_⟩
  exact ⟨_, List.mem_cons_self, by decide, rfl⟩

theorem evaluation_total_iff_sample : ∃ scope, parse Clear.minicbor Clear.plainScope = some scope ∧
    ∃ allowed, requestIsAllowed Clear.minicbor scope (requestOf 0xff []) = .ok allowed := by
  obtain ⟨scope, parsed⟩ := parse_of_entries (by decide) Clear.plainScope_entries (by decide)
  exact ⟨scope, parsed, (evaluation_total_iff parsed _).mpr (by decide)⟩

/-- An entry for `/a/` allows `/a`, and does not allow `/a/`. -/
theorem trailing_slash_ignored : ∃ scope, parse Clear.minicbor Clear.trailingScope = some scope ∧
    requestIsAllowed Clear.minicbor scope (requestOf 1 [[0x61]]) = .ok true ∧
    ¬ Permits [([0x2f, 0x61, 0x2f], 1)] (requestOf 1 [[0x61]]) ∧
    requestIsAllowed Clear.minicbor scope (requestOf 1 [[0x61], []]) = .ok false ∧
    Permits [([0x2f, 0x61, 0x2f], 1)] (requestOf 1 [[0x61], []]) := by
  obtain ⟨scope, parsed⟩ := parse_of_entries (by decide) Clear.trailingScope_entries (by decide)
  refine ⟨scope, parsed, ?_, ?_, ?_, ?_⟩
  · rw [requestIsAllowed_eq parsed Clear.trailingScope_entries (by decide)]
    rfl
  · rintro ⟨entry, member, -, same⟩
    rw [List.mem_singleton.mp member] at same
    cases same
  · rw [requestIsAllowed_eq parsed Clear.trailingScope_entries (by decide)]
    rfl
  · exact ⟨_, List.mem_cons_self, by decide, rfl⟩

/-- A request with the code 0.00 ends the evaluation in a panic. -/
theorem empty_code_panics : ∃ scope, parse Clear.minicbor Clear.plainScope = some scope ∧
    requestIsAllowed Clear.minicbor scope (requestOf 0 []) = .error .expectFailed := by
  obtain ⟨scope, parsed⟩ := parse_of_entries (by decide) Clear.plainScope_entries (by decide)
  exact ⟨scope, parsed, requestIsAllowed_zero rfl⟩

end Scope.AifValue

end ArielOS.Coapcore
