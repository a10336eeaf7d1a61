import ArielOS.Coapcore.Peers
import ArielOS.Lib.Run

namespace ArielOS.Coapcore.Peers

open Machine Scope.AifValue
open Coapcore.AifValue (slash aifScopeMaxLen)

variable {D : Minicbor} {crates : BuildCrates} {aif : List (String × Permission)} {request : Message}

def entryBytes (entry : Bytes × BitVec 32) : Bytes :=
  Cbor.array [Cbor.text entry.1, Cbor.uint entry.2.toNat]

def encoding (entries : List (Bytes × BitVec 32)) : Bytes := Cbor.array (entries.map entryBytes)

/-- minicbor writes vectors and tuples as arrays, with the shortest heads. -/
def BuildCrates.EncodesScopes (crates : BuildCrates) : Prop :=
  ∀ entries, crates.encode entries = encoding entries

/-- minicbor reads what it writes. -/
structure ReadsBack (D : Minicbor) : Prop where
  array : ∀ {n rest}, n < 256 ^ 8 → D.array (Cbor.head 4 n ++ rest) = some (some n, rest)
  entry : ∀ {text : String} {perms rest}, (utf8 text).length < 256 ^ 8 →
    D.entry (entryBytes (utf8 text, perms) ++ rest) = some ((utf8 text, perms), rest)

namespace Permission

def Contains : Permission → SinglePermission → Prop
  | set permissions, method => method ∈ permissions
  | single permission, method => method = permission

theorem single_mask (permission method : SinglePermission) :
    permission.mask.getLsbD (method.code - 1) = true ↔ method = permission := by
  cases permission <;> cases method <;> decide

theorem set_mask (permissions : List SinglePermission) (old : BitVec 32) (bit : Nat) :
    (permissions.foldl (fun old value => old ||| value.mask) old).getLsbD bit = true ↔
      old.getLsbD bit = true ∨ ∃ permission ∈ permissions, permission.mask.getLsbD bit = true := by
  induction permissions generalizing old with
  | nil => simp
  | cons permission permissions ih =>
    rw [List.foldl_cons, ih, BitVec.getLsbD_or, Bool.or_eq_true, List.exists_mem_cons_iff, or_assoc]

theorem mask_contains (permission : Permission) (method : SinglePermission) :
    permission.mask.getLsbD (method.code - 1) = true ↔ permission.Contains method := by
  cases permission with
  | single permission => exact single_mask permission method
  | set permissions =>
    have none_ : (0 : BitVec 32).getLsbD (method.code - 1) ≠ true := by simp
    rw [mask, set_mask, or_iff_right none_]
    simp only [single_mask, Contains, exists_eq_right']

theorem grants_mask {permission : Permission} {method : SinglePermission}
    (code : request.code.toNat = method.code) :
    Grants permission.mask request ↔ permission.Contains method := by
  have small : method.code ≤ 32 := by cases method <;> decide
  rw [Grants, code, and_iff_right small, mask_contains]

end Permission

/-- Some entry of the map has the segments of the request, and its method. -/
def Lists (aif : List (String × Permission)) (method : SinglePermission) (request : Message) : Prop :=
  ∃ entry ∈ aif, segments (utf8 entry.1) = uriPath request ∧ entry.2.Contains method

theorem permits_data {method : SinglePermission} (code : request.code.toNat = method.code) :
    Permits (data aif) request ↔ Lists aif method request := by
  unfold Permits Lists data
  simp only [List.mem_map, exists_exists_and_eq_and, Permission.grants_mask code]
  exact exists_congr fun entry => and_congr_right fun _ => and_comm

theorem length_text_le (entry : Bytes × BitVec 32) : entry.1.length ≤ (entryBytes entry).length := by
  simp only [entryBytes, Cbor.array, Cbor.text, List.length_append, List.flatten_cons]
  omega

theorem length_entryBytes_pos (entry : Bytes × BitVec 32) : 0 < (entryBytes entry).length := by
  change 0 < (Cbor.head 4 2 ++ _).length
  rw [List.length_append]
  exact Nat.add_pos_left (by decide) _

theorem length_data_le : aif.length ≤ ((data aif).map entryBytes).flatten.length := by
  induction aif with
  | nil => exact Nat.le_refl _
  | cons entry aif ih =>
    have own := length_entryBytes_pos (utf8 entry.1, entry.2.mask)
    change _ ≤ (entryBytes (utf8 entry.1, entry.2.mask) ++
      ((data aif).map entryBytes).flatten).length
    rw [List.length_cons, List.length_append]
    omega

theorem yields_data (reads : ReadsBack D)
    (small : ((data aif).map entryBytes).flatten.length < 256 ^ 8) :
    ArrayIter.Yields D ⟨some aif.length, ((data aif).map entryBytes).flatten⟩ (data aif) := by
  induction aif with
  | nil => exact .done rfl
  | cons entry aif ih =>
    have first : (utf8 entry.1).length ≤ (entryBytes (utf8 entry.1, entry.2.mask)).length :=
      length_text_le (utf8 entry.1, entry.2.mask)
    change (entryBytes (utf8 entry.1, entry.2.mask) ++
      ((data aif).map entryBytes).flatten).length < _ at small
    rw [List.length_append] at small
    have rest := ih (by omega)
    have read : D.entry (entryBytes (utf8 entry.1, entry.2.mask) ++
        ((data aif).map entryBytes).flatten) =
          some ((utf8 entry.1, entry.2.mask), ((data aif).map entryBytes).flatten) :=
      reads.entry (by omega)
    refine .item ?_ rest
    change some (ArrayIter.read D (some aif.length) (entryBytes (utf8 entry.1, entry.2.mask) ++
      ((data aif).map entryBytes).flatten)) = _
    rw [ArrayIter.read, read]

theorem entries_encoding (reads : ReadsBack D)
    (small : (encoding (data aif)).length ≤ aifScopeMaxLen) :
    D.Entries (encoding (data aif)) (data aif) := by
  have count : ((data aif).map entryBytes).length = aif.length := by simp [data]
  have whole : encoding (data aif) =
      Cbor.head 4 aif.length ++ ((data aif).map entryBytes).flatten := by
    rw [encoding, Cbor.array, count]
  have fits : ((data aif).map entryBytes).flatten.length ≤ aifScopeMaxLen := by
    rw [whole, List.length_append] at small
    omega
  have limit : aifScopeMaxLen < 256 ^ 8 := by decide
  have items : aif.length ≤ ((data aif).map entryBytes).flatten.length := length_data_le
  refine ⟨⟨some aif.length, ((data aif).map entryBytes).flatten⟩, ?_, yields_data reads (by omega)⟩
  rw [whole, Minicbor.arrayIter, reads.array (by omega)]
  rfl

/-- The expression for a map can be evaluated, and what it gives allows what the map says. -/
def Faithful (D : Minicbor) (source : ScopeSource) (aif : List (String × Permission)) : Prop :=
  ∃ scope, source.load D = .ok scope ∧ ∀ method request, request.code.toNat = method.code →
    ∃ allowed, scope.requestIsAllowed D request = .ok allowed ∧
      (allowed = true ↔ Lists aif method request)

/-- What a map has to meet for the device. -/
structure Suitable (crates : BuildCrates) (aif : List (String × Permission)) : Prop where
  absolute : ∀ entry ∈ aif, (utf8 entry.1).head? = some slash
  short : (crates.encode (data aif)).length ≤ aifScopeMaxLen
  plain : ∀ entry ∈ aif, (∃ method, entry.2.Contains method) → ¬ Trailing (utf8 entry.1)

theorem absolute_data (absolute : ∀ entry ∈ aif, (utf8 entry.1).head? = some slash) :
    ∀ entry ∈ data aif, entry.1.head? = some slash := by
  intro entry member
  obtain ⟨source, within, rfl⟩ := List.mem_map.mp member
  exact absolute source within

theorem code_ne_zero {method : SinglePermission} (code : request.code.toNat = method.code) :
    request.code ≠ 0 := by
  intro zero
  rw [zero] at code
  cases method <;> cases code

theorem Suitable.faithful (encodes : crates.EncodesScopes) (reads : ReadsBack D)
    (suitable : Suitable crates aif) : Faithful D (scopeSource crates (.aif aif)) aif := by
  have short := suitable.short
  rw [encodes] at short
  have entries := entries_encoding reads short
  have absolute := absolute_data suitable.absolute
  obtain ⟨scope, parsed⟩ := parse_of_entries short entries absolute
  refine ⟨.aifValue scope, ?_, fun method request code => ?_⟩
  · rw [scopeSource, ScopeSource.load, encodes, parsed]
  · refine ⟨_, requestIsAllowed_eq parsed entries (code_ne_zero code), ?_⟩
    have plain : ∀ entry ∈ data aif, Grants entry.2 request → ¬ Trailing entry.1 := by
      intro entry member granted
      obtain ⟨source, within, rfl⟩ := List.mem_map.mp member
      exact suitable.plain source within ⟨method, (Permission.grants_mask code).mp granted⟩
    rw [decide_eq_true_iff, anyMatch_plain absolute plain, permits_data code]

theorem ScopeSource.load_parse_none {bytes : Bytes} (refused : parse D bytes = none) :
    (ScopeSource.aifValue bytes).load D = .error .expectFailed := by
  rw [ScopeSource.load, refused]

theorem Faithful.suitable (encodes : crates.EncodesScopes) (reads : ReadsBack D)
    (faithful : Faithful D (scopeSource crates (.aif aif)) aif) : Suitable crates aif := by
  obtain ⟨scope, loaded, decides⟩ := faithful
  rw [scopeSource, ScopeSource.load] at loaded
  split at loaded
  · rename_i value parsed
    cases loaded
    obtain ⟨short, -, es, entries, absolute⟩ := parse_ok parsed
    have short' := short
    rw [encodes] at entries short'
    cases entries.unique (entries_encoding reads short')
    refine ⟨fun entry member => absolute _ (List.mem_map_of_mem member), short, ?_⟩
    rintro entry member ⟨method, contained⟩ trailing
    have code : (UInt8.ofNat method.code).toNat = method.code := by cases method <;> decide
    have granted : Grants entry.2.mask (requestOf (UInt8.ofNat method.code) []) :=
      (Permission.grants_mask code).mpr contained
    have listed : (utf8 entry.1, entry.2.mask) ∈ data aif := List.mem_map.mpr ⟨entry, member, rfl⟩
    obtain ⟨path, permits, missed⟩ := exists_wrong absolute listed trailing granted
    have code : (requestOf (UInt8.ofNat method.code) path).code.toNat = method.code := code
    obtain ⟨allowed, evaluated, lists⟩ := decides method _ code
    rw [encodes] at parsed
    have decided := requestIsAllowed_eq parsed (entries_encoding reads short') (code_ne_zero code)
    rw [Coapcore.Scope.UnionScope.requestIsAllowed, decided] at evaluated
    cases evaluated
    exact missed (of_decide_eq_true (lists.mpr ((permits_data code).mp permits)))
  · cases loaded

theorem addPeer_scopes {rs rs' : PeersRs} {peer : Peer} (added : addPeer crates rs peer = .ok rs') :
    rs.scopes ⊆ rs'.scopes ∧ scopeSource crates peer.scope ∈ rs'.scopes := by
  unfold addPeer at added
  dsimp only at added
  split at added
  · split at added
    · cases added
      refine ⟨fun source member => ?_, by simp [PeersRs.scopes]⟩
      simp only [PeersRs.scopes, List.map_append, List.mem_append] at member ⊢
      exact member.imp Or.inl id
    · cases added
  · split at added
    · cases added
    · rename_i first
      cases added
      refine ⟨fun source member => ?_, by simp [PeersRs.scopes]⟩
      simp only [PeersRs.scopes, first, Option.toList_none, List.append_nil] at member
      exact List.mem_append_left _ member
  · cases added

/-- An accepted list of peers leaves the scope of every peer in `peers.rs`. -/
theorem foldlM_scopes {peers : List Peer} {rs rs' : PeersRs}
    (accepted : peers.foldlM (addPeer crates) rs = .ok rs') :
    rs.scopes ⊆ rs'.scopes ∧ ∀ peer ∈ peers, scopeSource crates peer.scope ∈ rs'.scopes := by
  induction peers generalizing rs with
  | nil =>
    cases accepted
    exact ⟨List.Subset.refl _, by simp⟩
  | cons peer peers ih =>
    rw [List.foldlM_cons] at accepted
    obtain ⟨middle, added, accepted⟩ := bind_ok_iff.mp accepted
    obtain ⟨kept, own⟩ := addPeer_scopes added
    obtain ⟨kept', rest⟩ := ih accepted
    refine ⟨List.Subset.trans kept kept', fun other member => ?_⟩
    rcases List.mem_cons.mp member with rfl | member
    · exact kept' own
    · exact rest other member

/-- The map of an accepted peer is compiled faithfully exactly if all its paths begin with a slash, its
    encoding fits in a scope, and no path with permissions has a trailing slash. -/
theorem peers_faithful_iff (encodes : crates.EncodesScopes) (reads : ReadsBack D) {peers : List Peer}
    {rs : PeersRs} (accepted : main crates peers = .ok rs) :
    ∀ peer ∈ peers, ∀ aif, peer.scope = .aif aif → scopeSource crates (.aif aif) ∈ rs.scopes ∧
      (Faithful D (scopeSource crates (.aif aif)) aif ↔ Suitable crates aif) := by
  intro peer member aif given
  have kept := (foldlM_scopes accepted).2 peer member
  rw [given] at kept
  exact ⟨kept, Faithful.suitable encodes reads, Suitable.faithful encodes reads⟩

/-- Everything but the certificates of peers. -/
def shortestCrates : BuildCrates where
  encode := encoding
  kccsToCbor _ := none

theorem minicbor_readsBack : ReadsBack Clear.minicbor where
  array := Cbor.readArray_head
  entry := by
    intro text perms rest fits
    have pair : entryBytes (utf8 text, perms) ++ rest =
        Cbor.head 4 2 ++ (Cbor.text (utf8 text) ++ (Cbor.uint perms.toNat ++ rest)) := by
      simp [entryBytes, Cbor.array]
    have known : perms.toNat < 4294967296 := perms.isLt
    have number : Cbor.readHead 0 (Cbor.uint perms.toNat ++ rest) = some (perms.toNat, rest) :=
      Cbor.readHead_head (by decide) (by omega)
    change Clear.readEntry _ = _
    rw [pair, Clear.readEntry, Reader.bind_of_some (Cbor.readHead_head (by decide) (by decide)),
      if_neg (not_not.mpr rfl), Reader.bind_of_some (Cbor.readText_text fits),
      Reader.bind_of_some number, if_pos known, BitVec.ofNat_toNat, BitVec.setWidth_eq]
    rfl

def openTo (aif : List (String × Permission)) : List Peer :=
  [{ kccs := none, from_ := some .unauthenticated, scope := .aif aif }]

theorem peers_faithful_iff_sample :
    Faithful Clear.minicbor (scopeSource shortestCrates (.aif [("/a", .set [.get, .put])]))
      [("/a", .set [.get, .put])] :=
  (peers_faithful_iff (fun _ => rfl) minicbor_readsBack
    (show main shortestCrates (openTo [("/a", .set [.get, .put])]) = .ok _ from rfl) _
    List.mem_cons_self _ rfl).2.mpr
    ⟨by decide, by decide, fun entry member _ => by rw [List.mem_singleton.mp member]; decide⟩

/-- A path without its slash is accepted, and the device panics. -/
theorem relative_path_panics :
    (∃ rs, main shortestCrates (openTo [("a", .single .get)]) = .ok rs ∧
      scopeSource shortestCrates (.aif [("a", .single .get)]) ∈ rs.scopes) ∧
    (scopeSource shortestCrates (.aif [("a", .single .get)])).load Clear.minicbor =
      .error .expectFailed := by
  refine ⟨⟨_, rfl, List.mem_cons_self⟩, ?_⟩
  have refused : (parse Clear.minicbor (encoding (data [("a", .single .get)]))).isNone = true := by
    decide +kernel
  exact ScopeSource.load_parse_none (Option.isNone_iff_eq_none.mp refused)

end ArielOS.Coapcore.Peers
