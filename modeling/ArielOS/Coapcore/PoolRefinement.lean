import ArielOS.Coapcore.OrderedPoolSpec

namespace ArielOS.Coapcore

open Machine Recency

namespace OrderedPool

variable {T R : Type} {N L : Nat} [PriorityLevel T] {pool pool' : OrderedPool T N L}
  {xs A B : List T} {e e' new : T}

/-- The indices are those of the entries, and in their order the entries are the list. -/
structure Represents (pool : OrderedPool T N L) (xs : List T) : Prop where
  indices : pool.sorted.Perm (List.range pool.entries.length)
  entries : pool.sorted.map (pool.entries[·]?) = xs.map some
  ordered : Ordered level xs
  bound : pool.entries.length ≤ N

theorem Represents.sorted_length (repr : pool.Represents xs) :
    pool.sorted.length = pool.entries.length := by
  rw [repr.indices.length_eq, List.length_range]

theorem Represents.length (repr : pool.Represents xs) : xs.length = pool.entries.length := by
  have same := congrArg List.length repr.entries
  rw [List.length_map, List.length_map] at same
  rw [← same, repr.sorted_length]

theorem Represents.nodup (repr : pool.Represents xs) : pool.sorted.Nodup :=
  repr.indices.nodup_iff.mpr List.nodup_range

theorem ordered_of_entries {entries : List T} {indices : List Nat}
    (same : indices.map (entries[·]?) = xs.map some) (ordered : Ordered level xs) :
    Ordered (rankIn entries) indices := by
  have sorted : Ordered found (indices.map (entries[·]?)) := by
    rw [same]
    exact List.pairwise_map.mpr ordered
  exact (List.pairwise_map (R := fun a b => found a ≤ found b)).mp sorted

/-- The indices are put in the order that the entries get. -/
theorem place_entries {entries : List T} {indices : List Nat} {k : Nat}
    (same : indices.map (entries[·]?) = xs.map some) (here : entries[k]? = some e) :
    (place (rankIn entries) k indices).map (entries[·]?) = (place level e xs).map some := by
  have first : (place (rankIn entries) k indices).map (entries[·]?) =
      place found entries[k]? (indices.map (entries[·]?)) := place_map _ fun i => rfl
  have second : (place level e xs).map some = place found (some e) (xs.map some) :=
    place_map _ fun a => rfl
  rw [first, same, here, second]

/-- An entry that was changed is put to the front of its new level. -/
theorem Represents.update (repr : pool.Represents (A ++ e :: B)) (limit : level e' < L) :
    ∃ k, ∃ pool' : OrderedPool T N L, pool.sorted[A.length]? = some k ∧ pool.entries[k]? = some e ∧
      touch { pool with entries := pool.entries.set k e' } A.length = .ok pool' ∧
      pool'.Represents (place level e' (A ++ B)) := by
  have split := repr.entries
  rw [List.map_append, List.map_cons] at split
  obtain ⟨P, rest, sorted, front, tail⟩ := List.map_eq_append_iff.mp split
  obtain ⟨k, S, rfl, here, back⟩ := List.map_eq_cons_iff.mp tail
  have nodup := repr.nodup
  rw [sorted] at nodup
  have absent : k ∉ P ++ S := (List.nodup_middle.mp nodup).notMem
  have position : A.length = P.length := by
    have same := congrArg List.length front
    simpa using same.symm
  have inside : k < pool.entries.length := (List.getElem?_eq_some_iff.mp here).1
  have others : (P ++ S).map ((pool.entries.set k e')[·]?) = (A ++ B).map some := by
    have before : (P ++ S).map (pool.entries[·]?) = (A ++ B).map some := by
      rw [List.map_append, List.map_append, front, back]
    rw [← before]
    refine List.map_congr_left fun i member => List.getElem?_set_ne fun same => ?_
    exact absent (same ▸ member)
  have changed : (pool.entries.set k e')[k]? = some e' := List.getElem?_set_self inside
  have ordered : Ordered level (A ++ B) :=
    repr.ordered.sublist ((List.sublist_cons_self e B).append_left A)
  have rank : rankIn (pool.entries.set k e') k = level e' := by
    rw [rankIn, changed]
    rfl
  have moved := touch_ok
    (show ({ pool with entries := pool.entries.set k e' } : OrderedPool T N L).sorted = _ from sorted)
    (fun i member => by
      rw [List.length_set]
      exact List.mem_range.mp (repr.indices.mem_iff.mp member))
    (ordered_of_entries others ordered) (rank ▸ limit)
  refine ⟨k, _, by simp [sorted, position], here, position ▸ moved,
    ⟨?_, place_entries others changed, place_ordered ordered, ?_⟩⟩
  · rw [List.length_set]
    refine (place_perm.trans ?_).trans repr.indices
    rw [sorted]
    exact List.perm_middle.symm
  · rw [List.length_set]
    exact repr.bound

theorem Represents.push (repr : pool.Represents xs) (limit : level new < L)
    (capacity : N < 65535) (room : pool.entries.length < N) :
    ∃ pool', pool.push new = .ok pool' ∧ pool'.Represents (place level new xs) := by
  have bounds : ∀ i ∈ pool.sorted, i < pool.entries.length := fun i member =>
    List.mem_range.mp (repr.indices.mem_iff.mp member)
  have last : (pool.entries ++ [new])[pool.entries.length]? = some new := by simp
  have others : (pool.sorted ++ []).map ((pool.entries ++ [new])[·]?) = xs.map some := by
    rw [List.append_nil, ← repr.entries]
    exact List.map_congr_left fun i member => List.getElem?_append_left (bounds i member)
  have rank : rankIn (pool.entries ++ [new]) pool.entries.length = level new := by
    rw [rankIn, last]
    rfl
  have moved := touch_ok
    (show (⟨pool.entries ++ [new], pool.sorted ++ [pool.entries.length]⟩ : OrderedPool T N L).sorted =
      pool.sorted ++ pool.entries.length :: [] from rfl) (fun i member => by
      rw [List.length_append, List.length_singleton]
      rcases List.mem_append.mp member with member | member
      · exact Nat.lt_succ_of_lt (bounds i member)
      · rw [List.mem_singleton.mp member]
        exact Nat.lt_succ_self _)
    (ordered_of_entries others repr.ordered) (rank ▸ limit)
  rw [repr.sorted_length, List.append_nil] at moved
  rw [List.append_nil] at others
  have pushed : pool.push new =
      touch ⟨pool.entries ++ [new], pool.sorted ++ [pool.entries.length]⟩ pool.entries.length := by
    have fits : pool.entries.length < 65536 := by omega
    rw [OrderedPool.push, if_neg (not_not.mpr fits),
      if_neg (by rw [repr.sorted_length]; exact not_not.mpr room)]
  refine ⟨_, pushed.trans moved,
    ⟨?_, place_entries others last, place_ordered repr.ordered, ?_⟩⟩
  · dsimp only
    rw [List.length_append, List.length_singleton, List.range_succ]
    exact (place_perm.trans (List.perm_append_singleton _ _).symm).trans (repr.indices.append_right _)
  · dsimp only
    rw [List.length_append, List.length_singleton]
    exact room

theorem new_represents (started : OrderedPool.new = .ok pool) : pool.Represents [] := by
  unfold OrderedPool.new at started
  split at started
  · cases started
  · split at started
    · cases started
    · cases started
      exact ⟨List.Perm.refl _, rfl, List.Pairwise.nil, Nat.zero_le _⟩

omit [PriorityLevel T] in
theorem new_capacity (started : OrderedPool.new = .ok pool) : N < 65535 := by
  unfold OrderedPool.new at started
  split at started
  · cases started
  · rename_i small
    exact not_not.mp small

/-- A full pool gives the place of its last entry away. -/
theorem Represents.replaceLast (repr : pool.Represents xs) (limit : level new < L) (positive : 0 < N)
    (full : ¬ pool.entries.length < N) : ∃ index last, ∃ pool' : OrderedPool T N L,
      pool.lastSlot = .ok (index, last) ∧ xs.getLast? = some last ∧
      touch { pool with entries := pool.entries.set index new } (N - 1) = .ok pool' ∧
      pool'.Represents (place level new xs.dropLast) := by
  have length : xs.length = N := by
    rw [repr.length]
    exact Nat.le_antisymm repr.bound (Nat.le_of_not_lt full)
  obtain rfl | ⟨init, last, rfl⟩ := List.eq_nil_or_concat' xs
  · rw [← length] at positive
    cases positive
  · rw [List.length_append, List.length_singleton] at length
    have position : init.length = N - 1 := by omega
    obtain ⟨index, pool', sorted, entry, touched, repr'⟩ := repr.update limit
    refine ⟨index, last, pool', ?_, List.getLast?_concat, position ▸ touched, ?_⟩
    · have rear : pool.sorted.getLast? = some index := by
        rw [List.getLast?_eq_getElem?, repr.sorted_length, ← repr.length, List.length_append,
          List.length_singleton, Nat.add_sub_cancel, sorted]
      simp [lastSlot, rear, entryAt, entry]
    · rwa [List.dropLast_concat, ← List.append_nil init]

/-- The loop passes the entries that fail the test. -/
theorem lookupFrom_ok (fTest : T → Bool) (fUse : T → T × R) {S : List Nat} (position : Nat)
    (indices : S.map (pool.entries[·]?) = B.map some) :
    (B.find? fTest = none ∧ pool.lookupFrom fTest fUse position S = .ok (pool, none)) ∨
    ∃ front e back, B = front ++ e :: back ∧ (∀ a ∈ front, fTest a = false) ∧ fTest e = true ∧
      ∀ k, S[front.length]? = some k → pool.lookupFrom fTest fUse position S = (do
        let pool ← touch { pool with entries := pool.entries.set k (fUse e).1 }
          (position + front.length)
        return (pool, some (fUse e).2)) := by
  induction S generalizing B position with
  | nil =>
    obtain rfl := List.map_eq_nil_iff.mp indices.symm
    exact Or.inl ⟨rfl, rfl⟩
  | cons i S ih =>
    obtain ⟨e, rest, rfl, here, indices⟩ := List.map_eq_cons_iff.mp indices.symm
    have entry : pool.entryAt i = .ok e := by simp [entryAt, ← here]
    rw [lookupFrom, entry, ok_bind]
    cases test : fTest e with
    | true =>
      refine Or.inr ⟨[], e, rest, rfl, by simp, test, fun k index => ?_⟩
      obtain rfl : i = k := Option.some.inj index
      rfl
    | false =>
      rcases ih (position + 1) indices.symm with ⟨missing, ends⟩ |
        ⟨front, found, back, rfl, fail, passes, ends⟩
      · exact Or.inl ⟨by rw [List.find?_cons, test, missing], ends⟩
      · refine Or.inr ⟨e :: front, found, back, rfl, ?_, passes, fun k index => ?_⟩
        · intro a member
          rcases List.mem_cons.mp member with rfl | member
          · exact test
          · exact fail a member
        · have done := ends k index
          rw [Nat.add_assoc, Nat.add_comm 1] at done
          exact done

/-- `lookup` uses the first entry that passes the test. -/
theorem Represents.lookup (repr : pool.Represents xs) (below : ∀ a : T, level a < L)
    (fTest : T → Bool) (fUse : T → T × R) :
    ∃ pool', pool.lookup fTest fUse = .ok (pool', (use level fTest fUse xs).2) ∧
      pool'.Represents (use level fTest fUse xs).1 := by
  rcases lookupFrom_ok fTest fUse 0 repr.entries with ⟨missing, ends⟩ |
    ⟨front, e, back, rfl, fail, passes, ends⟩
  · refine ⟨pool, ?_, ?_⟩ <;> simp only [use, missing]
    · exact ends
    · exact repr
  · obtain ⟨k, pool', sorted, -, touched, repr'⟩ := repr.update (below (fUse e).1)
    have first : (front ++ e :: back).find? fTest = some e :=
      List.find?_eq_some_iff_append.mpr ⟨passes, front, back, rfl, fun a member => by
        rw [fail a member]
        rfl⟩
    have rest : (front ++ e :: back).eraseP fTest = front ++ back := by
      rw [List.eraseP_append_right _ fun a member => by simp [fail a member],
        List.eraseP_cons_of_pos passes]
    refine ⟨pool', ?_, ?_⟩ <;> simp only [use, first, rest]
    · rw [OrderedPool.lookup, ends k sorted, Nat.zero_add, touched]
      rfl
    · exact repr'

theorem Represents.insert (repr : pool.Represents xs) (below : ∀ a : T, level a < L)
    (capacity : N < 65535) (positive : 0 < N) (new : T) :
    ∃ pool', pool.insert new = .ok (pool', (Recency.insert level N new xs).2) ∧
      pool'.Represents (Recency.insert level N new xs).1 := by
  unfold OrderedPool.insert Recency.insert
  rw [repr.length]
  by_cases room : pool.entries.length < N
  · obtain ⟨pool', pushed, repr'⟩ := repr.push (below new) capacity room
    exact ⟨pool', by simp [room, pushed], by simpa [room] using repr'⟩
  · obtain ⟨index, last, pool', slot, rear, touched, repr'⟩ :=
      repr.replaceLast (below new) positive room
    simp only [room, ↓reduceIte, slot, ok_bind, rear, below new, not_true_eq_false,
      Option.mem_some_iff, forall_eq']
    by_cases le : level new ≤ level last
    · exact ⟨pool', by simp [le, touched], by simpa [le] using repr'⟩
    · exact ⟨pool, by simp [le], by simpa [le] using repr⟩

theorem Represents.forceInsert (repr : pool.Represents xs) (below : ∀ a : T, level a < L)
    (capacity : N < 65535) (positive : 0 < N) (new : T) :
    ∃ pool', pool.forceInsert new = .ok (pool', (Recency.forceInsert level N new xs).2) ∧
      pool'.Represents (Recency.forceInsert level N new xs).1 := by
  unfold OrderedPool.forceInsert Recency.forceInsert
  rw [repr.length]
  by_cases room : pool.entries.length < N
  · obtain ⟨pool', pushed, repr'⟩ := repr.push (below new) capacity room
    exact ⟨pool', by simp [room, pushed], by simpa [room] using repr'⟩
  · obtain ⟨index, last, pool', slot, rear, touched, repr'⟩ :=
      repr.replaceLast (below new) positive room
    exact ⟨pool', by simp [room, slot, touched, rear], by simpa [room] using repr'⟩

end OrderedPool

section Runs

variable {T R : Type}

inductive PoolOp (T R : Type)
  | lookup (fTest : T → Bool) (fUse : T → T × R)
  | insert (new : T)
  | forceInsert (new : T)

inductive PoolResult (T R : Type)
  | used (result : Option R)
  | inserted (evicted : Except T (Option T))
  | forced (evicted : Option T)

variable {N L : Nat} [PriorityLevel T]

def PoolOp.run (pool : OrderedPool T N L) :
    PoolOp T R → Except Panic (OrderedPool T N L × PoolResult T R)
  | .lookup fTest fUse => do
    let (pool, result) ← pool.lookup fTest fUse
    return (pool, .used result)
  | .insert new => do
    let (pool, evicted) ← pool.insert new
    return (pool, .inserted evicted)
  | .forceInsert new => do
    let (pool, evicted) ← pool.forceInsert new
    return (pool, .forced evicted)

/-- The operation on the list ordered by level and recency. -/
def PoolOp.onList (capacity : Nat) (xs : List T) : PoolOp T R → List T × PoolResult T R
  | .lookup fTest fUse =>
    let (ys, result) := use level fTest fUse xs
    (ys, .used result)
  | .insert new =>
    let (ys, evicted) := Recency.insert level capacity new xs
    (ys, .inserted evicted)
  | .forceInsert new =>
    let (ys, evicted) := Recency.forceInsert level capacity new xs
    (ys, .forced evicted)

def runOps : List (PoolOp T R) → OrderedPool T N L →
    Except Panic (OrderedPool T N L × List (PoolResult T R))
  | [], pool => return (pool, [])
  | op :: ops, pool => do
    let (pool, result) ← op.run pool
    let (pool, results) ← runOps ops pool
    return (pool, result :: results)

def listOps (capacity : Nat) : List (PoolOp T R) → List T → List T × List (PoolResult T R)
  | [], xs => (xs, [])
  | op :: ops, xs =>
    let (ys, result) := op.onList capacity xs
    let (zs, results) := listOps capacity ops ys
    (zs, result :: results)

variable {pool : OrderedPool T N L} {xs : List T}

theorem PoolOp.run_represents (repr : pool.Represents xs) (below : ∀ a : T, level a < L)
    (capacity : N < 65535) (positive : 0 < N) (op : PoolOp T R) :
    ∃ pool', op.run pool = .ok (pool', (op.onList N xs).2) ∧
      pool'.Represents (op.onList N xs).1 := by
  cases op with
  | lookup fTest fUse =>
    obtain ⟨pool', ran, repr'⟩ := repr.lookup below fTest fUse
    exact ⟨pool', by rw [PoolOp.run, ran]; rfl, repr'⟩
  | insert new =>
    obtain ⟨pool', ran, repr'⟩ := repr.insert below capacity positive new
    exact ⟨pool', by rw [PoolOp.run, ran]; rfl, repr'⟩
  | forceInsert new =>
    obtain ⟨pool', ran, repr'⟩ := repr.forceInsert below capacity positive new
    exact ⟨pool', by rw [PoolOp.run, ran]; rfl, repr'⟩

theorem runOps_represents (below : ∀ a : T, level a < L) (capacity : N < 65535) (positive : 0 < N)
    (repr : pool.Represents xs) (ops : List (PoolOp T R)) :
    ∃ pool', runOps ops pool = .ok (pool', (listOps N ops xs).2) ∧
      pool'.Represents (listOps N ops xs).1 := by
  induction ops generalizing pool xs with
  | nil => exact ⟨pool, rfl, repr⟩
  | cons op ops ih =>
    obtain ⟨next, ran, repr'⟩ := op.run_represents repr below capacity positive
    obtain ⟨last, rest, repr''⟩ := ih repr'
    refine ⟨last, ?_, repr''⟩
    simp only [runOps, ran, ok_bind, rest]
    rfl

/-- Whatever the operations, a pool is the list ordered by level and recency. -/
theorem pool_refines_list {start : OrderedPool T N L} (started : OrderedPool.new = .ok start)
    (positive : 0 < N) (below : ∀ a : T, level a < L) (ops : List (PoolOp T R)) :
    ∃ pool, runOps ops start = .ok (pool, (listOps N ops []).2) ∧
      pool.Represents (listOps N ops []).1 :=
  runOps_represents below (OrderedPool.new_capacity started) positive
    (OrderedPool.new_represents started) ops

local instance : PriorityLevel (Fin 3) := ⟨Fin.val⟩

/-- The entry of level 2 leaves a full pool, and the other one takes its level. -/
theorem pool_refines_list_sample : ∃ pool : OrderedPool (Fin 3) 2 3,
    pool.Represents [0, 2] ∧ runOps (R := Unit) [.forceInsert 2, .insert 1, .insert 0,
      .lookup (· == 1) fun _ => (2, ())] ⟨[], []⟩ =
        .ok (pool, [.forced none, .inserted (.ok none), .inserted (.ok (some 2)), .used (some ())]) := by
  have started : (OrderedPool.new : Except Panic (OrderedPool (Fin 3) 2 3)) = .ok ⟨[], []⟩ := rfl
  obtain ⟨pool, ran, repr⟩ := pool_refines_list (R := Unit) started (by decide) (fun a => a.isLt)
    [.forceInsert 2, .insert 1, .insert 0, .lookup (· == 1) fun _ => (2, ())]
  exact ⟨pool, repr, ran⟩

end Runs

end ArielOS.Coapcore
