/-
Rafka/Assignment.lean

Assignment of partitions to the members of a group
(`GroupCoordinator::assign_partitions_range` and
`GroupCoordinator::assign_partitions_roundrobin` in
`crates/broker/src/coordinator.rs`).

Range gives each position of the list of members a block of consecutive partitions;
the first `n % m` of `m` positions get one partition more.  The block is *inserted*
under the id, so that an id that occurs again loses the block it had.  Round robin
goes through the partitions and *pushes* each one to the id whose turn it is.

The number of partitions is an `i32` that nobody checks.  Cast to `usize`, a negative
number becomes a huge one, for which Range pushes until its counter overflows.
Machine arithmetic is checked: there the call panics (`none`).

Main results: for distinct members both cover the partitions exactly and evenly, and
Range in blocks (`cover_exact_and_balanced`); for arbitrary arguments both return and
assign the same partitions exactly if the number is not negative, and no id that gets
a block occurs again (`strategies_agree_iff`).
-/
import Mathlib.Data.Int.CardIntervalMod
import Rafka.Coordinator

namespace Rafka

/-- A cast of an `i32` to `usize`: the sign is extended. -/
def asUsize (n : Int32) : Nat := n.toInt64.toUInt64.toNat

namespace GroupCoordinator

/-! ### The two strategies -/

/-- Members and their partitions. -/
abbrev Assignments := HashMap String (List Int32)

/-- The inner loop of Range: `count` partitions are pushed, from `partitionIdx` on.  The
counter panics when it overflows. -/
def pushBlock : Nat → Int32 → Option (List Int32 × Int32)
  | 0, partitionIdx => some ([], partitionIdx)
  | count + 1, partitionIdx =>
      if partitionIdx = Int32.maxValue then none
      else
        (pushBlock count (partitionIdx + 1)).map fun rest =>
          (partitionIdx :: rest.1, rest.2)

/-- One turn of the loop of Range, over a member and its position. -/
def rangeTurn (partitionsPerMember extraPartitions : Nat) (s : Assignments × Int32)
    (entry : String × Nat) : Option (Assignments × Int32) :=
  let numPartitionsForMember :=
    if entry.2 < extraPartitions then partitionsPerMember + 1 else partitionsPerMember
  (pushBlock numPartitionsForMember s.2).map fun block =>
    (s.1.insert entry.1 block.1, block.2)

/-- `GroupCoordinator::assign_partitions_range`. -/
def assignPartitionsRange (memberIds : List String) (numPartitions : Int32) :
    Option Assignments :=
  if memberIds = [] ∨ numPartitions = 0 then some ∅
  else
    let partitionsPerMember := asUsize numPartitions / memberIds.length
    let extraPartitions := asUsize numPartitions % memberIds.length
    (memberIds.zipIdx.foldlM (rangeTurn partitionsPerMember extraPartitions) (∅, 0)).map Prod.fst

/-- One turn of the loop of round robin; the index and the `unwrap` may panic. -/
def roundrobinTurn (memberIds : List String) (assignments : Assignments) (partitionId : Int32) :
    Option Assignments := do
  let memberId ← memberIds[asUsize partitionId % memberIds.length]?
  let partitions ← assignments.lookup memberId
  some (assignments.insert memberId (partitions ++ [partitionId]))

/-- `GroupCoordinator::assign_partitions_roundrobin`. -/
def assignPartitionsRoundrobin (memberIds : List String) (numPartitions : Int32) :
    Option Assignments :=
  if memberIds = [] ∨ numPartitions = 0 then some ∅
  else
    let assignments : Assignments :=
      memberIds.foldl (fun assignments memberId => assignments.insert memberId []) ∅
    ((List.range numPartitions.toInt.toNat).map Int32.ofNat).foldlM (roundrobinTurn memberIds)
      assignments

/-! ### What is to hold -/

/-- The partitions of a member. -/
def assigned (a : Assignments) (id : String) : List Int32 := (a.lookup id).getD []

/-- The partitions `0 .. n - 1` are covered without gap or overlap, and shared evenly by
position. -/
structure Balanced (memberIds : List String) (n : Int32) (a : Assignments) : Prop where
  /-- Every partition goes to one member. -/
  cover : ∀ p, 0 ≤ p → p < n → ∃! id, p ∈ assigned a id
  /-- There are no others. -/
  inside : ∀ id p, p ∈ assigned a id → 0 ≤ p ∧ p < n ∧ id ∈ memberIds
  share : ∀ (i : Nat) id, memberIds[i]? = some id →
    (assigned a id).length = n.toInt.toNat / memberIds.length +
      if i < n.toInt.toNat % memberIds.length then 1 else 0
  increasing : ∀ id, (assigned a id).Pairwise (· < ·)

/-- Each partition is the successor of the one before it. -/
def Contiguous (l : List Int32) : Prop :=
  ∀ (k : Nat) p q, l[k]? = some p → l[k + 1]? = some q → q.toInt = p.toInt + 1

/-- The partitions `0 .. n - 1` are assigned, each one once, and no others; none at all if
there are no members. -/
structure Assigns (memberIds : List String) (n : Int32) (a : Assignments) : Prop where
  once : memberIds ≠ [] → ∀ p, 0 ≤ p → p < n →
    ∃ id, (assigned a id).count p = 1 ∧ ∀ id', id' ≠ id → p ∉ assigned a id'
  nothing : ∀ p, ¬ (memberIds ≠ [] ∧ 0 ≤ p ∧ p < n) → ∀ id, p ∉ assigned a id

/-! ### Numbers -/

theorem toInt_eq_asUsize (n : Int32) :
    n.toInt = if 2 * asUsize n < 2 ^ 64 then (asUsize n : Int) else asUsize n - 2 ^ 64 := by
  rw [← Int32.toInt_toInt64]
  exact BitVec.toInt_eq_toNat_cond n.toInt64.toBitVec

theorem asUsize_of_nonneg {n : Int32} (h : 0 ≤ n.toInt) : asUsize n = n.toInt.toNat := by
  have hlt : asUsize n < 2 ^ 64 := n.toInt64.toUInt64.toNat_lt
  have hcond := toInt_eq_asUsize n
  split at hcond <;> omega

/-- A negative number becomes a huge one. -/
theorem asUsize_of_neg {n : Int32} (h : n.toInt < 0) : 2 ^ 63 ≤ asUsize n := by
  have hcond := toInt_eq_asUsize n
  split at hcond <;> omega

/-- The partitions are the numbers below `n`. -/
theorem exists_ofNat {n p : Int32} : 0 ≤ p ∧ p < n ↔ ∃ k < n.toInt.toNat, p = Int32.ofNat k := by
  have hlt := n.toInt_lt
  have hzero : (0 : Int32).toInt = 0 := rfl
  rw [Int32.le_iff_toInt_le, Int32.lt_iff_toInt_lt, hzero]
  constructor
  · rintro ⟨hpos, hless⟩
    refine ⟨p.toInt.toNat, by omega, Int32.toInt.inj ?_⟩
    rw [Int32.toInt_ofNat_of_lt (by omega)]
    omega
  · rintro ⟨k, hk, rfl⟩
    rw [Int32.toInt_ofNat_of_lt (by omega)]
    omega

theorem ofNat_inj {j k : Nat} (hj : j < 2 ^ 31) (hk : k < 2 ^ 31) :
    Int32.ofNat j = Int32.ofNat k ↔ j = k := by
  constructor
  · intro h
    have hint := congrArg Int32.toInt h
    rw [Int32.toInt_ofNat_of_lt hj, Int32.toInt_ofNat_of_lt hk] at hint
    omega
  · intro h
    rw [h]

/-! ### Blocks -/

variable {N m i k : Nat}

/-- How many of `N` partitions position `i` of `m` gets. -/
def share (N m i : Nat) : Nat := N / m + if i < N % m then 1 else 0

/-- The first partition of position `i`. -/
def blockStart (N m i : Nat) : Nat := i * (N / m) + min i (N % m)

/-- The partitions of position `i`. -/
def block (N m i : Nat) : List Int32 :=
  (List.range' (blockStart N m i) (share N m i)).map Int32.ofNat

/-- The share, as the source counts it. -/
theorem ite_eq_share (N m i : Nat) :
    (if i < N % m then N / m + 1 else N / m) = share N m i := by
  unfold share
  split <;> rfl

theorem blockStart_succ (N m i : Nat) :
    blockStart N m (i + 1) = blockStart N m i + share N m i := by
  have hmin : min (i + 1) (N % m) = min i (N % m) + if i < N % m then 1 else 0 := by
    split <;> omega
  rw [blockStart, blockStart, share, Nat.succ_mul, hmin]
  omega

/-- The last block ends with the last partition. -/
theorem blockStart_length (hm : 0 < m) : blockStart N m m = N := by
  have hmod := Nat.mod_lt N hm
  rw [blockStart, Nat.min_eq_right (Nat.le_of_lt hmod)]
  exact Nat.div_add_mod N m

theorem blockStart_mono {i j : Nat} (h : i ≤ j) : blockStart N m i ≤ blockStart N m j := by
  induction h with
  | refl => exact Nat.le_refl _
  | step h ih =>
      rw [blockStart_succ]
      omega

theorem mem_block {p : Int32} :
    p ∈ block N m i ↔
      ∃ k, blockStart N m i ≤ k ∧ k < blockStart N m (i + 1) ∧ p = Int32.ofNat k := by
  simp only [block, List.mem_map, List.mem_range'_1, blockStart_succ]
  constructor
  · rintro ⟨k, ⟨hle, hlt⟩, rfl⟩
    exact ⟨k, hle, hlt, rfl⟩
  · rintro ⟨k, hle, hlt, rfl⟩
    exact ⟨k, ⟨hle, hlt⟩, rfl⟩

/-- Every partition is in the block of some position. -/
theorem exists_block (hm : 0 < m) (hk : k < N) :
    ∃ i < m, blockStart N m i ≤ k ∧ k < blockStart N m (i + 1) := by
  have hlast : k < blockStart N m m := (blockStart_length hm).symm ▸ hk
  -- the first position whose block ends after the partition
  have hex : ∃ i, k < blockStart N m (i + 1) := by
    refine ⟨m - 1, ?_⟩
    rwa [Nat.sub_add_cancel hm]
  refine ⟨Nat.find hex, ?_, ?_, Nat.find_spec hex⟩
  · refine Nat.lt_of_le_of_lt (Nat.find_min' hex ?_) (Nat.sub_lt hm Nat.one_pos)
    rwa [Nat.sub_add_cancel hm]
  · cases hfirst : Nat.find hex with
    | zero => simp [blockStart]
    | succ i =>
        have hbefore := Nat.find_min hex (m := i) (by omega)
        exact Nat.le_of_not_lt hbefore

/-- And of one only. -/
theorem block_unique {j : Nat} (hi : blockStart N m i ≤ k ∧ k < blockStart N m (i + 1))
    (hj : blockStart N m j ≤ k ∧ k < blockStart N m (j + 1)) : i = j := by
  rcases Nat.lt_trichotomy i j with hlt | heq | hgt
  · have hmono := blockStart_mono (N := N) (m := m) (show i + 1 ≤ j from hlt)
    omega
  · exact heq
  · have hmono := blockStart_mono (N := N) (m := m) (show j + 1 ≤ i from hgt)
    omega

/-- A position has a block exactly if there is a partition for it. -/
theorem share_pos_iff (hi : i < m) : 0 < share N m i ↔ i < N := by
  unfold share
  by_cases hmany : m ≤ N
  · have hdiv : 0 < N / m := Nat.div_pos hmany (by omega)
    exact iff_of_true (by omega) (by omega)
  · rw [Nat.div_eq_of_lt (by omega), Nat.mod_eq_of_lt (by omega)]
    split <;> omega

/-! ### Range -/

theorem pushBlock_ofNat {count start : Nat} (h : start + count < 2 ^ 31) :
    pushBlock count (Int32.ofNat start) =
      some ((List.range' start count).map Int32.ofNat, Int32.ofNat (start + count)) := by
  induction count generalizing start with
  | zero => rfl
  | succ count ih =>
      have hmax : Int32.ofNat start ≠ Int32.maxValue := by
        intro heq
        have hint := congrArg Int32.toInt heq
        rw [Int32.toInt_ofNat_of_lt (by omega)] at hint
        have hvalue : Int32.maxValue.toInt = 2 ^ 31 - 1 := rfl
        omega
      have hnext : Int32.ofNat start + 1 = Int32.ofNat (start + 1) := by
        apply Int32.toInt.inj
        rw [GroupMetadata.toInt_succ hmax, Int32.toInt_ofNat_of_lt (by omega),
          Int32.toInt_ofNat_of_lt (by omega)]
        push_cast
        rfl
      rw [pushBlock, if_neg hmax, hnext, ih (by omega), List.range'_succ, List.map_cons]
      simp only [Option.map_some, Nat.add_assoc, Nat.add_comm 1]

/-- What is pushed is counted. -/
theorem toInt_of_pushBlock {count : Nat} {idx idx' : Int32} {l : List Int32}
    (h : pushBlock count idx = some (l, idx')) : idx'.toInt = idx.toInt + count := by
  induction count generalizing idx l with
  | zero =>
      cases h
      simp
  | succ count ih =>
      rw [pushBlock] at h
      split at h
      · cases h
      · rename_i hmax
        obtain ⟨⟨rest, last⟩, hrest, heq⟩ := Option.map_eq_some_iff.mp h
        cases heq
        rw [ih hrest, GroupMetadata.toInt_succ hmax]
        push_cast
        omega

/-- The blocks, inserted position by position. -/
def rangeTable (N m : Nat) (entries : List (String × Nat)) (a : Assignments) : Assignments :=
  entries.foldl (fun a entry => a.insert entry.1 (block N m entry.2)) a

/-- The loop of Range inserts the blocks, as long as the counter has room. -/
theorem foldlM_rangeTurn (ids : List String) (k : Nat) (a : Assignments)
    (h : blockStart N m (k + ids.length) < 2 ^ 31) :
    (ids.zipIdx k).foldlM (rangeTurn (N / m) (N % m)) (a, Int32.ofNat (blockStart N m k)) =
      some (rangeTable N m (ids.zipIdx k) a,
        Int32.ofNat (blockStart N m (k + ids.length))) := by
  induction ids generalizing k a with
  | nil => rfl
  | cons id ids ih =>
      have hlength : k + (id :: ids).length = k + 1 + ids.length := by
        rw [List.length_cons]
        omega
      rw [hlength] at h ⊢
      have hroom := blockStart_mono (N := N) (m := m) (Nat.le_add_right (k + 1) ids.length)
      rw [blockStart_succ] at hroom
      have hturn : rangeTurn (N / m) (N % m) (a, Int32.ofNat (blockStart N m k)) (id, k) =
          some (a.insert id (block N m k), Int32.ofNat (blockStart N m (k + 1))) := by
        simp only [rangeTurn, ite_eq_share, pushBlock_ofNat (Nat.lt_of_le_of_lt hroom h),
          Option.map_some, blockStart_succ]
        rfl
      rw [List.zipIdx_cons, List.foldlM_cons, hturn]
      exact ih (k + 1) _ h

/-- A loop of Range that returns has counted all that it was to push. -/
theorem toInt_of_foldlM_rangeTurn {ids : List String} {k : Nat} {a a' : Assignments}
    {idx idx' : Int32}
    (h : (ids.zipIdx k).foldlM (rangeTurn (N / m) (N % m)) (a, idx) = some (a', idx')) :
    idx'.toInt + blockStart N m k = idx.toInt + blockStart N m (k + ids.length) := by
  induction ids generalizing k a idx with
  | nil =>
      cases h
      rfl
  | cons id ids ih =>
      rw [List.zipIdx_cons, List.foldlM_cons] at h
      obtain ⟨⟨a₁, idx₁⟩, hturn, hrest⟩ := Option.bind_eq_some_iff.mp h
      obtain ⟨⟨l, idx₂⟩, hpush, heq⟩ := Option.map_eq_some_iff.mp hturn
      cases heq
      have hpushed := toInt_of_pushBlock hpush
      simp only [ite_eq_share] at hpushed
      have hnext := ih hrest
      have hlength : k + 1 + ids.length = k + (id :: ids).length := by
        rw [List.length_cons]
        omega
      rw [hlength, blockStart_succ] at hnext
      push_cast at hnext
      omega

/-- **Range returns if the number is not negative.** -/
theorem range_of_nonneg {ids : List String} {n : Int32} (hids : ids ≠ []) (hn : n ≠ 0)
    (hpos : 0 ≤ n.toInt) :
    assignPartitionsRange ids n =
      some (rangeTable n.toInt.toNat ids.length ids.zipIdx ∅) := by
  have hlt := n.toInt_lt
  have hm : 0 < ids.length := List.length_pos_iff.mpr hids
  have hloop := foldlM_rangeTurn (N := n.toInt.toNat) (m := ids.length) ids 0 ∅
    (by rw [Nat.zero_add, blockStart_length hm]; omega)
  have hstart : Int32.ofNat (blockStart n.toInt.toNat ids.length 0) = 0 := by
    simp [blockStart]
  rw [hstart] at hloop
  rw [assignPartitionsRange, if_neg (by simp [hids, hn])]
  simp only [asUsize_of_nonneg hpos]
  rw [hloop]
  rfl

/-- **Range does not return if it is.** -/
theorem range_of_neg {ids : List String} {n : Int32} (hids : ids ≠ []) (hneg : n.toInt < 0) :
    assignPartitionsRange ids n = none := by
  have hn : n ≠ 0 := by
    rintro rfl
    exact absurd hneg (by decide)
  have hm : 0 < ids.length := List.length_pos_iff.mpr hids
  rw [assignPartitionsRange, if_neg (by simp [hids, hn])]
  dsimp only
  cases hloop : ids.zipIdx.foldlM (rangeTurn (asUsize n / ids.length) (asUsize n % ids.length))
      (∅, 0) with
  | none => rfl
  | some result =>
      -- the counter would have to hold all the partitions
      obtain ⟨a, idx⟩ := result
      have hcounted := toInt_of_foldlM_rangeTurn hloop
      rw [Nat.zero_add, blockStart_length hm] at hcounted
      have hstart : blockStart (asUsize n) ids.length 0 = 0 := by simp [blockStart]
      have hzero : (0 : Int32).toInt = 0 := rfl
      rw [hstart, hzero] at hcounted
      have hhuge := asUsize_of_neg hneg
      have hlt := idx.toInt_lt
      omega

theorem rangeTable_concat (N m : Nat) (ids : List String) (id : String) :
    rangeTable N m (ids ++ [id]).zipIdx ∅ =
      (rangeTable N m ids.zipIdx ∅).insert id (block N m ids.length) := by
  rw [rangeTable, rangeTable, List.zipIdx_append, List.foldl_append]
  simp

/-- A member has the block of its last position. -/
theorem assigned_rangeTable (N m : Nat) (ids : List String) (id : String) :
    (id ∉ ids ∧ assigned (rangeTable N m ids.zipIdx ∅) id = []) ∨
      ∃ i, ids[i]? = some id ∧ (∀ j, i < j → ids[j]? ≠ some id) ∧
        assigned (rangeTable N m ids.zipIdx ∅) id = block N m i := by
  induction ids using List.reverseRecOn with
  | nil => exact .inl ⟨List.not_mem_nil, rfl⟩
  | append_singleton ids last ih =>
      have hassigned : assigned (rangeTable N m (ids ++ [last]).zipIdx ∅) id =
          if id = last then block N m ids.length
          else assigned (rangeTable N m ids.zipIdx ∅) id := by
        rw [rangeTable_concat, assigned, HashMap.lookup_insert_eq]
        split
        · rfl
        · rfl
      rw [hassigned]
      by_cases hid : id = last
      · subst hid
        rw [if_pos rfl]
        refine .inr ⟨ids.length, List.getElem?_concat_length, fun j hj => ?_, rfl⟩
        rw [List.getElem?_eq_none (by simp; omega)]
        exact (Option.some_ne_none _).symm
      · rw [if_neg hid]
        rcases ih with ⟨hmissing, hnone⟩ | ⟨i, hi, hlater, hblock⟩
        · refine .inl ⟨?_, hnone⟩
          rw [List.mem_append, List.mem_singleton]
          exact not_or.mpr ⟨hmissing, hid⟩
        · have hlt := (List.getElem?_eq_some_iff.mp hi).1
          refine .inr ⟨i, (List.getElem?_append_left hlt).trans hi, fun j hj => ?_, hblock⟩
          intro hsome
          rcases getElem?_concat_cases hsome with hold | ⟨-, heq⟩
          · exact hlater j hj hold
          · exact hid heq

/-! ### Round robin -/

/-- The partitions below `k` at which it is the member's turn. -/
def turns (ids : List String) (k : Nat) (id : String) : List Int32 :=
  ((List.range k).filter fun p => ids[p % ids.length]? = some id).map Int32.ofNat

theorem turns_succ (ids : List String) (k : Nat) (id : String) :
    turns ids (k + 1) id =
      turns ids k id ++ if ids[k % ids.length]? = some id then [Int32.ofNat k] else [] := by
  rw [turns, List.range_succ, List.filter_append, List.map_append, turns]
  by_cases hturn : ids[k % ids.length]? = some id
  · simp [hturn]
  · simp [hturn]

/-- Every member starts with no partitions. -/
theorem lookup_foldl_insert_nil (ids : List String) (a : Assignments) (id : String) :
    (ids.foldl (fun assignments memberId => assignments.insert memberId []) a).lookup id =
      if id ∈ ids then some [] else a.lookup id := by
  induction ids generalizing a with
  | nil => rw [List.foldl_nil, if_neg List.not_mem_nil]
  | cons first ids ih =>
      rw [List.foldl_cons, ih, HashMap.lookup_insert_eq]
      by_cases hrest : id ∈ ids
      · rw [if_pos hrest, if_pos (List.mem_cons_of_mem _ hrest)]
      · by_cases hfirst : id = first
        · rw [if_neg hrest, if_pos hfirst, if_pos (hfirst ▸ List.mem_cons_self)]
        · rw [if_neg hrest, if_neg hfirst, if_neg (by simp [hrest, hfirst])]

/-- **Step lemma.**  A turn gives the partition to the member whose turn it is. -/
theorem roundrobinTurn_turns {ids : List String} (hids : ids ≠ []) {k : Nat} (hk : k < 2 ^ 31)
    {a : Assignments}
    (ha : ∀ id, a.lookup id = if id ∈ ids then some (turns ids k id) else none) :
    ∃ a', roundrobinTurn ids a (Int32.ofNat k) = some a' ∧
      ∀ id, a'.lookup id = if id ∈ ids then some (turns ids (k + 1) id) else none := by
  have hm : 0 < ids.length := List.length_pos_iff.mpr hids
  have hcast : asUsize (Int32.ofNat k) = k := by
    rw [asUsize_of_nonneg] <;> rw [Int32.toInt_ofNat_of_lt hk] <;> omega
  obtain ⟨id₀, hturn⟩ : ∃ id₀, ids[k % ids.length]? = some id₀ :=
    ⟨_, List.getElem?_eq_getElem (Nat.mod_lt k hm)⟩
  have hmem : id₀ ∈ ids := List.mem_of_getElem? hturn
  refine ⟨a.insert id₀ (turns ids k id₀ ++ [Int32.ofNat k]), ?_, fun id => ?_⟩
  · simp only [roundrobinTurn, hcast, hturn, ha, if_pos hmem, Option.bind_eq_bind,
      Option.bind_some]
  · rw [HashMap.lookup_insert_eq, turns_succ, hturn, ha]
    by_cases hid : id = id₀
    · subst hid
      rw [if_pos rfl, if_pos hmem, if_pos rfl]
    · rw [if_neg hid, if_neg (fun h => hid (Option.some.inj h).symm), List.append_nil]

/-- **Run lemma.**  The loop of round robin gives each member its turns. -/
theorem foldlM_roundrobinTurn {ids : List String} (hids : ids ≠ []) {k : Nat} (hk : k ≤ 2 ^ 31)
    {a : Assignments} (ha : ∀ id, a.lookup id = if id ∈ ids then some [] else none) :
    ∃ a', ((List.range k).map Int32.ofNat).foldlM (roundrobinTurn ids) a = some a' ∧
      ∀ id, a'.lookup id = if id ∈ ids then some (turns ids k id) else none := by
  induction k with
  | zero => exact ⟨a, rfl, ha⟩
  | succ k ih =>
      obtain ⟨a₁, hrun, hlookup⟩ := ih (by omega)
      obtain ⟨a₂, hturn, hlookup'⟩ := roundrobinTurn_turns hids (by omega) hlookup
      refine ⟨a₂, ?_, hlookup'⟩
      rw [List.range_succ, List.map_append, List.foldlM_append, hrun]
      simpa using hturn

/-- **Round robin always returns.** -/
theorem roundrobin_returns (ids : List String) (n : Int32) :
    ∃ rr, assignPartitionsRoundrobin ids n = some rr ∧
      ∀ id, assigned rr id = turns ids n.toInt.toNat id := by
  have hlt := n.toInt_lt
  by_cases hempty : ids = [] ∨ n = 0
  · refine ⟨∅, if_pos hempty, fun id => ?_⟩
    rcases hempty with rfl | rfl
    · simp [turns, assigned]
    · rfl
  · obtain ⟨rr, hrun, hlookup⟩ := foldlM_roundrobinTurn (fun h => hempty (.inl h))
      (show n.toInt.toNat ≤ 2 ^ 31 by omega)
      (fun id => by rw [lookup_foldl_insert_nil ids, Finmap.lookup_empty])
    refine ⟨rr, (if_neg hempty).trans hrun, fun id => ?_⟩
    rw [assigned, hlookup]
    by_cases hmem : id ∈ ids
    · rw [if_pos hmem]
      rfl
    · rw [if_neg hmem]
      refine (List.map_eq_nil_iff.mpr (List.filter_eq_nil_iff.mpr fun p _ hp => ?_)).symm
      exact hmem (List.mem_of_getElem? (of_decide_eq_true hp))

theorem mem_turns {ids : List String} {k : Nat} {id : String} {p : Int32} :
    p ∈ turns ids k id ↔ ∃ j < k, ids[j % ids.length]? = some id ∧ p = Int32.ofNat j := by
  simp only [turns, List.mem_map, List.mem_filter, List.mem_range, decide_eq_true_eq]
  constructor
  · rintro ⟨j, ⟨hj, hturn⟩, rfl⟩
    exact ⟨j, hj, hturn, rfl⟩
  · rintro ⟨j, hj, hturn, rfl⟩
    exact ⟨j, ⟨hj, hturn⟩, rfl⟩

/-! ### Order and number -/

theorem pairwise_map_ofNat {l : List Nat} (h : l.Pairwise (· < ·)) (hl : ∀ k ∈ l, k < 2 ^ 31) :
    (l.map Int32.ofNat).Pairwise (· < ·) := by
  refine List.pairwise_map.mpr (h.imp_of_mem fun hj hk hlt => ?_)
  rw [Int32.lt_iff_toInt_lt, Int32.toInt_ofNat_of_lt (hl _ hj), Int32.toInt_ofNat_of_lt (hl _ hk)]
  omega

theorem pairwise_turns (ids : List String) {k : Nat} (hk : k ≤ 2 ^ 31) (id : String) :
    (turns ids k id).Pairwise (· < ·) := by
  apply pairwise_map_ofNat (List.pairwise_lt_range.filter _)
  intro j hj
  have hlt := List.mem_range.mp (List.mem_of_mem_filter hj)
  omega

theorem blockStart_le (hi : i ≤ m) : blockStart N m i ≤ N := by
  rcases Nat.eq_zero_or_pos m with rfl | hm
  · simp [blockStart, Nat.le_zero.mp hi]
  · exact (blockStart_mono hi).trans (Nat.le_of_eq (blockStart_length hm))

theorem pairwise_block (hN : N ≤ 2 ^ 31) (hi : i < m) : (block N m i).Pairwise (· < ·) := by
  apply pairwise_map_ofNat (List.pairwise_lt_range' 1)
  intro k hk
  have hlast := blockStart_le (N := N) (show i + 1 ≤ m from hi)
  rw [blockStart_succ] at hlast
  have hlt := (List.mem_range'_1.mp hk).2
  omega

theorem count_of_pairwise {l : List Int32} (h : l.Pairwise (· < ·)) {p : Int32} (hp : p ∈ l) :
    l.count p = 1 := by
  refine List.count_eq_one_of_mem (h.imp fun hlt heq => ?_) hp
  exact Int32.lt_irrefl (heq ▸ hlt)

theorem contiguous_block (hN : N ≤ 2 ^ 31) (hi : i < m) : Contiguous (block N m i) := by
  intro k p q hp hq
  have hlast := blockStart_le (N := N) (show i + 1 ≤ m from hi)
  rw [blockStart_succ] at hlast
  have hlength : k + 1 < share N m i := by
    have hlt := (List.getElem?_eq_some_iff.mp hq).1
    rwa [block, List.length_map, List.length_range'] at hlt
  rw [block, List.getElem?_map, List.getElem?_range' (by omega)] at hp hq
  cases hp
  cases hq
  rw [Int32.toInt_ofNat_of_lt (by omega), Int32.toInt_ofNat_of_lt (by omega)]
  push_cast
  omega

/-- Of distinct members, the one at position `i` has a turn every `m` partitions. -/
theorem length_turns {ids : List String} (hnodup : ids.Nodup) {i : Nat} {id : String}
    (hi : ids[i]? = some id) (k : Nat) :
    (turns ids k id).length = share k ids.length i := by
  have hlt := (List.getElem?_eq_some_iff.mp hi).1
  have hturn : ∀ p, ids[p % ids.length]? = some id ↔ p ≡ i [MOD ids.length] := by
    intro p
    have hp : p % ids.length < ids.length := Nat.mod_lt p (by omega)
    rw [Nat.ModEq, Nat.mod_eq_of_lt hlt, ← hi]
    constructor
    · intro heq
      exact (List.getElem?_inj hp hnodup).mp heq
    · intro heq
      rw [heq]
  have hcount := Nat.count_modEq_card k (show 0 < ids.length by omega) i
  rw [Nat.mod_eq_of_lt hlt] at hcount
  rw [turns, List.length_map, ← List.countP_eq_length_filter, share, ← hcount, Nat.count]
  exact congrArg (fun f => (List.range k).countP f) (funext fun p => by simp only [hturn])

/-! ### The two tables -/

/-- Every member has the block of its last position. -/
def HasBlocks (ids : List String) (N : Nat) (a : Assignments) : Prop :=
  ∀ id, (id ∉ ids ∧ assigned a id = []) ∨
    ∃ i, ids[i]? = some id ∧ (∀ j, i < j → ids[j]? ≠ some id) ∧
      assigned a id = block N ids.length i

/-- **What Range returns.** -/
theorem range_returns (ids : List String) {n : Int32} (hpos : 0 ≤ n.toInt) :
    ∃ r, assignPartitionsRange ids n = some r ∧ HasBlocks ids n.toInt.toNat r := by
  by_cases hids : ids = []
  · exact ⟨∅, if_pos (.inl hids), fun id => .inl ⟨hids ▸ List.not_mem_nil, rfl⟩⟩
  by_cases hn : n = 0
  · -- nothing is inserted, and the blocks would be empty
    refine ⟨∅, if_pos (.inr hn), fun id => ?_⟩
    have hblock : ∀ i, block n.toInt.toNat ids.length i = [] := by
      intro i
      subst hn
      show block 0 _ i = []
      simp [block, share]
    rcases assigned_rangeTable 0 0 ids id with ⟨hmissing, -⟩ | ⟨i, hi, hlater, -⟩
    · exact .inl ⟨hmissing, rfl⟩
    · exact .inr ⟨i, hi, hlater, (hblock i).symm⟩
  · exact ⟨_, range_of_nonneg hids hn hpos, assigned_rangeTable _ _ ids⟩

theorem mem_roundrobin {ids : List String} {n : Int32} {rr : Assignments}
    (hrr : ∀ id, assigned rr id = turns ids n.toInt.toNat id) {k : Nat}
    (hk : k < n.toInt.toNat) (id : String) :
    Int32.ofNat k ∈ assigned rr id ↔ ids[k % ids.length]? = some id := by
  have hlt := n.toInt_lt
  rw [hrr, mem_turns]
  constructor
  · rintro ⟨j, hj, hturn, heq⟩
    rwa [(ofNat_inj (by omega) (by omega)).mp heq]
  · intro hturn
    exact ⟨k, hk, hturn, rfl⟩

theorem mem_range {ids : List String} {n : Int32} {r : Assignments}
    (hr : HasBlocks ids n.toInt.toNat r) {k : Nat} (hk : k < n.toInt.toNat) (id : String) :
    Int32.ofNat k ∈ assigned r id ↔
      ∃ i, ids[i]? = some id ∧ (∀ j, i < j → ids[j]? ≠ some id) ∧
        blockStart n.toInt.toNat ids.length i ≤ k ∧
        k < blockStart n.toInt.toNat ids.length (i + 1) := by
  have hlt := n.toInt_lt
  -- within the partitions, the number says which block it is in
  have hmem : ∀ i < ids.length, Int32.ofNat k ∈ block n.toInt.toNat ids.length i ↔
      blockStart n.toInt.toNat ids.length i ≤ k ∧
        k < blockStart n.toInt.toNat ids.length (i + 1) := by
    intro i hi
    rw [mem_block]
    constructor
    · rintro ⟨j, hle, hend, heq⟩
      have hlast := blockStart_le (N := n.toInt.toNat) (show i + 1 ≤ ids.length from hi)
      rw [(ofNat_inj (by omega) (by omega)).mp heq]
      exact ⟨hle, hend⟩
    · rintro ⟨hle, hend⟩
      exact ⟨k, hle, hend, rfl⟩
  rcases hr id with ⟨hmissing, hnone⟩ | ⟨i, hi, hlater, hblock⟩
  · rw [hnone]
    apply iff_of_false List.not_mem_nil
    rintro ⟨i, hi, -⟩
    exact hmissing (List.mem_of_getElem? hi)
  · rw [hblock, hmem i (List.getElem?_eq_some_iff.mp hi).1]
    constructor
    · intro hin
      exact ⟨i, hi, hlater, hin⟩
    · rintro ⟨j, hj, hlater', hin⟩
      -- a member has one last position
      have hij : i = j := by
        rcases Nat.lt_trichotomy i j with hless | heq | hgreater
        · exact absurd hj (hlater j hless)
        · exact heq
        · exact absurd hi (hlater' i hgreater)
      rwa [hij]

/-- The owner of a partition, under round robin. -/
theorem roundrobin_owner {ids : List String} {n : Int32} {rr : Assignments}
    (hrr : ∀ id, assigned rr id = turns ids n.toInt.toNat id) {k : Nat}
    (hk : k < n.toInt.toNat) (hturn : k % ids.length < ids.length) (id : String) :
    Int32.ofNat k ∈ assigned rr id ↔ id = ids[k % ids.length] := by
  rw [mem_roundrobin hrr hk, List.getElem?_eq_getElem hturn, Option.some_inj, eq_comm]

/-- The owner of a partition, under Range: whoever is at the position of its block, if that
position is the last one of its id. -/
theorem range_owner {ids : List String} {n : Int32} {r : Assignments}
    (hr : HasBlocks ids n.toInt.toNat r) {k i : Nat} (hk : k < n.toInt.toNat)
    (hi : i < ids.length) (hlast : ∀ j, i < j → ids[j]? ≠ some ids[i])
    (hin : blockStart n.toInt.toNat ids.length i ≤ k ∧
      k < blockStart n.toInt.toNat ids.length (i + 1)) (id : String) :
    Int32.ofNat k ∈ assigned r id ↔ id = ids[i] := by
  have hget := List.getElem?_eq_getElem hi
  rw [mem_range hr hk]
  constructor
  · rintro ⟨j, hj, -, hin'⟩
    rw [block_unique hin' hin] at hj
    exact Option.some.inj (hj.symm.trans hget)
  · rintro rfl
    exact ⟨i, hget, hlast, hin⟩

theorem nonneg_of_mem_roundrobin {ids : List String} {n : Int32} {rr : Assignments}
    (hrr : ∀ id, assigned rr id = turns ids n.toInt.toNat id) {id : String} {p : Int32}
    (hp : p ∈ assigned rr id) : 0 ≤ p ∧ p < n ∧ id ∈ ids := by
  rw [hrr, mem_turns] at hp
  obtain ⟨k, hk, hturn, rfl⟩ := hp
  obtain ⟨hpos, hless⟩ := exists_ofNat.mpr ⟨k, hk, rfl⟩
  exact ⟨hpos, hless, List.mem_of_getElem? hturn⟩

theorem nonneg_of_mem_range {ids : List String} {n : Int32} {r : Assignments}
    (hr : HasBlocks ids n.toInt.toNat r) {id : String} {p : Int32} (hp : p ∈ assigned r id) :
    0 ≤ p ∧ p < n ∧ id ∈ ids := by
  rcases hr id with ⟨-, hnone⟩ | ⟨i, hi, -, hblock⟩
  · rw [hnone] at hp
    exact absurd hp List.not_mem_nil
  · rw [hblock, mem_block] at hp
    obtain ⟨k, -, hend, rfl⟩ := hp
    have hlast := blockStart_le (N := n.toInt.toNat)
      (show i + 1 ≤ ids.length from (List.getElem?_eq_some_iff.mp hi).1)
    obtain ⟨hpos, hless⟩ := (exists_ofNat (n := n)).mpr ⟨k, by omega, rfl⟩
    exact ⟨hpos, hless, List.mem_of_getElem? hi⟩

theorem pairwise_range {ids : List String} {n : Int32} {r : Assignments}
    (hr : HasBlocks ids n.toInt.toNat r) (id : String) :
    (assigned r id).Pairwise (· < ·) := by
  have hlt := n.toInt_lt
  rcases hr id with ⟨-, hnone⟩ | ⟨i, hi, -, hblock⟩
  · rw [hnone]
    exact List.Pairwise.nil
  · rw [hblock]
    exact pairwise_block (by omega) (List.getElem?_eq_some_iff.mp hi).1

/-! ### Distinct members -/

theorem balanced_roundrobin {ids : List String} {n : Int32} {rr : Assignments}
    (hids : ids ≠ []) (hnodup : ids.Nodup)
    (hrr : ∀ id, assigned rr id = turns ids n.toInt.toNat id) : Balanced ids n rr where
  cover := by
    intro p hpos hless
    obtain ⟨k, hk, rfl⟩ := exists_ofNat.mp ⟨hpos, hless⟩
    have howner := roundrobin_owner hrr hk (Nat.mod_lt k (List.length_pos_iff.mpr hids))
    exact ⟨_, (howner _).mpr rfl, fun id hid => (howner id).mp hid⟩
  inside := fun _ _ hp => nonneg_of_mem_roundrobin hrr hp
  share := by
    intro i id hi
    rw [hrr]
    exact length_turns hnodup hi _
  increasing := by
    intro id
    have hlt := n.toInt_lt
    rw [hrr]
    exact pairwise_turns ids (by omega) id

theorem balanced_range {ids : List String} {n : Int32} {r : Assignments}
    (hids : ids ≠ []) (hnodup : ids.Nodup) (hr : HasBlocks ids n.toInt.toNat r) :
    Balanced ids n r where
  cover := by
    intro p hpos hless
    obtain ⟨k, hk, rfl⟩ := exists_ofNat.mp ⟨hpos, hless⟩
    obtain ⟨i, hi, hin⟩ := exists_block (List.length_pos_iff.mpr hids) hk
    have hlast : ∀ j, i < j → ids[j]? ≠ some ids[i] := by
      intro j hij hj
      have heq := (List.getElem?_inj hi hnodup).mp ((List.getElem?_eq_getElem hi).trans hj.symm)
      omega
    have howner := range_owner hr hk hi hlast hin
    exact ⟨_, (howner _).mpr rfl, fun id hid => (howner id).mp hid⟩
  inside := fun _ _ hp => nonneg_of_mem_range hr hp
  share := by
    intro i id hi
    rcases hr id with ⟨hmissing, -⟩ | ⟨j, hj, -, hblock⟩
    · exact absurd (List.mem_of_getElem? hi) hmissing
    · have heq : i = j :=
        (List.getElem?_inj (List.getElem?_eq_some_iff.mp hi).1 hnodup).mp (hi.trans hj.symm)
      rw [hblock, ← heq, block, List.length_map, List.length_range']
      rfl
  increasing := pairwise_range hr

theorem contiguous_range {ids : List String} {n : Int32} {r : Assignments}
    (hr : HasBlocks ids n.toInt.toNat r) (id : String) : Contiguous (assigned r id) := by
  have hlt := n.toInt_lt
  rcases hr id with ⟨-, hnone⟩ | ⟨i, hi, -, hblock⟩
  · rw [hnone]
    intro k p q hp
    cases hp
  · rw [hblock]
    exact contiguous_block (by omega) (List.getElem?_eq_some_iff.mp hi).1

/-- **Assignment is an exact, balanced cover.**  For distinct members and any number of
partitions from zero on, both strategies return, give every partition to one member, and
the member at position `i` its share in increasing order; Range gives it a block. -/
theorem cover_exact_and_balanced (memberIds : List String) (numPartitions : Int32)
    (hids : memberIds ≠ []) (hnodup : memberIds.Nodup) (hn : 0 ≤ numPartitions) :
    ∃ r rr, assignPartitionsRange memberIds numPartitions = some r ∧
      assignPartitionsRoundrobin memberIds numPartitions = some rr ∧
      Balanced memberIds numPartitions r ∧ Balanced memberIds numPartitions rr ∧
      ∀ id, Contiguous (assigned r id) := by
  have hpos : 0 ≤ numPartitions.toInt := Int32.le_iff_toInt_le.mp hn
  obtain ⟨r, hrange, hr⟩ := range_returns memberIds hpos
  obtain ⟨rr, hroundrobin, hrr⟩ := roundrobin_returns memberIds numPartitions
  exact ⟨r, rr, hrange, hroundrobin, balanced_range hids hnodup hr,
    balanced_roundrobin hids hnodup hrr, contiguous_range hr⟩

theorem cover_exact_and_balanced_three_of_two :
    (0 : Int32) ≤ 3 ∧ ∃ r rr, assignPartitionsRange ["a", "b"] 3 = some r ∧
      assignPartitionsRoundrobin ["a", "b"] 3 = some rr ∧
      Balanced ["a", "b"] 3 r ∧ Balanced ["a", "b"] 3 rr ∧ ∀ id, Contiguous (assigned r id) :=
  ⟨by decide, cover_exact_and_balanced ["a", "b"] 3 (by decide) (by decide) (by decide)⟩

/-! ### Degenerate arguments -/

theorem assigns_roundrobin {ids : List String} {n : Int32} {rr : Assignments}
    (hrr : ∀ id, assigned rr id = turns ids n.toInt.toNat id) : Assigns ids n rr where
  once := by
    intro hids p hpos hless
    have hlt := n.toInt_lt
    obtain ⟨k, hk, rfl⟩ := exists_ofNat.mp ⟨hpos, hless⟩
    have howner := roundrobin_owner hrr hk (Nat.mod_lt k (List.length_pos_iff.mpr hids))
    refine ⟨_, ?_, fun id hid hp => hid ((howner id).mp hp)⟩
    refine count_of_pairwise ?_ ((howner _).mpr rfl)
    rw [hrr]
    exact pairwise_turns ids (by omega) _
  nothing := by
    intro p hout id hp
    obtain ⟨hpos, hless, hmem⟩ := nonneg_of_mem_roundrobin hrr hp
    exact hout ⟨List.ne_nil_of_mem hmem, hpos, hless⟩

/-- Range assigns what it is to assign exactly if no id that gets a block occurs again. -/
theorem assigns_range_iff {ids : List String} {n : Int32} {r : Assignments}
    (hr : HasBlocks ids n.toInt.toNat r) :
    Assigns ids n r ↔
      ∀ (i j : Nat) id, i < j → ids[i]? = some id → ids[j]? = some id → n.toInt.toNat ≤ i := by
  constructor
  · intro hassigns i j id hij hi hj
    by_contra hfew
    have hlt := (List.getElem?_eq_some_iff.mp hi).1
    have hm : 0 < ids.length := by omega
    -- the first partition of the block that is lost
    have hshare := (share_pos_iff (N := n.toInt.toNat) hlt).mpr (by omega)
    have hstart := blockStart_le (N := n.toInt.toNat) (show i + 1 ≤ ids.length from hlt)
    have hnext := blockStart_succ n.toInt.toNat ids.length i
    have hk : blockStart n.toInt.toNat ids.length i < n.toInt.toNat := by omega
    obtain ⟨hpos, hless⟩ := exists_ofNat.mpr ⟨_, hk, rfl⟩
    obtain ⟨owner, hone, -⟩ := hassigns.once (List.ne_nil_of_length_pos hm) _ hpos hless
    have howner : Int32.ofNat (blockStart n.toInt.toNat ids.length i) ∈ assigned r owner :=
      List.count_pos_iff.mp (by omega)
    obtain ⟨last, hlast, hlater, hin⟩ := (mem_range hr hk owner).mp howner
    have heq : last = i := block_unique hin ⟨Nat.le_refl _, by omega⟩
    subst heq
    exact hlater j hij (hj.trans (hi.symm.trans hlast))
  · intro hdistinct
    refine ⟨fun hids p hpos hless => ?_, fun p hout id hp => ?_⟩
    · obtain ⟨k, hk, rfl⟩ := exists_ofNat.mp ⟨hpos, hless⟩
      obtain ⟨i, hi, hin⟩ := exists_block (List.length_pos_iff.mpr hids) hk
      -- a position with a block is the last one of its id
      have hlast : ∀ j, i < j → ids[j]? ≠ some ids[i] := by
        intro j hij hj
        have hfew := hdistinct i j _ hij (List.getElem?_eq_getElem hi) hj
        have hshare := (share_pos_iff (N := n.toInt.toNat) hi).mp
          (by have hnext := blockStart_succ n.toInt.toNat ids.length i; omega)
        omega
      have howner := range_owner hr hk hi hlast hin
      exact ⟨ids[i], count_of_pairwise (pairwise_range hr _) ((howner _).mpr rfl),
        fun id hid hp => hid ((howner id).mp hp)⟩
    · obtain ⟨hpos, hless, hmem⟩ := nonneg_of_mem_range hr hp
      exact hout ⟨List.ne_nil_of_mem hmem, hpos, hless⟩

/-- **When the strategies agree.**  Both return and assign the partitions `0 .. n - 1`, each
one once, exactly if there are no members, or the number is not negative and no id among
the first `n` occurs again. -/
theorem strategies_agree_iff (memberIds : List String) (numPartitions : Int32) :
    (∃ r rr, assignPartitionsRange memberIds numPartitions = some r ∧
      assignPartitionsRoundrobin memberIds numPartitions = some rr ∧
      Assigns memberIds numPartitions r ∧ Assigns memberIds numPartitions rr) ↔
    memberIds = [] ∨ 0 ≤ numPartitions.toInt ∧
      ∀ (i j : Nat) id, i < j → memberIds[i]? = some id → memberIds[j]? = some id →
        numPartitions.toInt.toNat ≤ i := by
  obtain ⟨rr, hroundrobin, hrr⟩ := roundrobin_returns memberIds numPartitions
  constructor
  · rintro ⟨r, _, hrange, -, hassigns, -⟩
    by_cases hids : memberIds = []
    · exact .inl hids
    by_cases hpos : 0 ≤ numPartitions.toInt
    · obtain ⟨r', hrange', hr⟩ := range_returns memberIds hpos
      have heq : r = r' := Option.some.inj (hrange.symm.trans hrange')
      exact .inr ⟨hpos, (assigns_range_iff hr).mp (heq ▸ hassigns)⟩
    · rw [range_of_neg hids (by omega)] at hrange
      cases hrange
  · rintro (hids | ⟨hpos, hdistinct⟩)
    · refine ⟨∅, rr, if_pos (.inl hids), hroundrobin, ⟨fun hne => absurd hids hne, ?_⟩,
        assigns_roundrobin hrr⟩
      exact fun _ _ _ => List.not_mem_nil
    · obtain ⟨r, hrange, hr⟩ := range_returns memberIds hpos
      exact ⟨r, rr, hrange, hroundrobin, (assigns_range_iff hr).mpr hdistinct,
        assigns_roundrobin hrr⟩

/-- A member that is listed twice loses its first block. -/
theorem repeated_member_loses_block :
    assignPartitionsRange ["a", "a"] 2 = some (Finmap.singleton "a" [1]) ∧
      assignPartitionsRoundrobin ["a", "a"] 2 = some (Finmap.singleton "a" [0, 1]) ∧
      ¬ ∃ r rr, assignPartitionsRange ["a", "a"] 2 = some r ∧
        assignPartitionsRoundrobin ["a", "a"] 2 = some rr ∧
        Assigns ["a", "a"] 2 r ∧ Assigns ["a", "a"] 2 rr := by
  have hrange : assignPartitionsRange ["a", "a"] 2 = some (Finmap.singleton "a" [1]) := by
    decide
  refine ⟨hrange, by decide, ?_⟩
  rintro ⟨r, rr, hr, -, hassigns, -⟩
  cases hrange.symm.trans hr
  obtain ⟨id, hone, -⟩ := hassigns.once (by decide) 0 (by decide) (by decide)
  by_cases hid : id = "a"
  · subst hid
    exact absurd hone (by decide)
  · have hnone : assigned (Finmap.singleton "a" [1]) id = [] := by
      rw [assigned, Finmap.lookup_eq_none.mpr (by simpa using hid)]
      rfl
    rw [hnone] at hone
    cases hone

end GroupCoordinator

end Rafka
