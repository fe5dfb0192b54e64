/-
Rafka/HashMap.lean

Hash maps as finite maps.

`HashMap K V` is Mathlib's `Finmap`: a finite map up to the order of its
entries, which is what a program can rely on of a hash map.  Where a program
does depend on the order in which it iterates, the order is an argument: a
list of keys that `Enumerates` the map.

Beside `lookup`, `insert` and `erase`, three operations of a hash map that
change entries in place are defined here, each with its lookup lemma:

* `modify k f` — the entry at `k`, if there is one, becomes `f` of itself;
* `mapVals f` — every entry `(k, v)` becomes `(k, f k v)`;
* `retain p` — the entries for which `p` holds stay.
-/
import Mathlib.Data.Finmap

namespace Rafka

variable {K V : Type*}

/-- A hash map from `K` to `V`. -/
abbrev HashMap (K V : Type*) := Finmap fun _ : K => V

namespace HashMap

/-- Every entry `(k, v)` becomes `(k, f k v)`. -/
def mapVals (f : K → V → V) (m : HashMap K V) : HashMap K V where
  entries := m.entries.map fun p => ⟨p.1, f p.1 p.2⟩
  nodupKeys := by
    rw [← Multiset.nodup_keys, Multiset.keys, Multiset.map_map]
    exact Multiset.nodup_keys.mpr m.nodupKeys

/-- The entries for which `p` holds. -/
def retain (p : K → V → Bool) (m : HashMap K V) : HashMap K V where
  entries := m.entries.filter fun e => p e.1 e.2
  nodupKeys := by
    rw [← Multiset.nodup_keys]
    exact Multiset.nodup_of_le (Multiset.map_le_map (Multiset.filter_le _ _))
      (Multiset.nodup_keys.mpr m.nodupKeys)

variable [DecidableEq K]

/-- `l` lists every key of `m` once: one order in which the map can be
iterated. -/
def Enumerates (l : List K) (m : HashMap K V) : Prop :=
  l.Nodup ∧ l.toFinset = m.keys

instance (l : List K) (m : HashMap K V) : Decidable (Enumerates l m) :=
  inferInstanceAs (Decidable (l.Nodup ∧ l.toFinset = m.keys))

/-- The entries of `m` in the order of the keys `l`. -/
def iter (l : List K) (m : HashMap K V) : List (K × V) :=
  l.filterMap fun k => (m.lookup k).map fun v => (k, v)

/-- The entry at `k`, if there is one, becomes `f` of itself. -/
def modify (k : K) (f : V → V) (m : HashMap K V) : HashMap K V :=
  match m.lookup k with
  | some v => m.insert k (f v)
  | none => m

/-! ### Lookup lemmas -/

theorem lookup_insert_eq (m : HashMap K V) (k k' : K) (v : V) :
    (m.insert k v).lookup k' = if k' = k then some v else m.lookup k' := by
  by_cases h : k' = k
  · subst h
    rw [if_pos rfl, Finmap.lookup_insert]
  · rw [if_neg h, Finmap.lookup_insert_of_ne _ h]

/-- Writing back what a lookup found changes no lookup. -/
theorem ite_lookup_eq {m : HashMap K V} {k k' : K} {v : Option V} (h : m.lookup k = v) :
    (if k' = k then v else m.lookup k') = m.lookup k' := by
  by_cases hk : k' = k
  · subst hk
    rw [if_pos rfl, h]
  · rw [if_neg hk]

/-- A map with one entry holds nothing else. -/
theorem of_lookup_insert_empty {k k' : K} {v v' : V}
    (h : ((∅ : HashMap K V).insert k v).lookup k' = some v') : k' = k ∧ v' = v := by
  rw [lookup_insert_eq, Finmap.lookup_empty] at h
  split at h
  · rename_i hk
    exact ⟨hk, (Option.some.inj h).symm⟩
  · cases h

theorem insert_self {m : HashMap K V} {k : K} {v : V} (h : m.lookup k = some v) :
    m.insert k v = m := by
  apply Finmap.ext_lookup
  intro k'
  rw [lookup_insert_eq, ite_lookup_eq h]

theorem lookup_erase_eq (m : HashMap K V) (k k' : K) :
    (m.erase k).lookup k' = if k' = k then none else m.lookup k' := by
  by_cases h : k' = k
  · subst h
    rw [if_pos rfl, Finmap.lookup_erase]
  · rw [if_neg h, Finmap.lookup_erase_ne h]

theorem lookup_modify (m : HashMap K V) (k k' : K) (f : V → V) :
    (modify k f m).lookup k' =
      if k' = k then (m.lookup k').map f else m.lookup k' := by
  unfold modify
  rcases e : m.lookup k with - | v
  · by_cases h : k' = k
    · subst h
      simp [e]
    · rw [if_neg h]
  · simp only [lookup_insert_eq]
    by_cases h : k' = k
    · subst h
      simp [e]
    · rw [if_neg h, if_neg h]

theorem mem_modify {m : HashMap K V} {k k' : K} {f : V → V} : k' ∈ modify k f m ↔ k' ∈ m := by
  rw [← Finmap.lookup_isSome, ← Finmap.lookup_isSome, lookup_modify]
  split
  · rw [Option.isSome_map]
  · rfl

@[simp] theorem lookup_mapVals (m : HashMap K V) (f : K → V → V) (k : K) :
    (mapVals f m).lookup k = (m.lookup k).map (f k) := by
  ext w
  rw [Finmap.lookup_eq_some_iff, Option.map_eq_some_iff]
  simp only [mapVals, Multiset.mem_map]
  constructor
  · rintro ⟨⟨k', v⟩, hv, hw⟩
    simp only [Sigma.mk.injEq, heq_eq_eq] at hw
    obtain ⟨rfl, rfl⟩ := hw
    exact ⟨v, Finmap.lookup_eq_some_iff.mpr hv, rfl⟩
  · rintro ⟨v, hv, rfl⟩
    exact ⟨⟨k, v⟩, Finmap.lookup_eq_some_iff.mp hv, rfl⟩

theorem lookup_retain (m : HashMap K V) (p : K → V → Bool) (k : K) :
    (retain p m).lookup k = (m.lookup k).filter (p k) := by
  ext w
  rw [Finmap.lookup_eq_some_iff, Option.filter_eq_some_iff,
    Finmap.lookup_eq_some_iff]
  simp only [retain, Multiset.mem_filter]

theorem any_eq_true {m : HashMap K V} {f : K → V → Bool} :
    Finmap.any f m = true ↔ ∃ k v, m.lookup k = some v ∧ f k v = true := by
  -- on a list of entries `any` is a fold
  have hlist : ∀ (l : List (Σ _ : K, V)) (b : Bool),
      l.foldl (fun d s => d || f s.1 s.2) b = (b || l.any fun s => f s.1 s.2) := by
    intro l
    induction l with
    | nil => simp
    | cons e l ih =>
        intro b
        rw [List.foldl_cons, ih, List.any_cons, Bool.or_assoc]
  have hany : Finmap.any f m = true ↔ ∃ e ∈ m.entries, f e.1 e.2 = true := by
    induction m using Finmap.induction_on with
    | _ a =>
        show a.entries.foldl (fun d s => d || f s.1 s.2) false = true ↔ _
        rw [hlist, Bool.false_or, List.any_eq_true]
        rfl
  rw [hany]
  constructor
  · rintro ⟨⟨k, v⟩, he, hf⟩
    exact ⟨k, v, Finmap.lookup_eq_some_iff.mpr he, hf⟩
  · rintro ⟨k, v, hv, hf⟩
    exact ⟨⟨k, v⟩, Finmap.lookup_eq_some_iff.mp hv, hf⟩

/-! ### Iteration -/

theorem Enumerates.mem_iff {l : List K} {m : HashMap K V}
    (h : Enumerates l m) {k : K} : k ∈ l ↔ k ∈ m := by
  rw [← List.mem_toFinset, h.2, Finmap.mem_keys]

theorem Enumerates.mem_iter {l : List K} {m : HashMap K V}
    (h : Enumerates l m) {k : K} {v : V} :
    (k, v) ∈ iter l m ↔ m.lookup k = some v := by
  simp only [iter, List.mem_filterMap, Option.map_eq_some_iff, Prod.mk.injEq]
  constructor
  · rintro ⟨k', -, v', hv, rfl, rfl⟩
    exact hv
  · intro hv
    exact ⟨k, h.mem_iff.mpr (Finmap.mem_of_lookup_eq_some hv), v, hv, rfl, rfl⟩

/-- The values in the order of the keys. -/
theorem map_snd_iter (l : List K) (m : HashMap K V) :
    (iter l m).map Prod.snd = l.filterMap fun k => m.lookup k := by
  rw [iter, List.map_filterMap]
  simp

theorem map_fst_iter_sublist (l : List K) (m : HashMap K V) :
    List.Sublist ((iter l m).map Prod.fst) l := by
  induction l with
  | nil => exact List.Sublist.refl _
  | cons k l ih =>
      rw [iter, List.filterMap_cons]
      cases m.lookup k with
      | none => exact ih.cons k
      | some v => exact ih.cons_cons k

/-- What an iteration visits is in the map, whatever the order. -/
theorem lookup_of_mem_iter {l : List K} {m : HashMap K V} {k : K} {v : V}
    (h : (k, v) ∈ iter l m) : m.lookup k = some v := by
  obtain ⟨k', -, hk'⟩ := List.mem_filterMap.mp h
  obtain ⟨v', hv', heq⟩ := Option.map_eq_some_iff.mp hk'
  cases heq
  exact hv'

theorem Enumerates.coe_eq {l : List K} {m : HashMap K V} (h : Enumerates l m) :
    (l : Multiset K) = m.entries.map Sigma.fst := by
  have hval := congrArg Finset.val h.2
  rwa [List.toFinset_val, h.1.dedup] at hval

/-- What an iteration visits, whatever the order. -/
theorem Enumerates.coe_filterMap_lookup {l : List K} {m : HashMap K V} (h : Enumerates l m) :
    (l.filterMap m.lookup : Multiset V) = m.entries.map Sigma.snd := by
  have hlookup : m.entries.map (fun e => m.lookup e.1) = m.entries.map fun e => some e.2 :=
    Multiset.map_congr rfl fun e he => Finmap.lookup_eq_some_iff.mpr he
  calc (l.filterMap m.lookup : Multiset V)
      = (m.entries.map Sigma.fst).filterMap m.lookup := by
        rw [← Multiset.filterMap_coe, h.coe_eq]
    _ = (m.entries.map fun e => m.lookup e.1).filterMap id := by
        rw [Multiset.filterMap_map, Multiset.filterMap_map]
        rfl
    _ = m.entries.map Sigma.snd := by
        rw [hlookup, Multiset.filterMap_map, ← Multiset.filterMap_eq_map]
        rfl

end HashMap

end Rafka
