/-
Rafka/InSync.lean

How far in-sync replicas are behind (`ISRSet::get_isr` and
`ReplicationManager::elect_leader` in `crates/broker/src/replication.rs`).

The state of a replica is decided when the replica itself reports: a lag of at most 100
makes it a follower, and nothing looks at it again when the leader moves on.  A new
follower starts at offset zero with no lag, and an election makes the old leader a
follower at whatever offset it has.  So the replicas that `get_isr` returns need not be
near the leader.

Beside the manager a run records the greatest `leader_offset` that has been reported for
each partition (`History`).  Main result (`in_sync_iff`): the in-sync replicas are within
100 of it throughout a run, and elections only pick such replicas, exactly if every call
`KeepsInSync`.
-/
import Rafka.Replication

namespace Rafka

namespace ISRSet

/-! ### One replica set -/

/-- The replica has fetched to within 100 of `leaderOffset`. -/
def Near (leaderOffset : Int64) (r : ReplicaInfo) : Prop :=
  (leaderOffset.toInt - r.lastFetchOffset.toInt).natAbs ≤ 100

instance (leaderOffset : Int64) (r : ReplicaInfo) : Decidable (Near leaderOffset r) :=
  inferInstanceAs (Decidable (_ ≤ 100))

/-- Every in-sync replica but the leader is near. -/
def Close (isr : ISRSet) (leaderOffset : Int64) : Prop :=
  ∀ id r, isr.replicas.lookup id = some r → inSync r = true → id ≠ isr.leaderId →
    Near leaderOffset r

/-- Replicas have fetched no more than has been reported. -/
structure Behind (isr : ISRSet) (leaderOffset : Int64) : Prop where
  nonneg : 0 ≤ leaderOffset.toInt
  fetched : ∀ id r, isr.replicas.lookup id = some r →
    0 ≤ r.lastFetchOffset.toInt ∧ r.lastFetchOffset.toInt ≤ leaderOffset.toInt

variable {isr : ISRSet} {g : Int64}

theorem mem_getIsr {order : List String} (h : HashMap.Enumerates order isr.replicas)
    {id : String} :
    id ∈ isr.getIsr order ↔ ∃ r, isr.replicas.lookup id = some r ∧ inSync r = true := by
  simp only [getIsr, List.mem_map, List.mem_filter]
  constructor
  · rintro ⟨⟨id', r⟩, ⟨hmem, hsync⟩, rfl⟩
    exact ⟨r, h.mem_iter.mp hmem, hsync⟩
  · rintro ⟨r, hlookup, hsync⟩
    exact ⟨(id, r), ⟨h.mem_iter.mpr hlookup, hsync⟩, rfl⟩

/-- What `get_isr` returns does not depend on the order it iterates in. -/
theorem close_iff :
    isr.Close g ↔ ∀ order, HashMap.Enumerates order isr.replicas →
      ∀ id ∈ isr.getIsr order, id ≠ isr.leaderId →
        ∃ r, isr.replicas.lookup id = some r ∧ Near g r := by
  constructor
  · intro h order horder id hid hleader
    obtain ⟨r, hlookup, hsync⟩ := (mem_getIsr horder).mp hid
    exact ⟨r, hlookup, h id r hlookup hsync hleader⟩
  · intro h id r hlookup hsync hleader
    have horder : HashMap.Enumerates isr.replicas.keys.toList isr.replicas :=
      ⟨Finset.nodup_toList _, Finset.toList_toFinset _⟩
    obtain ⟨r', hlookup', hnear⟩ :=
      h _ horder id ((mem_getIsr horder).mpr ⟨r, hlookup, hsync⟩) hleader
    cases hlookup.symm.trans hlookup'
    exact hnear

theorem lookup_new {p : Int32} {leader id : String} {k : Nat} {now : SystemTime} {r : ReplicaInfo}
    (h : (new p leader k now).replicas.lookup id = some r) :
    id = leader ∧ r.lastFetchOffset = 0 := by
  simp only [new, HashMap.lookup_insert_eq, Finmap.lookup_empty] at h
  split at h
  · rename_i hid
    cases h
    exact ⟨hid, rfl⟩
  · cases h

theorem new_close (p : Int32) (leader : String) (k : Nat) (now : SystemTime) :
    (new p leader k now).Close g := by
  intro id r hlookup _ hleader
  exact absurd (lookup_new hlookup).1 hleader

theorem new_behind (p : Int32) (leader : String) (k : Nat) (now : SystemTime)
    (hg : 0 ≤ g.toInt) : (new p leader k now).Behind g := by
  refine ⟨hg, fun id r hlookup => ?_⟩
  rw [(lookup_new hlookup).2]
  exact ⟨Int.le_refl 0, hg⟩

/-! ### A new follower -/

theorem lookup_addFollower (isr : ISRSet) (b id : String) (now : SystemTime) :
    (isr.addFollower b now).replicas.lookup id =
      if id = b then
        some { brokerId := b, state := .follower, lastFetchOffset := 0, lastUpdated := now,
               lag := 0 }
      else isr.replicas.lookup id :=
  HashMap.lookup_insert_eq ..

theorem Behind.addFollower (h : isr.Behind g) (b : String) (now : SystemTime) :
    (isr.addFollower b now).Behind g := by
  refine ⟨h.nonneg, fun id r hlookup => ?_⟩
  rw [lookup_addFollower] at hlookup
  split at hlookup
  · cases hlookup
    exact ⟨Int.le_refl 0, h.nonneg⟩
  · exact h.fetched id r hlookup

/-- It starts at zero. -/
theorem Close.addFollower_iff (h : isr.Close g) (hbehind : isr.Behind g) (b : String)
    (now : SystemTime) :
    (isr.addFollower b now).Close g ↔ b = isr.leaderId ∨ g.toInt ≤ 100 := by
  have hpos := hbehind.nonneg
  have hzero : (0 : Int64).toInt = 0 := rfl
  constructor
  · intro hclose
    by_cases hleader : b = isr.leaderId
    · exact .inl hleader
    · have hnear := hclose b _ (by rw [lookup_addFollower, if_pos rfl]) rfl hleader
      rw [Near, hzero] at hnear
      exact .inr (by omega)
  · intro hcond id r hlookup hsync hleader
    rw [lookup_addFollower] at hlookup
    split at hlookup
    · rename_i hid
      cases hlookup
      have hlow := hcond.resolve_left fun hb => hleader (hid.trans hb)
      rw [Near, hzero]
      omega
    · exact h id r hlookup hsync hleader

/-! ### A report -/

section Report

variable {overflowChecks : Bool} {o lo : Int64} (ho : 0 ≤ o) (hlo : o ≤ lo)
include ho hlo

theorem toInt_lag : (lo - o).toInt = lo.toInt - o.toInt := Int64.toInt_sub_of_le lo o ho hlo

/-- Offsets between zero and the leader's do not overflow. -/
theorem i64Sub_lag : i64Sub overflowChecks lo o = some (lo - o) := by
  rw [i64Sub, toInt_lag ho hlo]
  simp

theorem Behind.updateFollowerOffset (h : isr.Behind g) (hg : g ≤ lo) (b : String)
    (now : SystemTime) : (isr.updateFollowerOffset overflowChecks b o lo now).Behind lo := by
  have hpos : 0 ≤ o.toInt := Int64.le_iff_toInt_le.mp ho
  have hle : o.toInt ≤ lo.toInt := Int64.le_iff_toInt_le.mp hlo
  have hgrow : g.toInt ≤ lo.toInt := Int64.le_iff_toInt_le.mp hg
  refine ⟨by omega, fun id r hlookup => ?_⟩
  simp only [ISRSet.updateFollowerOffset, HashMap.lookup_modify] at hlookup
  split at hlookup
  · obtain ⟨r₀, -, rfl⟩ := Option.map_eq_some_iff.mp hlookup
    rw [ISRSet.fetched, i64Sub_lag ho hlo]
    exact ⟨hpos, hle⟩
  · have hfetched := h.fetched id r hlookup
    omega

/-- The replica that reports is put in its place; the others are not looked at. -/
theorem updateFollowerOffset_close_iff (b : String) (now : SystemTime) :
    (isr.updateFollowerOffset overflowChecks b o lo now).Close lo ↔
      ∀ id r, isr.replicas.lookup id = some r → inSync r = true → id ≠ isr.leaderId →
        id ≠ b → Near lo r := by
  have hle : o.toInt ≤ lo.toInt := Int64.le_iff_toInt_le.mp hlo
  constructor
  · intro hclose id r hlookup hsync hleader hid
    refine hclose id r ?_ hsync hleader
    simp only [ISRSet.updateFollowerOffset, HashMap.lookup_modify, if_neg hid, hlookup]
  · intro hothers id r hlookup hsync hleader
    simp only [ISRSet.updateFollowerOffset, HashMap.lookup_modify] at hlookup
    split at hlookup
    · -- in sync after its own report means a lag of at most 100
      obtain ⟨r₀, -, rfl⟩ := Option.map_eq_some_iff.mp hlookup
      have hlag : lo - o ≤ 100 := by
        by_contra hfar
        simp [inSync, fetched, i64Sub_lag ho hlo, hfar] at hsync
      have hint := Int64.le_iff_toInt_le.mp hlag
      have hbound : (100 : Int64).toInt = 100 := rfl
      rw [toInt_lag ho hlo, hbound] at hint
      rw [Near, fetched, i64Sub_lag ho hlo]
      show (lo.toInt - o.toInt).natAbs ≤ 100
      omega
    · rename_i hid
      exact hothers id r hlookup hsync hleader hid

end Report

/-! ### An election -/

theorem afterElection_lastFetchOffset (l id : String) (r : ReplicaInfo) :
    (afterElection l id r).lastFetchOffset = r.lastFetchOffset := by
  unfold afterElection
  split
  · rfl
  · split <;> rfl

/-- Only the new leader may come into sync. -/
theorem inSync_afterElection {l id : String} (hid : id ≠ l) (r : ReplicaInfo) :
    inSync (afterElection l id r) = inSync r := by
  rw [afterElection, if_neg hid]
  split
  · rename_i hleader
    simp [inSync, hleader]
  · rfl

theorem electLeader_eq (isr : ISRSet) (order : List String) :
    (isr.electLeader order).2 =
      match (isr.getIsr order).head? with
      | none => isr
      | some newLeader =>
          { isr with
            replicas := isr.replicas.mapVals (afterElection newLeader)
            leaderId := newLeader } := by
  unfold electLeader
  cases isr.getIsr order with
  | nil => rfl
  | cons newLeader rest => rfl

theorem Behind.electLeader (h : isr.Behind g) (order : List String) :
    (isr.electLeader order).2.Behind g := by
  rw [electLeader_eq]
  split
  · exact h
  · refine ⟨h.nonneg, fun id r hlookup => ?_⟩
    rw [HashMap.lookup_mapVals] at hlookup
    obtain ⟨r₀, hr₀, rfl⟩ := Option.map_eq_some_iff.mp hlookup
    rw [afterElection_lastFetchOffset]
    exact h.fetched id r₀ hr₀

/-- The old leader becomes a follower, at the offset it has. -/
theorem Close.electLeader_iff (h : isr.Close g) {order : List String}
    (horder : HashMap.Enumerates order isr.replicas) :
    (isr.electLeader order).2.Close g ↔
      (isr.getIsr order).head? = some isr.leaderId ∨
        ∀ r, isr.replicas.lookup isr.leaderId = some r → inSync r = true → Near g r := by
  rw [electLeader_eq]
  cases hhead : (isr.getIsr order).head? with
  | none =>
      refine iff_of_true h (.inr fun r hlookup hsync => ?_)
      have hmem := (mem_getIsr horder).mpr ⟨r, hlookup, hsync⟩
      rw [List.head?_eq_none_iff.mp hhead] at hmem
      exact absurd hmem List.not_mem_nil
  | some newLeader =>
      constructor
      · intro hclose
        by_cases hsame : newLeader = isr.leaderId
        · exact .inl (congrArg some hsame)
        · refine .inr fun r hlookup hsync => ?_
          have hold : isr.leaderId ≠ newLeader := fun heq => hsame heq.symm
          have hnear := hclose isr.leaderId (afterElection newLeader isr.leaderId r)
            (by simp [hlookup]) ((inSync_afterElection hold r).trans hsync) hold
          rwa [Near, afterElection_lastFetchOffset] at hnear
      · intro hcond id r hlookup hsync hleader
        rw [HashMap.lookup_mapVals] at hlookup
        obtain ⟨r₀, hr₀, rfl⟩ := Option.map_eq_some_iff.mp hlookup
        have hsync₀ : inSync r₀ = true := (inSync_afterElection hleader r₀).symm.trans hsync
        rw [Near, afterElection_lastFetchOffset]
        by_cases hold : id = isr.leaderId
        · subst hold
          rcases hcond with hsame | hnear
          · exact absurd (Option.some.inj hsame).symm hleader
          · exact hnear r₀ hr₀ hsync₀
        · exact h id r₀ hr₀ hsync₀ hold

end ISRSet

namespace ReplicationManager

/-! ### Runs with the offsets reported -/

/-- A manager, with the greatest `leader_offset` reported for each partition so far. -/
structure History where
  manager : ReplicationManager
  reported : HashMap Int32 Int64

namespace History

/-- The greatest `leader_offset` reported for the partition; zero before the first report. -/
def greatest (s : History) (p : Int32) : Int64 := (s.reported.lookup p).getD 0

/-- One call on the manager. -/
def step (overflowChecks : Bool) (s : History) (op : ReplicationOp) : History where
  manager := s.manager.step overflowChecks op
  reported :=
    match op with
    | .updateFollowerOffset p _ _ leaderOffset _ =>
        s.reported.insert p (max (s.greatest p) leaderOffset)
    | _ => s.reported

def init (replicationFactor : Nat) : History := { manager := new replicationFactor, reported := ∅ }

/-- The calls considered: offsets are between zero and the leader's, which does not go
back, no replica is removed, and an election iterates the replicas it finds. -/
def Lawful (s : History) : ReplicationOp → Prop
  | .initPartition .. => True
  | .addFollower .. => True
  | .updateFollowerOffset p _ offset leaderOffset _ =>
      0 ≤ offset ∧ offset ≤ leaderOffset ∧ s.greatest p ≤ leaderOffset
  | .removeReplica .. => False
  | .electLeader p order => s.manager.IsOrder p order

instance (s : History) : ∀ op, Decidable (s.Lawful op)
  | .initPartition .. => .isTrue trivial
  | .addFollower .. => .isTrue trivial
  | .updateFollowerOffset p _ offset leaderOffset _ =>
      inferInstanceAs (Decidable (0 ≤ offset ∧ offset ≤ leaderOffset ∧ s.greatest p ≤ leaderOffset))
  | .removeReplica .. => .isFalse id
  | .electLeader p order => inferInstanceAs (Decidable (s.manager.IsOrder p order))

/-- Every replica that `get_isr` returns, but the leader, is within 100 of the greatest
offset reported. -/
def InSync (s : History) : Prop :=
  ∀ p isr, s.manager.isrOf p = some isr → ∀ order, HashMap.Enumerates order isr.replicas →
    ∀ id ∈ isr.getIsr order, id ≠ isr.leaderId →
      ∃ r, isr.replicas.lookup id = some r ∧ ISRSet.Near (s.greatest p) r

/-- An election picks the leader again, or a replica that is not further behind. -/
def PicksNear (s : History) : ReplicationOp → Prop
  | .electLeader p order =>
      ∀ isr newLeader, s.manager.isrOf p = some isr →
        (s.manager.electLeader p order).1 = .ok newLeader → newLeader ≠ isr.leaderId →
        ∃ r, isr.replicas.lookup newLeader = some r ∧ ISRSet.Near (s.greatest p) r
  | _ => True

/-- The calls that leave the replicas in sync: a new follower comes while the leader is at
most 100 ahead of zero; at a report all the other in-sync replicas are near the offset
reported; an election keeps the leader, or the leader is out of sync or near itself. -/
def KeepsInSync (s : History) : ReplicationOp → Prop
  | .addFollower p b _ =>
      ∀ isr, s.manager.isrOf p = some isr → b = isr.leaderId ∨ (s.greatest p).toInt ≤ 100
  | .updateFollowerOffset p b _ leaderOffset _ =>
      ∀ isr, s.manager.isrOf p = some isr →
        ∀ id r, isr.replicas.lookup id = some r → ISRSet.inSync r = true → id ≠ isr.leaderId →
          id ≠ b → ISRSet.Near leaderOffset r
  | .electLeader p order =>
      ∀ isr, s.manager.isrOf p = some isr →
        (isr.getIsr order).head? = some isr.leaderId ∨
          ∀ r, isr.replicas.lookup isr.leaderId = some r → ISRSet.inSync r = true →
            ISRSet.Near (s.greatest p) r
  | _ => True

/-- The property holds of every replica set and what was reported for it. -/
def Sets (P : ISRSet → Int64 → Prop) (s : History) : Prop :=
  ∀ p isr, s.manager.isrOf p = some isr → P isr (s.greatest p)

theorem inSync_iff {s : History} : s.InSync ↔ s.Sets ISRSet.Close := by
  constructor
  · intro h p isr hisr
    exact ISRSet.close_iff.mpr (h p isr hisr)
  · intro h p isr hisr
    exact ISRSet.close_iff.mp (h p isr hisr)

variable {s u : History} {P : ISRSet → Int64 → Prop} {p : Int32} {overflowChecks : Bool}

/-- What a call makes of the replica set it is about has the property. -/
def Written (overflowChecks : Bool) (P : ISRSet → Int64 → Prop) (s : History) :
    ReplicationOp → Prop
  | .initPartition p leader now =>
      P (ISRSet.new p leader (s.manager.replicationFactor / 2 + 1) now) (s.greatest p)
  | .addFollower p b now =>
      ∀ isr, s.manager.isrOf p = some isr → P (isr.addFollower b now) (s.greatest p)
  | .updateFollowerOffset p b o lo now =>
      ∀ isr, s.manager.isrOf p = some isr →
        P (isr.updateFollowerOffset overflowChecks b o lo now) (max (s.greatest p) lo)
  | .removeReplica p b =>
      ∀ isr, s.manager.isrOf p = some isr → P (isr.removeReplica b) (s.greatest p)
  | .electLeader p order =>
      ∀ isr, s.manager.isrOf p = some isr → P (isr.electLeader order).2 (s.greatest p)

/-- A call that writes one replica set: only that one counts. -/
theorem Sets.write_iff (h : s.Sets P) {isr' : ISRSet}
    (hisr : u.manager = s.manager.setIsr p isr')
    (hreported : ∀ q, q ≠ p → u.greatest q = s.greatest q) :
    u.Sets P ↔ P isr' (u.greatest p) := by
  constructor
  · intro h'
    exact h' p isr' (by rw [hisr, isrOf_setIsr, if_pos rfl])
  · intro hp q isr hq
    rw [hisr, isrOf_setIsr] at hq
    by_cases hqp : q = p
    · subst hqp
      rw [if_pos rfl] at hq
      cases hq
      exact hp
    · rw [if_neg hqp] at hq
      rw [hreported q hqp]
      exact h q isr hq

/-- A call on the replica set of a partition writes what `f` makes of it, if there is one. -/
theorem Sets.modify_iff (h : s.Sets P) {f : ISRSet → ISRSet}
    (hsome : ∀ isr, s.manager.isrOf p = some isr → u.manager = s.manager.setIsr p (f isr))
    (hnone : s.manager.isrOf p = none → u.manager = s.manager)
    (hreported : ∀ q, q ≠ p → u.greatest q = s.greatest q) :
    u.Sets P ↔ ∀ isr, s.manager.isrOf p = some isr → P (f isr) (u.greatest p) := by
  cases hisr : s.manager.isrOf p with
  | none =>
      refine iff_of_true (fun q isr hq => ?_) fun isr heq => by cases heq
      rw [hnone hisr] at hq
      have hqp : q ≠ p := by
        rintro rfl
        rw [hisr] at hq
        cases hq
      rw [hreported q hqp]
      exact h q isr hq
  | some isr =>
      rw [h.write_iff (hsome isr hisr) hreported]
      simp

theorem greatest_update (overflowChecks : Bool) (s : History) (p q : Int32) (b : String)
    (o lo : Int64) (now : SystemTime) :
    (s.step overflowChecks (.updateFollowerOffset p b o lo now)).greatest q =
      if q = p then max (s.greatest p) lo else s.greatest q := by
  simp only [greatest, step, HashMap.lookup_insert_eq]
  split
  · rfl
  · rfl

/-- **Step lemma.**  A property of all replica sets is kept if what the call writes has it. -/
theorem Sets.step_iff (h : s.Sets P) {op : ReplicationOp} (hop : s.Lawful op) :
    (s.step overflowChecks op).Sets P ↔ s.Written overflowChecks P op := by
  cases op with
  | initPartition p leader now =>
      exact h.write_iff (u := s.step overflowChecks _) rfl fun _ _ => rfl
  | addFollower p b now =>
      refine h.modify_iff (u := s.step overflowChecks _) (f := fun isr => isr.addFollower b now)
        (fun isr hisr => ?_) (fun hnone => ?_) fun _ _ => rfl
      all_goals
        simp only [isrOf] at *
        simp only [step, ReplicationManager.step, addFollower, *]
  | updateFollowerOffset p b o lo now =>
      have hgreatest := fun q => greatest_update overflowChecks s p q b o lo now
      rw [h.modify_iff (u := s.step overflowChecks _) (p := p)
        (f := fun isr => isr.updateFollowerOffset overflowChecks b o lo now) (fun isr hisr => ?_)
        (fun hnone => ?_) fun q hq => by rw [hgreatest, if_neg hq]]
      · rw [hgreatest, if_pos rfl]
        rfl
      all_goals
        simp only [isrOf] at *
        simp only [step, ReplicationManager.step, updateFollowerOffset, *]
  | removeReplica p b => exact absurd hop id
  | electLeader p order =>
      refine h.modify_iff (u := s.step overflowChecks _) (f := fun isr => (isr.electLeader order).2)
        (fun isr hisr => ?_) (fun hnone => ?_) fun _ _ => rfl
      all_goals
        simp only [isrOf] at *
        simp only [step, ReplicationManager.step, if_pos (show s.manager.IsOrder p order from hop),
          electLeader, *]

/-! ### The invariant -/

/-- What holds in every run: no replica has fetched more than has been reported. -/
structure Tidy (s : History) : Prop where
  nonneg : ∀ p, 0 ≤ (s.greatest p).toInt
  behind : s.Sets ISRSet.Behind

theorem max_of_le {g lo : Int64} (h : g ≤ lo) : max g lo = lo := if_pos h

theorem Tidy.step (h : s.Tidy) {op : ReplicationOp} (hop : s.Lawful op) :
    (s.step overflowChecks op).Tidy := by
  refine ⟨?_, (h.behind.step_iff hop).mpr ?_⟩
  · cases op with
    | updateFollowerOffset p b o lo now =>
        intro q
        rw [greatest_update]
        split
        · have hgrow := Int64.le_iff_toInt_le.mp hop.2.2
          have hpos := h.nonneg p
          rw [max_of_le hop.2.2]
          omega
        · exact h.nonneg q
    | initPartition p leader now => exact h.nonneg
    | addFollower p b now => exact h.nonneg
    | removeReplica p b => exact h.nonneg
    | electLeader p order => exact h.nonneg
  · cases op with
    | initPartition p leader now => exact ISRSet.new_behind p leader _ now (h.nonneg p)
    | addFollower p b now => exact fun isr hisr => (h.behind p isr hisr).addFollower b now
    | updateFollowerOffset p b o lo now =>
        intro isr hisr
        rw [max_of_le hop.2.2]
        exact (h.behind p isr hisr).updateFollowerOffset hop.1 hop.2.1 hop.2.2 b now
    | removeReplica p b => exact absurd hop id
    | electLeader p order => exact fun isr hisr => (h.behind p isr hisr).electLeader order

/-- **Which calls leave the replicas in sync.** -/
theorem close_step_iff (h : s.Tidy) (hclose : s.Sets ISRSet.Close) {op : ReplicationOp}
    (hop : s.Lawful op) : (s.step overflowChecks op).Sets ISRSet.Close ↔ s.KeepsInSync op := by
  rw [hclose.step_iff hop]
  cases op with
  | initPartition p leader now => exact iff_of_true (ISRSet.new_close p leader _ now) trivial
  | addFollower p b now =>
      refine forall_congr' fun isr => forall_congr' fun hisr => ?_
      exact (hclose p isr hisr).addFollower_iff (h.behind p isr hisr) b now
  | updateFollowerOffset p b o lo now =>
      refine forall_congr' fun isr => forall_congr' fun _ => ?_
      rw [max_of_le hop.2.2]
      exact ISRSet.updateFollowerOffset_close_iff hop.1 hop.2.1 b now
  | removeReplica p b => exact absurd hop id
  | electLeader p order =>
      refine forall_congr' fun isr => forall_congr' fun hisr => ?_
      exact (hclose p isr hisr).electLeader_iff (hop isr hisr)

/-- From replicas in sync, an election picks one of them. -/
theorem picksNear_of_close (hclose : s.Sets ISRSet.Close) {op : ReplicationOp}
    (hop : s.Lawful op) : s.PicksNear op := by
  cases op with
  | electLeader p order =>
      intro isr newLeader hisr hpicked hleader
      have horder : HashMap.Enumerates order isr.replicas := hop isr hisr
      have hmem : newLeader ∈ isr.getIsr order := by
        simp only [isrOf] at hisr
        simp only [electLeader, hisr, ISRSet.electLeader] at hpicked
        cases hfound : isr.getIsr order with
        | nil =>
            rw [hfound] at hpicked
            cases hpicked
        | cons first rest =>
            rw [hfound] at hpicked
            cases hpicked
            exact List.mem_cons_self
      exact ISRSet.close_iff.mp (hclose p isr hisr) order horder newLeader hmem hleader
  | initPartition p leader now => trivial
  | addFollower p b now => trivial
  | updateFollowerOffset p b o lo now => trivial
  | removeReplica p b => trivial

theorem init_sets (replicationFactor : Nat) : (init replicationFactor).Sets P := by
  intro p isr hisr
  simp [init, new, isrOf] at hisr

/-- **When in-sync replicas are in sync.**  In every run of the manager with offsets between
zero and the leader's, which does not go back, the replicas that `get_isr` returns are
within 100 of the greatest offset reported, and elections pick the leader or such a
replica, throughout the run, exactly if every call keeps them so. -/
theorem in_sync_iff (overflowChecks : Bool) (replicationFactor : Nat) (ops : List ReplicationOp)
    (hops : Along (step overflowChecks) Lawful (init replicationFactor) ops) :
    Always (step overflowChecks) InSync (init replicationFactor) ops ∧
        Along (step overflowChecks) PicksNear (init replicationFactor) ops ↔
      Along (step overflowChecks) KeepsInSync (init replicationFactor) ops := by
  refine always_and_along_iff (I := fun s => s.Tidy ∧ s.Sets ISRSet.Close) hops
    ⟨⟨fun p => ?_, init_sets _⟩, init_sets _⟩ (fun s h => inSync_iff.mpr h.2)
    (fun s op h hop hkeeps => ⟨h.1.step hop, (close_step_iff h.1 h.2 hop).mpr hkeeps⟩)
    fun s op h hop => ?_
  · rw [inSync_iff, close_step_iff h.1 h.2 hop]
    exact and_iff_left (picksNear_of_close h.2 hop)
  · exact Int.le_refl 0

/-- A leader with two followers, one of which fetches up to `offset`. -/
def oneFetches (offset : Int64) : List ReplicationOp :=
  [.initPartition 0 "b0" .unixEpoch, .addFollower 0 "b1" .unixEpoch,
    .addFollower 0 "b2" .unixEpoch, .updateFollowerOffset 0 "b2" offset offset .unixEpoch]

theorem in_sync_iff_oneFetches :
    Along (step true) Lawful (init 3) (oneFetches 100) ∧
    (Always (step true) InSync (init 3) (oneFetches 100) ∧
        Along (step true) PicksNear (init 3) (oneFetches 100) ↔
      Along (step true) KeepsInSync (init 3) (oneFetches 100)) :=
  ⟨by decide +kernel, in_sync_iff true 3 (oneFetches 100) (by decide +kernel)⟩

/-- A follower that has not fetched anything stays in sync while the leader moves on. -/
theorem silent_follower_stays_in_sync :
    Along (step true) Lawful (init 3) (oneFetches 200) ∧
      ¬ (Always (step true) InSync (init 3) (oneFetches 200) ∧
        Along (step true) PicksNear (init 3) (oneFetches 200)) := by
  refine ⟨by decide +kernel, fun h => ?_⟩
  set isr := (((ISRSet.new 0 "b0" 2 .unixEpoch).addFollower "b1" .unixEpoch).addFollower "b2"
    .unixEpoch).updateFollowerOffset true "b2" 200 200 .unixEpoch
  obtain ⟨r, hr, hnear⟩ := h.1.last 0 isr rfl ["b0", "b1", "b2"] (by decide +kernel) "b1"
    (by decide +kernel) (by decide +kernel)
  have hsilent : (isr.replicas.lookup "b1").map (fun r => r.lastFetchOffset) = some 0 := by
    decide +kernel
  rw [hr, Option.map_some, Option.some.injEq] at hsilent
  rw [ISRSet.Near, hsilent] at hnear
  exact absurd hnear (by decide +kernel)

end History

end ReplicationManager

end Rafka
