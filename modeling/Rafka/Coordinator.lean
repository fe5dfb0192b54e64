/-
Rafka/Coordinator.lean

Consumer groups (`crates/broker/src/coordinator.rs`).

A group moves through generations.  A join that finds the group `empty` or
`stable` opens the next generation (`preparingRebalance`); the leader's
SyncGroup for that generation hands out the assignments and makes the group
`stable` again.  Every handler runs under the write lock of its group, so a
run is a sequence of calls.

Assignments are stored in the member records.  A rejoin clears the record,
the leader's SyncGroup overwrites the records its map mentions, and nothing
else touches them: a record that is neither cleared nor mentioned survives
into the next generation.  And SyncGroup answers with whatever the record
holds, whether or not the leader has spoken.  The two main results say
exactly which runs are free of either effect:

* `stable_assignment_iff` — a stable group carries the assignments of its
  generation's leader map iff every applied map covers the members that
  still hold an assignment;
* `sync_answers_iff` — SyncGroup answers only after the leader has spoken,
  and always with the same bytes, iff no follower syncs while the group is
  preparing.

Both hold as long as the generation counter, an `i32`, has room (`HasRoom`);
once it is used up, generations have no ids of their own any more.
-/
import Rafka.HashMap
import Rafka.Time
import Rafka.Trace
import Mathlib.Data.Set.Basic

namespace Rafka

/-- `MemberMetadata`. -/
structure MemberMetadata where
  memberId : String
  clientId : String
  clientHost : String
  protocolType : String
  topics : List String
  lastHeartbeat : SystemTime
  assignment : List UInt8
deriving DecidableEq

/-- `GroupState`. -/
inductive GroupState
  | empty
  | preparingRebalance
  | completingRebalance
  | stable
  | dead
deriving DecidableEq

/-- `GroupMetadata`. -/
structure GroupMetadata where
  groupId : String
  state : GroupState
  members : HashMap String MemberMetadata
  leaderId : Option String
  generationId : Int32
  protocol : Option String

/-- `GroupCoordinator`. -/
structure GroupCoordinator where
  groups : HashMap String GroupMetadata

/-- An assignment map: member id to assignment bytes. -/
abbrev AssignmentMap := HashMap String (List UInt8)

namespace GroupMetadata

/-- The group a first join creates. -/
def fresh (groupId : String) : GroupMetadata where
  groupId := groupId
  state := .empty
  members := ∅
  leaderId := none
  generationId := 0
  protocol := none

/-- The part of `handle_join_group` under the group lock: the member record
is written afresh, the first member becomes the leader, and a group that is
not already rebalancing enters the next generation. -/
def join (g : GroupMetadata) (memberId clientId protocolType : String)
    (topics : List String) (now : SystemTime) : GroupMetadata :=
  let g := { g with
    members := g.members.insert memberId
      { memberId := memberId, clientId := clientId, clientHost := "127.0.0.1",
        protocolType := protocolType, topics := topics, lastHeartbeat := now,
        assignment := [] } }
  let g := if g.leaderId.isNone then { g with leaderId := some memberId } else g
  if g.state = .stable ∨ g.state = .empty then
    { g with state := .preparingRebalance, generationId := g.generationId + 1 }
  else g

/-- The record of member `id` after the leader's map is applied. -/
def assign (map : AssignmentMap) (id : String) (m : MemberMetadata) : MemberMetadata :=
  match map.lookup id with
  | some bytes => { m with assignment := bytes }
  | none => m

/-- The leader's loop over its map.  Every key is visited once, so the order
of the visits does not matter (`applyAssignments_eq_foldl`). -/
def applyAssignments (g : GroupMetadata) (map : AssignmentMap) : GroupMetadata :=
  { g with members := g.members.mapVals (assign map) }

/-- `member_id` speaks for the group: it is the leader and the group waits
for an assignment. -/
def LeaderSpeaks (g : GroupMetadata) (memberId : String) : Prop :=
  g.state = .preparingRebalance ∧ g.leaderId = some memberId

instance (g : GroupMetadata) (memberId : String) : Decidable (g.LeaderSpeaks memberId) :=
  inferInstanceAs (Decidable (_ ∧ _))

/-- The group after a SyncGroup of its own generation. -/
def sync (g : GroupMetadata) (memberId : String) (map : AssignmentMap) : GroupMetadata :=
  if g.LeaderSpeaks memberId then { g.applyAssignments map with state := .stable } else g

/-- The group after a heartbeat of its own generation. -/
def heartbeat (g : GroupMetadata) (memberId : String) (now : SystemTime) : GroupMetadata :=
  { g with members := g.members.modify memberId fun m => { m with lastHeartbeat := now } }

end GroupMetadata

namespace GroupCoordinator

/-- `GroupCoordinator::new`. -/
def new : GroupCoordinator := ⟨∅⟩

/-- Write back the group found under `groupId`. -/
def setGroup (c : GroupCoordinator) (groupId : String) (g : GroupMetadata) :
    GroupCoordinator :=
  ⟨c.groups.insert groupId g⟩

/-- `GroupCoordinator::handle_join_group`; `uuid` is the fresh suffix of a
generated member id. -/
def handleJoinGroup (c : GroupCoordinator)
    (groupId memberId clientId protocolType : String) (topics : List String)
    (uuid : String) (now : SystemTime) :
    Except String (String × String × Int32 × String) × GroupCoordinator :=
  let group := (c.groups.lookup groupId).getD (.fresh groupId)
  let newMemberId := if memberId = "" then clientId ++ "-" ++ uuid else memberId
  let group := group.join newMemberId clientId protocolType topics now
  (.ok (newMemberId, group.leaderId.getD newMemberId, group.generationId, protocolType),
    c.setGroup groupId group)

/-- `GroupCoordinator::handle_sync_group`. -/
def handleSyncGroup (c : GroupCoordinator) (groupId memberId : String)
    (generationId : Int32) (groupAssignment : AssignmentMap) :
    Except String (List UInt8) × GroupCoordinator :=
  match c.groups.lookup groupId with
  | some group =>
      if group.generationId ≠ generationId then (.error "Invalid generation id", c)
      else
        let group := group.sync memberId groupAssignment
        match group.members.lookup memberId with
        | some member => (.ok member.assignment, c.setGroup groupId group)
        | none => (.error "Member not found", c.setGroup groupId group)
  | none => (.error "Group not found", c)

/-- `GroupCoordinator::handle_heartbeat`. -/
def handleHeartbeat (c : GroupCoordinator) (groupId memberId : String)
    (generationId : Int32) (now : SystemTime) : Except String Unit × GroupCoordinator :=
  match c.groups.lookup groupId with
  | some group =>
      if group.generationId ≠ generationId then (.error "Rebalance in progress", c)
      else
        match group.members.lookup memberId with
        | some _ => (.ok (), c.setGroup groupId (group.heartbeat memberId now))
        | none => (.error "Member not found", c)
  | none => (.error "Group not found", c)

end GroupCoordinator

/-! ### The leader's loop -/

namespace GroupMetadata

/-- One round of the leader's loop: the record of `id`, if there is one, takes
the bytes the map gives for it. -/
def assignOne (map : AssignmentMap) (ms : HashMap String MemberMetadata) (id : String) :
    HashMap String MemberMetadata :=
  match map.lookup id with
  | some bytes => HashMap.modify id (fun m => { m with assignment := bytes }) ms
  | none => ms

theorem assign_of_lookup_none {map : AssignmentMap} {id : String}
    (h : map.lookup id = none) (m : MemberMetadata) : assign map id m = m := by
  simp only [assign, h]

theorem lookup_assignOne (map : AssignmentMap) (ms : HashMap String MemberMetadata)
    (k id : String) :
    (assignOne map ms k).lookup id =
      if id = k then (ms.lookup id).map (assign map id) else ms.lookup id := by
  rcases e : map.lookup k with - | bytes
  · have hsame : ∀ m, assign map k m = m := assign_of_lookup_none e
    by_cases hid : id = k
    · subst hid
      rcases e' : ms.lookup id with - | m <;> simp [assignOne, e, e', hsame]
    · simp [assignOne, e, hid]
  · simp only [assignOne, e, HashMap.lookup_modify]
    by_cases hid : id = k
    · subst hid
      rw [if_pos rfl, if_pos rfl]
      congr 1
      funext m
      simp only [assign, e]
    · rw [if_neg hid, if_neg hid]

theorem lookup_foldl_assignOne (map : AssignmentMap) (order : List String)
    (hnd : order.Nodup) (ms : HashMap String MemberMetadata) (id : String) :
    (order.foldl (assignOne map) ms).lookup id =
      if id ∈ order then (ms.lookup id).map (assign map id) else ms.lookup id := by
  induction order generalizing ms with
  | nil => simp
  | cons k order ih =>
      obtain ⟨hk, hnd⟩ := List.nodup_cons.mp hnd
      rw [List.foldl_cons, ih hnd, lookup_assignOne]
      by_cases hid : id = k
      · subst hid
        rw [if_neg hk, if_pos rfl, if_pos List.mem_cons_self]
      · simp only [hid, if_false, List.mem_cons, false_or]

/-- The loop of `handle_sync_group` over the leader's map, in any order. -/
theorem applyAssignments_eq_foldl (g : GroupMetadata) (map : AssignmentMap)
    {order : List String} (horder : HashMap.Enumerates order map) :
    (g.applyAssignments map).members = order.foldl (assignOne map) g.members := by
  apply Finmap.ext_lookup
  intro id
  rw [lookup_foldl_assignOne map order horder.1]
  simp only [applyAssignments, HashMap.lookup_mapVals]
  by_cases hid : id ∈ order
  · rw [if_pos hid]
  · have hnone : map.lookup id = none :=
      Finmap.lookup_eq_none.mpr fun h => hid (horder.mem_iff.mpr h)
    rw [if_neg hid]
    rcases g.members.lookup id with - | m
    · rfl
    · rw [Option.map_some, assign_of_lookup_none hnone]

end GroupMetadata

/-! ### Runs

The run records, beside the coordinator, which SyncGroup calls were applied
and which were answered; no handler reads the records. -/

/-- A leader's SyncGroup call that was applied. -/
structure AppliedSync where
  groupId : String
  generationId : Int32
  map : AssignmentMap

/-- A SyncGroup call that was answered with `Ok`. -/
structure SyncReply where
  groupId : String
  memberId : String
  generationId : Int32
  bytes : List UInt8
deriving DecidableEq

/-- One call on the coordinator. -/
inductive GroupOp
  | join (groupId memberId clientId protocolType : String) (topics : List String)
      (uuid : String) (now : SystemTime)
  | sync (groupId memberId : String) (generationId : Int32) (map : AssignmentMap)
  | heartbeat (groupId memberId : String) (generationId : Int32) (now : SystemTime)

/-- The group that a call joins. -/
def GroupOp.joins : GroupOp → Option String
  | .join gid .. => some gid
  | _ => none

/-- A coordinator with the record of its run. -/
structure GroupRun where
  coordinator : GroupCoordinator
  applied : List AppliedSync
  replies : List SyncReply

namespace GroupRun

/-- A coordinator that has not been called yet. -/
def init : GroupRun := ⟨.new, [], []⟩

/-- The group found under `groupId`. -/
def group (r : GroupRun) (groupId : String) : Option GroupMetadata :=
  r.coordinator.groups.lookup groupId

/-- The SyncGroup call is one by which the leader hands out assignments. -/
def Applies (r : GroupRun) (groupId memberId : String) (generationId : Int32) : Prop :=
  ∃ g ∈ r.group groupId, g.generationId = generationId ∧ g.LeaderSpeaks memberId

instance (r : GroupRun) (groupId memberId : String) (generationId : Int32) :
    Decidable (r.Applies groupId memberId generationId) :=
  match h : r.group groupId with
  | some g =>
      decidable_of_iff (g.generationId = generationId ∧ g.LeaderSpeaks memberId)
        (by simp [Applies, h])
  | none => .isFalse (by simp [Applies, h])

/-- The run after one more call. -/
def step (r : GroupRun) : GroupOp → GroupRun
  | .join gid mid cid pt ts uuid now =>
      { r with coordinator := (r.coordinator.handleJoinGroup gid mid cid pt ts uuid now).2 }
  | .sync gid mid gen map =>
      let (reply, c) := r.coordinator.handleSyncGroup gid mid gen map
      { coordinator := c
        applied := if r.Applies gid mid gen then r.applied ++ [⟨gid, gen, map⟩] else r.applied
        replies := match reply with
          | .ok bytes => r.replies ++ [⟨gid, mid, gen, bytes⟩]
          | .error _ => r.replies }
  | .heartbeat gid mid gen now =>
      { r with coordinator := (r.coordinator.handleHeartbeat gid mid gen now).2 }

/-- A join that opens a new generation finds room for its id. -/
def HasRoom (r : GroupRun) (op : GroupOp) : Prop :=
  ∀ gid ∈ op.joins, ∀ g ∈ r.group gid, g.state = .stable → g.generationId ≠ Int32.maxValue

instance (r : GroupRun) (op : GroupOp) : Decidable (r.HasRoom op) :=
  inferInstanceAs (Decidable (∀ gid ∈ op.joins, ∀ g ∈ r.group gid, _))

end GroupRun

/-! ### What a call does to a group -/

namespace GroupMetadata

variable (g : GroupMetadata)

/-- A join opens the next generation of an empty or stable group and keeps
the generation and the state of any other. -/
theorem join_generation (mid cid pt : String) (ts : List String) (now : SystemTime) :
    (g.state = .stable ∨ g.state = .empty) ∧
        (g.join mid cid pt ts now).state = .preparingRebalance ∧
        (g.join mid cid pt ts now).generationId = g.generationId + 1 ∨
      ¬ (g.state = .stable ∨ g.state = .empty) ∧
        (g.join mid cid pt ts now).state = g.state ∧
        (g.join mid cid pt ts now).generationId = g.generationId := by
  simp only [join]
  by_cases hl : g.leaderId.isNone = true <;> cases g.state <;> simp [hl]

theorem sync_of_speaks {mid : String} (h : g.LeaderSpeaks mid) (map : AssignmentMap) :
    g.sync mid map = { g.applyAssignments map with state := .stable } := if_pos h

theorem sync_of_not_speaks {mid : String} (h : ¬ g.LeaderSpeaks mid) (map : AssignmentMap) :
    g.sync mid map = g := if_neg h

@[simp] theorem sync_generationId (mid : String) (map : AssignmentMap) :
    (g.sync mid map).generationId = g.generationId := by
  unfold sync
  split <;> rfl

theorem mem_members_sync (mid : String) (map : AssignmentMap) (id : String) :
    id ∈ (g.sync mid map).members ↔ id ∈ g.members := by
  by_cases hs : g.LeaderSpeaks mid
  · rw [g.sync_of_speaks hs, ← Finmap.lookup_isSome, ← Finmap.lookup_isSome]
    simp [applyAssignments]
  · rw [g.sync_of_not_speaks hs]

/-- While the counter has room, the next generation has the next id. -/
theorem toInt_succ {gen : Int32} (h : gen ≠ Int32.maxValue) :
    (gen + 1).toInt = gen.toInt + 1 := by
  have hne : gen.toInt ≠ 2 ^ 31 - 1 := by
    intro hmax
    exact h (Int32.toInt_inj.mp (hmax.trans Int32.toInt_maxValue.symm))
  have hlt : gen.toInt < 2 ^ 31 := gen.toInt_lt
  have hge : -2 ^ 31 ≤ gen.toInt := gen.le_toInt
  have hone : (1 : Int32).toInt = 1 := by decide
  rw [Int32.toInt_add, hone]
  exact Int.bmod_eq_of_le (by omega) (by omega)

theorem heartbeat_of_lookup_none {mid : String} (h : g.members.lookup mid = none)
    (now : SystemTime) : g.heartbeat mid now = g := by
  simp [heartbeat, HashMap.modify, h]

/-- A heartbeat leaves every assignment as it is. -/
theorem heartbeat_assignment (mid : String) (now : SystemTime) (id : String) :
    ((g.heartbeat mid now).members.lookup id).map (·.assignment) =
      (g.members.lookup id).map (·.assignment) := by
  simp only [heartbeat, HashMap.lookup_modify]
  split
  · rw [Option.map_map]
    rfl
  · rfl

end GroupMetadata

namespace GroupRun

variable {r : GroupRun}

theorem group_setGroup (c : GroupCoordinator) (gid gid' : String) (g : GroupMetadata) :
    (c.setGroup gid g).groups.lookup gid' =
      if gid' = gid then some g else c.groups.lookup gid' :=
  HashMap.lookup_insert_eq c.groups gid gid' g

/-- The group a join works on. -/
def joined (r : GroupRun) (gid : String) : GroupMetadata :=
  (r.group gid).getD (.fresh gid)

theorem group_step_join (r : GroupRun) (gid mid cid pt : String) (ts : List String)
    (uuid : String) (now : SystemTime) (gid' : String) :
    (r.step (.join gid mid cid pt ts uuid now)).group gid' =
      if gid' = gid then
        some ((r.joined gid).join (if mid = "" then cid ++ "-" ++ uuid else mid) cid pt ts now)
      else r.group gid' :=
  group_setGroup ..

theorem group_step_sync (r : GroupRun) (gid mid : String) (gen : Int32)
    (map : AssignmentMap) (gid' : String) :
    (r.step (.sync gid mid gen map)).group gid' =
      if gid' = gid then
        (r.group gid).map fun g => if g.generationId = gen then g.sync mid map else g
      else r.group gid' := by
  simp only [step, group, GroupCoordinator.handleSyncGroup]
  rcases e : r.coordinator.groups.lookup gid with - | g
  · exact (HashMap.ite_lookup_eq e).symm
  · by_cases hgen : g.generationId = gen
    · simp only [hgen, ne_eq, not_true_eq_false, if_false, Option.map_some, if_true]
      rcases (g.sync mid map).members.lookup mid with - | m <;> exact group_setGroup ..
    · simp only [hgen, ne_eq, not_false_eq_true, if_true, Option.map_some, if_false]
      exact (HashMap.ite_lookup_eq e).symm

theorem group_step_heartbeat (r : GroupRun) (gid mid : String) (gen : Int32)
    (now : SystemTime) (gid' : String) :
    (r.step (.heartbeat gid mid gen now)).group gid' =
      if gid' = gid then
        (r.group gid).map fun g => if g.generationId = gen then g.heartbeat mid now else g
      else r.group gid' := by
  simp only [step, group, GroupCoordinator.handleHeartbeat]
  rcases e : r.coordinator.groups.lookup gid with - | g
  · exact (HashMap.ite_lookup_eq e).symm
  · by_cases hgen : g.generationId = gen
    · simp only [hgen, ne_eq, not_true_eq_false, if_false, Option.map_some, if_true]
      rcases em : g.members.lookup mid with - | m
      · rw [g.heartbeat_of_lookup_none em]
        exact (HashMap.ite_lookup_eq e).symm
      · exact group_setGroup ..
    · simp only [hgen, ne_eq, not_false_eq_true, if_true, Option.map_some, if_false]
      exact (HashMap.ite_lookup_eq e).symm

theorem applied_step_sync (gid mid : String) (gen : Int32) (map : AssignmentMap) :
    (r.step (.sync gid mid gen map)).applied =
      if r.Applies gid mid gen then r.applied ++ [⟨gid, gen, map⟩] else r.applied := rfl

theorem applies_iff {gid mid : String} {gen : Int32} {g : GroupMetadata}
    (hg : r.group gid = some g) :
    r.Applies gid mid gen ↔ g.generationId = gen ∧ g.LeaderSpeaks mid := by
  simp [Applies, hg]

/-- What a SyncGroup call does to the group it finds, by whether it is
applied. -/
theorem group_step_sync_self {gid mid : String} {gen : Int32} {map : AssignmentMap}
    {g : GroupMetadata} (hg : r.group gid = some g) :
    (r.step (.sync gid mid gen map)).group gid =
      some (if r.Applies gid mid gen then { g.applyAssignments map with state := .stable }
        else g) := by
  rw [group_step_sync, if_pos rfl, hg, Option.map_some]
  simp only [applies_iff hg]
  by_cases hgen : g.generationId = gen
  · by_cases hs : g.LeaderSpeaks mid
    · simp [hgen, hs, g.sync_of_speaks hs]
    · simp [hgen, hs, g.sync_of_not_speaks hs]
  · simp [hgen]

/-- How the group under `gid` came out of a call: the call left its state,
generation and assignments alone, or it was a join of the group, or it was
an applied SyncGroup of its leader. -/
inductive Evolution (r : GroupRun) (op : GroupOp) (gid : String) (g' : GroupMetadata) : Prop
  | kept (g : GroupMetadata) (before : r.group gid = some g)
      (state_eq : g'.state = g.state) (generation_eq : g'.generationId = g.generationId)
      (assignment_eq : ∀ id, (g'.members.lookup id).map (·.assignment) =
        (g.members.lookup id).map (·.assignment))
      (applied_iff : ∀ a, a.groupId = gid → (a ∈ (r.step op).applied ↔ a ∈ r.applied))
  | joined (mid cid pt : String) (ts : List String) (now : SystemTime)
      (call : gid ∈ op.joins) (after : g' = (r.joined gid).join mid cid pt ts now)
      (applied_eq : (r.step op).applied = r.applied)
  | synced (g : GroupMetadata) (mid : String) (gen : Int32) (map : AssignmentMap)
      (call : op = .sync gid mid gen map) (before : r.group gid = some g)
      (speaks : g.LeaderSpeaks mid) (generation_eq : g.generationId = gen)
      (after : g' = { g.applyAssignments map with state := .stable })
      (applied_eq : (r.step op).applied = r.applied ++ [⟨gid, gen, map⟩])

theorem Evolution.of_step {op : GroupOp} {gid : String} {g' : GroupMetadata}
    (h : (r.step op).group gid = some g') : Evolution r op gid g' := by
  -- a group the call does not name is kept
  have other : ∀ gid₀, gid ≠ gid₀ → (r.step op).group gid = r.group gid →
      (∀ a, a.groupId ≠ gid₀ → (a ∈ (r.step op).applied ↔ a ∈ r.applied)) →
      Evolution r op gid g' := by
    intro gid₀ hne hsame happ
    refine .kept g' (hsame ▸ h) rfl rfl (fun _ => rfl) ?_
    rintro a rfl
    exact happ a hne
  cases op with
  | join gid₀ mid cid pt ts uuid now =>
      have hstep := group_step_join r gid₀ mid cid pt ts uuid now gid
      by_cases hgid : gid = gid₀
      · subst hgid
        rw [hstep, if_pos rfl, Option.some.injEq] at h
        exact .joined _ cid pt ts now rfl h.symm rfl
      · rw [if_neg hgid] at hstep
        exact other gid₀ hgid hstep fun _ _ => Iff.rfl
  | sync gid₀ mid gen map =>
      by_cases hgid : gid = gid₀
      · subst hgid
        rcases e : r.group gid with - | g
        · rw [group_step_sync, if_pos rfl, e] at h
          cases h
        · rw [group_step_sync_self e, Option.some.injEq] at h
          by_cases happ : r.Applies gid mid gen
          · obtain ⟨hgen, hs⟩ := (applies_iff e).mp happ
            rw [if_pos happ] at h
            exact .synced g mid gen map rfl e hs hgen h.symm
              (by rw [applied_step_sync, if_pos happ])
          · rw [if_neg happ] at h
            subst h
            refine .kept g e rfl rfl (fun _ => rfl) fun a _ => ?_
            rw [applied_step_sync, if_neg happ]
      · have hstep := group_step_sync r gid₀ mid gen map gid
        rw [if_neg hgid] at hstep
        apply other gid₀ hgid hstep
        intro a ha
        rw [applied_step_sync]
        split
        · rw [List.mem_append, List.mem_singleton]
          exact or_iff_left fun h => ha (by rw [h])
        · rfl
  | heartbeat gid₀ mid gen now =>
      have hstep := group_step_heartbeat r gid₀ mid gen now gid
      by_cases hgid : gid = gid₀
      · subst hgid
        rw [hstep, if_pos rfl, Option.map_eq_some_iff] at h
        obtain ⟨g, hg, h⟩ := h
        split at h
        · subst h
          exact .kept g hg rfl rfl (g.heartbeat_assignment mid now) fun _ _ => Iff.rfl
        · subst h
          exact .kept g hg rfl rfl (fun _ => rfl) fun _ _ => Iff.rfl
      · rw [if_neg hgid] at hstep
        exact other gid₀ hgid hstep fun _ _ => Iff.rfl

/-- Groups are never dropped. -/
theorem group_step_isSome {gid : String} (h : (r.group gid).isSome) (op : GroupOp) :
    ((r.step op).group gid).isSome := by
  cases op with
  | join gid₀ mid cid pt ts uuid now =>
      rw [group_step_join]
      split
      · rfl
      · exact h
  | sync gid₀ mid gen map =>
      rw [group_step_sync]
      split
      · subst_vars
        rwa [Option.isSome_map]
      · exact h
  | heartbeat gid₀ mid gen now =>
      rw [group_step_heartbeat]
      split
      · subst_vars
        rwa [Option.isSome_map]
      · exact h

/-- A new record names a known group. -/
theorem mem_applied_step {op : GroupOp} {a : AppliedSync} (ha : a ∈ (r.step op).applied) :
    a ∈ r.applied ∨ (r.group a.groupId).isSome := by
  cases op with
  | join => exact .inl ha
  | heartbeat => exact .inl ha
  | sync gid mid gen map =>
      rw [applied_step_sync] at ha
      by_cases happ : r.Applies gid mid gen
      · rw [if_pos happ] at ha
        rcases List.mem_append.mp ha with hold | hnew
        · exact .inl hold
        · obtain ⟨g, hg, -⟩ := happ
          obtain rfl := List.mem_singleton.mp hnew
          exact .inr (Option.isSome_of_mem hg)
      · rw [if_neg happ] at ha
        exact .inl ha

/-! ### The generations of a run -/

/-- What every run keeps: a group is preparing or stable; an applied
SyncGroup belongs to a known group and to a generation it has reached, one
before the current if the group is preparing; and a stable group has heard
its leader in the current generation. -/
structure Coherent (r : GroupRun) : Prop where
  state : ∀ gid g, r.group gid = some g →
    g.state = .preparingRebalance ∨ g.state = .stable
  known : ∀ a ∈ r.applied, (r.group a.groupId).isSome
  reached : ∀ a ∈ r.applied, ∀ g, r.group a.groupId = some g →
    a.generationId.toInt ≤ g.generationId.toInt ∧
      (g.state = .preparingRebalance → a.generationId.toInt < g.generationId.toInt)
  spoken : ∀ gid g, r.group gid = some g → g.state = .stable →
    ∃ a ∈ r.applied, a.groupId = gid ∧ a.generationId = g.generationId

theorem init_group (gid : String) : init.group gid = none := rfl

theorem coherent_init : init.Coherent where
  state := by
    intro gid g hg
    rw [init_group] at hg
    cases hg
  known := by
    intro a ha
    cases ha
  reached := by
    intro a ha
    cases ha
  spoken := by
    intro gid g hg
    rw [init_group] at hg
    cases hg

/-- A group in which a join opens a new generation is stable. -/
theorem Coherent.stable_of_open (hr : r.Coherent) {gid : String} {g : GroupMetadata}
    (hg : r.group gid = some g) (hopen : g.state = .stable ∨ g.state = .empty) :
    g.state = .stable := by
  rcases hr.state gid g hg with h | h
  · rw [h] at hopen
    rcases hopen with h | h <;> cases h
  · exact h

/-- The group after a join waits for its leader, and no applied SyncGroup is
as recent as its generation. -/
theorem Coherent.joined (hr : r.Coherent) {op : GroupOp} (hroom : r.HasRoom op)
    {gid mid cid pt : String} {ts : List String} {now : SystemTime} {g' : GroupMetadata}
    (hcall : gid ∈ op.joins) (hg' : g' = (r.joined gid).join mid cid pt ts now) :
    g'.state = .preparingRebalance ∧
      ∀ a ∈ r.applied, a.groupId = gid → a.generationId.toInt < g'.generationId.toInt := by
  have hjoin := (r.joined gid).join_generation mid cid pt ts now
  rw [← hg'] at hjoin
  rcases e : r.group gid with - | g
  · -- a new group: no SyncGroup of it has been applied
    have hfresh : r.joined gid = .fresh gid := by simp [GroupRun.joined, e]
    rcases hjoin with ⟨-, hs, -⟩ | ⟨hne, -⟩
    · refine ⟨hs, ?_⟩
      rintro a ha rfl
      have := hr.known a ha
      rw [e] at this
      cases this
    · exact absurd (.inr (by rw [hfresh]; rfl)) hne
  · have hgj : r.joined gid = g := by simp [GroupRun.joined, e]
    rw [hgj] at hjoin
    have hreach : ∀ a ∈ r.applied, a.groupId = gid →
        a.generationId.toInt ≤ g.generationId.toInt ∧
          (g.state = .preparingRebalance →
            a.generationId.toInt < g.generationId.toInt) := by
      rintro a ha rfl
      exact hr.reached a ha g e
    rcases hjoin with ⟨hopen, hs, hgen⟩ | ⟨hne, hs, hgen⟩
    · -- the join opens the next generation
      have hsucc := GroupMetadata.toInt_succ (hroom gid hcall g e (hr.stable_of_open e hopen))
      refine ⟨hs, fun a ha hgid => ?_⟩
      have := (hreach a ha hgid).1
      rw [hgen, hsucc]
      omega
    · -- the group is waiting for its leader already
      have hprep : g.state = .preparingRebalance := by
        rcases hr.state gid g e with h | h
        · exact h
        · exact absurd (.inl h) hne
      refine ⟨hs.trans hprep, fun a ha hgid => ?_⟩
      rw [hgen]
      exact (hreach a ha hgid).2 hprep

theorem Coherent.step (hr : r.Coherent) {op : GroupOp} (hroom : r.HasRoom op) :
    (r.step op).Coherent where
  state := by
    intro gid g' hg'
    cases Evolution.of_step hg' with
    | kept g before hs _ _ _ =>
        rw [hs]
        exact hr.state gid g before
    | joined mid cid pt ts now call after _ => exact .inl (hr.joined hroom call after).1
    | synced g mid gen map _ _ _ _ after _ =>
        subst after
        exact .inr rfl
  known := by
    intro a ha
    rcases mem_applied_step ha with hold | hsome
    · exact group_step_isSome (hr.known a hold) op
    · exact group_step_isSome hsome op
  reached := by
    intro a ha g' hg'
    cases Evolution.of_step hg' with
    | kept g before hs hgen _ happ =>
        rw [hs, hgen]
        exact hr.reached a ((happ a rfl).mp ha) g before
    | joined mid cid pt ts now call after happ =>
        rw [happ] at ha
        have := (hr.joined hroom call after).2 a ha rfl
        exact ⟨this.le, fun _ => this⟩
    | synced g mid gen map _ before hs hgen after happ =>
        subst after
        rw [happ] at ha
        refine ⟨?_, fun h => by cases h⟩
        rcases List.mem_append.mp ha with ha | ha
        · exact (hr.reached a ha g before).1
        · rw [List.mem_singleton.mp ha]
          exact (congrArg Int32.toInt hgen).ge
  spoken := by
    intro gid g' hg' hstable
    cases Evolution.of_step hg' with
    | kept g before hs hgen _ happ =>
        obtain ⟨a, ha, hgid, hag⟩ := hr.spoken gid g before (hs ▸ hstable)
        exact ⟨a, (happ a hgid).mpr ha, hgid, hag.trans hgen.symm⟩
    | joined mid cid pt ts now call after _ =>
        have := (hr.joined hroom call after).1
        rw [hstable] at this
        cases this
    | synced g mid gen map _ _ _ hgen after happ =>
        subst after
        refine ⟨⟨gid, gen, map⟩, ?_, rfl, hgen.symm⟩
        rw [happ]
        exact List.mem_append_right _ (List.mem_singleton.mpr rfl)

end GroupRun

/-! ### A stable generation carries its leader's map -/

/-- Every member of the group holds the bytes the map gives for it, and no
bytes if the map omits it. -/
def GroupMetadata.Carries (g : GroupMetadata) (map : AssignmentMap) : Prop :=
  ∀ id m, g.members.lookup id = some m → m.assignment = (map.lookup id).getD []

theorem GroupMetadata.Carries.congr {g g' : GroupMetadata} {map : AssignmentMap}
    (h : g.Carries map)
    (heq : ∀ id, (g'.members.lookup id).map (·.assignment) =
      (g.members.lookup id).map (·.assignment)) : g'.Carries map := by
  intro id m' hm'
  have hid := heq id
  rw [hm', Option.map_some, eq_comm, Option.map_eq_some_iff] at hid
  obtain ⟨m, hm, hma⟩ := hid
  rw [← hma]
  exact h id m hm

namespace GroupRun

variable {r : GroupRun}

/-- Every stable group carries the map its leader synced for its generation. -/
def AssignedByLeader (r : GroupRun) : Prop :=
  ∀ gid g, r.group gid = some g → g.state = .stable →
    (∃ a ∈ r.applied, a.groupId = gid ∧ a.generationId = g.generationId) ∧
      ∀ a ∈ r.applied, a.groupId = gid → a.generationId = g.generationId → g.Carries a.map

/-- A SyncGroup call that hands out assignments covers the members that still
hold one: a member its map omits holds none. -/
def CoversAssigned (r : GroupRun) : GroupOp → Prop
  | .sync gid mid gen map =>
      ∀ g, r.group gid = some g → g.generationId = gen → g.LeaderSpeaks mid →
        ∀ id m, g.members.lookup id = some m → map.lookup id = none → m.assignment = []
  | _ => True

instance (r : GroupRun) : (op : GroupOp) → Decidable (r.CoversAssigned op)
  | .sync gid mid gen map =>
      decidable_of_iff (∀ g ∈ r.group gid, g.generationId = gen → g.LeaderSpeaks mid →
          ¬ Finmap.any (fun id m => decide (map.lookup id = none ∧ m.assignment ≠ []))
            g.members = true) <| by
        simp only [HashMap.any_eq_true, decide_eq_true_iff, CoversAssigned, Option.mem_def,
          not_exists, not_and, not_not]
  | .join .. => .isTrue trivial
  | .heartbeat .. => .isTrue trivial

theorem carries_applyAssignments_iff (g : GroupMetadata) (map : AssignmentMap) :
    (g.applyAssignments map).Carries map ↔
      ∀ id m, g.members.lookup id = some m → map.lookup id = none → m.assignment = [] := by
  simp only [GroupMetadata.Carries, GroupMetadata.applyAssignments,
    HashMap.lookup_mapVals, Option.map_eq_some_iff]
  constructor
  · intro h id m hm hnone
    have := h id _ ⟨m, hm, rfl⟩
    rwa [GroupMetadata.assign_of_lookup_none hnone, hnone] at this
  · rintro h id _ ⟨m, hm, rfl⟩
    rcases e : map.lookup id with - | bytes
    · rw [GroupMetadata.assign_of_lookup_none e]
      exact h id m hm e
    · simp [GroupMetadata.assign, e]

/-- An applied SyncGroup is the only one of its generation. -/
theorem Coherent.not_applied (hr : r.Coherent) {gid mid : String} {g : GroupMetadata}
    (hg : r.group gid = some g) (hs : g.LeaderSpeaks mid) {a : AppliedSync}
    (ha : a ∈ r.applied) (hgid : a.groupId = gid) : a.generationId ≠ g.generationId := by
  subst hgid
  intro heq
  exact ((hr.reached a ha g hg).2 hs.1).ne (congrArg Int32.toInt heq)

theorem assignedByLeader_step_iff (hr : r.Coherent) {op : GroupOp} (hroom : r.HasRoom op)
    (h : r.AssignedByLeader) : (r.step op).AssignedByLeader ↔ r.CoversAssigned op := by
  constructor
  · intro h'
    cases op with
    | join => trivial
    | heartbeat => trivial
    | sync gid mid gen map =>
        intro g hg hgen hs
        have happ : r.Applies gid mid gen := (applies_iff hg).mpr ⟨hgen, hs⟩
        have hg' : (r.step (.sync gid mid gen map)).group gid = _ := group_step_sync_self hg
        rw [if_pos happ] at hg'
        have hcarries := (h' gid _ hg' rfl).2 ⟨gid, gen, map⟩
          (by rw [applied_step_sync, if_pos happ]; simp) rfl hgen.symm
        exact (carries_applyAssignments_iff g map).mp hcarries
  · intro hcov gid g' hg' hstable
    refine ⟨(hr.step hroom).spoken gid g' hg' hstable, ?_⟩
    intro a ha hgid hgena
    cases Evolution.of_step hg' with
    | kept g before hs hgen hassign happ =>
        -- neither the assignments nor the applied maps have changed
        refine GroupMetadata.Carries.congr ?_ hassign
        exact (h gid g before (hs ▸ hstable)).2 a ((happ a hgid).mp ha) hgid
          (hgena.trans hgen)
    | joined mid cid pt ts now call after _ =>
        have := (hr.joined hroom call after).1
        rw [hstable] at this
        cases this
    | synced g mid gen map call before hs hgen after happ =>
        subst call after
        rw [happ] at ha
        -- the map is the one just applied: no earlier one is of this generation
        rcases List.mem_append.mp ha with ha | ha
        · exact absurd hgena (hr.not_applied before hs ha hgid)
        · rw [List.mem_singleton.mp ha]
          exact (carries_applyAssignments_iff g map).mpr (hcov g before hgen hs)

theorem init_assignedByLeader : init.AssignedByLeader := by
  intro gid g hg
  rw [init_group] at hg
  cases hg

/-- The partitions `parts` reads from the bytes of different ids are
disjoint. -/
def DisjointBy (parts : List UInt8 → Set Int32) (bytes : String → Option (List UInt8)) :
    Prop :=
  ∀ id id' b b', id ≠ id' → bytes id = some b → bytes id' = some b' →
    ∀ p ∈ parts b, p ∉ parts b'

/-- Members of a group that carries a disjoint map hold disjoint partitions;
a member the map omits holds none. -/
theorem disjointBy_of_carries {g : GroupMetadata} {map : AssignmentMap}
    (h : g.Carries map) {parts : List UInt8 → Set Int32} (hnil : parts [] = ∅)
    (hmap : DisjointBy parts fun id => map.lookup id) :
    DisjointBy parts fun id => (g.members.lookup id).map (·.assignment) := by
  intro id id' b b' hne hb hb'
  obtain ⟨m, hm, rfl⟩ := Option.map_eq_some_iff.mp hb
  obtain ⟨m', hm', rfl⟩ := Option.map_eq_some_iff.mp hb'
  rw [h id m hm, h id' m' hm']
  -- an omitted member holds no partition
  rcases e : map.lookup id with - | b
  · simp [hnil]
  · rcases e' : map.lookup id' with - | b'
    · simp [hnil]
    · exact hmap id id' b b' hne e e'

/-- **A stable generation carries its leader's map, exactly when the maps
cover what is still held.**  In a run all of whose applied SyncGroup calls
cover the members that still hold an assignment, every stable group carries
its generation's map, so disjoint maps give disjoint partitions; in any
other run some stable group does not carry its map. -/
theorem stable_assignment_iff (ops : List GroupOp) (hroom : Along step HasRoom init ops) :
    (Always step AssignedByLeader init ops ↔ Along step CoversAssigned init ops) ∧
      (Along step CoversAssigned init ops →
        ∀ parts : List UInt8 → Set Int32, parts [] = ∅ →
          (∀ a ∈ (ops.foldl step init).applied, DisjointBy parts fun id => a.map.lookup id) →
          ∀ gid g, (ops.foldl step init).group gid = some g → g.state = .stable →
            DisjointBy parts fun id => (g.members.lookup id).map (·.assignment)) := by
  have hiff : Always step AssignedByLeader init ops ↔ Along step CoversAssigned init ops :=
    always_iff_along hroom coherent_init init_assignedByLeader (fun _ _ hr hop => hr.step hop)
      (fun _ _ hr hop h => assignedByLeader_step_iff hr hop h)
  refine ⟨hiff, ?_⟩
  intro hcov parts hnil hdisj gid g hg hstable
  obtain ⟨⟨a, ha, hgid, hgen⟩, hcarries⟩ := (hiff.mpr hcov).last gid g hg hstable
  exact disjointBy_of_carries (hcarries a ha hgid hgen) hnil (hdisj a ha)

/-- The map with the given entries. -/
def mapOf (l : List (String × List UInt8)) : AssignmentMap :=
  l.foldl (fun m p => m.insert p.1 p.2) ∅

/-- The bytes the run holds for member `id` of group `gid`. -/
def heldBytes (r : GroupRun) (gid id : String) : Option (List UInt8) :=
  (r.group gid).bind fun g => (g.members.lookup id).map (·.assignment)

/-- Two generations of a group.  In each the followers sync after the leader, and the
second map gives the partition of `a` to `b`, and another one to `a`. -/
def handoverRun : List GroupOp :=
  [.join "g" "l" "c" "consumer" [] "" .unixEpoch,
   .join "g" "a" "c" "consumer" [] "" .unixEpoch,
   .sync "g" "l" 1 (mapOf [("l", [1]), ("a", [0])]),
   .sync "g" "a" 1 ∅,
   .join "g" "b" "c" "consumer" [] "" .unixEpoch,
   .sync "g" "l" 2 (mapOf [("l", [1]), ("a", [2]), ("b", [0])]),
   .sync "g" "b" 2 ∅,
   .sync "g" "a" 2 ∅]

/-- `stable_assignment_iff` at `handoverRun`. -/
theorem handoverRun_assigned :
    Along step HasRoom init handoverRun ∧ Always step AssignedByLeader init handoverRun ∧
      heldBytes (handoverRun.foldl step init) "g" "a" = some [2] ∧
      heldBytes (handoverRun.foldl step init) "g" "b" = some [0] := by
  have hroom : Along step HasRoom init handoverRun := by decide
  have hcovers : Along step CoversAssigned init handoverRun := by decide +kernel
  exact ⟨hroom, (stable_assignment_iff handoverRun hroom).1.mpr hcovers, by decide, by decide⟩

/-- Two generations of a group: `a` is assigned partition 0 in the first and
does not rejoin; the second gives partition 0 to `b`. -/
def staleRun : List GroupOp :=
  [.join "g" "l" "c" "consumer" [] "" .unixEpoch,
   .join "g" "a" "c" "consumer" [] "" .unixEpoch,
   .sync "g" "l" 1 (mapOf [("l", [1]), ("a", [0])]),
   .join "g" "b" "c" "consumer" [] "" .unixEpoch,
   .sync "g" "l" 2 (mapOf [("l", [1]), ("b", [0])])]

/-- After `staleRun` the group is stable, its map omits `a`, and `a` still
holds partition 0 beside `b`. -/
theorem stale_assignment_survives :
    heldBytes (staleRun.foldl step init) "g" "a" = some [0] ∧
      heldBytes (staleRun.foldl step init) "g" "b" = some [0] ∧
      ¬ ∀ ops, Always step AssignedByLeader init ops := by
  have hheld : heldBytes (staleRun.foldl step init) "g" "a" = some [0] := by decide
  refine ⟨hheld, by decide, fun h => ?_⟩
  have hstate : ((staleRun.foldl step init).group "g").map
      (fun g => (g.state, g.generationId)) = some (.stable, 2) := by decide
  obtain ⟨g, hg, hg2⟩ := Option.map_eq_some_iff.mp hstate
  obtain ⟨hs, hgen⟩ := Prod.mk.inj hg2
  have hmem : (⟨"g", 2, mapOf [("l", [1]), ("b", [0])]⟩ : AppliedSync) ∈
      (staleRun.foldl step init).applied := List.mem_of_getElem? (i := 1) rfl
  have hcarries := ((h staleRun).last "g" g hg hs).2 _ hmem rfl hgen.symm
  rw [heldBytes, hg, Option.bind_some, Option.map_eq_some_iff] at hheld
  obtain ⟨m, hm, hbytes⟩ := hheld
  have hnone : (mapOf [("l", [1]), ("b", [0])]).lookup "a" = none := by decide
  have := hcarries "a" m hm
  rw [hbytes, hnone] at this
  cases this

/-! ### SyncGroup answers after the leader -/

/-- Every answered SyncGroup call is of a generation whose leader has spoken. -/
def AnsweredAfterLeader (r : GroupRun) : Prop :=
  ∀ y ∈ r.replies, ∃ a ∈ r.applied,
    a.groupId = y.groupId ∧ a.generationId = y.generationId

/-- Two answers to the same member for the same generation are equal. -/
def SameAnswers (r : GroupRun) : Prop :=
  ∀ y ∈ r.replies, ∀ y' ∈ r.replies, y'.groupId = y.groupId →
    y'.memberId = y.memberId → y'.generationId = y.generationId → y'.bytes = y.bytes

/-- No member other than the leader syncs while its group waits for the
leader. -/
def NoEarlySync (r : GroupRun) : GroupOp → Prop
  | .sync gid mid gen _ =>
      ∀ g, r.group gid = some g → g.generationId = gen → mid ∈ g.members →
        g.state = .preparingRebalance → g.leaderId = some mid
  | _ => True

instance (r : GroupRun) : (op : GroupOp) → Decidable (r.NoEarlySync op)
  | .sync gid mid gen _ =>
      inferInstanceAs (Decidable (∀ g ∈ r.group gid, g.generationId = gen → mid ∈ g.members →
        g.state = .preparingRebalance → g.leaderId = some mid))
  | .join .. => .isTrue trivial
  | .heartbeat .. => .isTrue trivial

/-- The answers of the current generation are what its members hold. -/
def AnswersHeld (r : GroupRun) : Prop :=
  ∀ y ∈ r.replies, ∃ g, r.group y.groupId = some g ∧
    y.generationId.toInt ≤ g.generationId.toInt ∧
    (y.generationId = g.generationId → g.state = .stable ∧
      (g.members.lookup y.memberId).map (·.assignment) = some y.bytes)

/-- A SyncGroup call of the group's generation is answered with what the
group holds for the member after it. -/
theorem replies_step_sync_of_lookup {gid mid : String} {map : AssignmentMap}
    {g : GroupMetadata} {m : MemberMetadata} (hg : r.group gid = some g)
    (hm : (g.sync mid map).members.lookup mid = some m) :
    (r.step (.sync gid mid g.generationId map)).replies =
      r.replies ++ [⟨gid, mid, g.generationId, m.assignment⟩] := by
  have hg' : r.coordinator.groups.lookup gid = some g := hg
  simp [step, GroupCoordinator.handleSyncGroup, hg', hm]

/-- A new answer comes from a SyncGroup call of the current generation by a
member. -/
theorem replies_step_cases {op : GroupOp} {y : SyncReply} (hy : y ∈ (r.step op).replies) :
    y ∈ r.replies ∨
      ∃ g map, op = .sync y.groupId y.memberId y.generationId map ∧
        r.group y.groupId = some g ∧ g.generationId = y.generationId ∧
        y.memberId ∈ g.members ∧
        ((g.sync y.memberId map).members.lookup y.memberId).map (·.assignment) =
          some y.bytes := by
  cases op with
  | join => exact .inl hy
  | heartbeat => exact .inl hy
  | sync gid mid gen map =>
      rcases e : r.group gid with - | g
      · left
        have e' : r.coordinator.groups.lookup gid = none := e
        simpa only [step, GroupCoordinator.handleSyncGroup, e'] using hy
      · have e' : r.coordinator.groups.lookup gid = some g := e
        by_cases hgen : g.generationId = gen
        · rcases em : (g.sync mid map).members.lookup mid with - | m
          · left
            simpa [step, GroupCoordinator.handleSyncGroup, e', hgen, em] using hy
          · subst hgen
            rw [replies_step_sync_of_lookup e em, List.mem_append, List.mem_singleton] at hy
            rcases hy with hy | rfl
            · exact .inl hy
            · refine .inr ⟨g, map, rfl, e, rfl, ?_, by rw [em]; rfl⟩
              exact (g.mem_members_sync mid map mid).mp (Finmap.mem_of_lookup_eq_some em)
        · left
          simpa [step, GroupCoordinator.handleSyncGroup, e', hgen] using hy

theorem applied_step_subset (op : GroupOp) {a : AppliedSync} (ha : a ∈ r.applied) :
    a ∈ (r.step op).applied := by
  cases op with
  | join => exact ha
  | heartbeat => exact ha
  | sync gid mid gen map =>
      rw [applied_step_sync]
      split
      · exact List.mem_append_left _ ha
      · exact ha

/-- An answer given before the call is still what the member holds, or has
become one of an earlier generation. -/
theorem AnswersHeld.old (h : r.AnswersHeld) (hr : r.Coherent) {op : GroupOp}
    (hroom : r.HasRoom op) {y : SyncReply} (hy : y ∈ r.replies) :
    ∃ g, (r.step op).group y.groupId = some g ∧
      y.generationId.toInt ≤ g.generationId.toInt ∧
      (y.generationId = g.generationId → g.state = .stable ∧
        (g.members.lookup y.memberId).map (·.assignment) = some y.bytes) := by
  obtain ⟨g, hg, hle, hcur⟩ := h y hy
  have hsome := group_step_isSome (by rw [hg]; rfl) op
  obtain ⟨g', hg'⟩ := Option.isSome_iff_exists.mp hsome
  refine ⟨g', hg', ?_⟩
  cases Evolution.of_step hg' with
  | kept g₁ before hs hgen hassign _ =>
      obtain rfl : g = g₁ := Option.some.inj (hg.symm.trans before)
      rw [hs, hgen, hassign]
      exact ⟨hle, hcur⟩
  | joined mid cid pt ts now call after _ =>
      have hgj : r.joined y.groupId = g := by simp [joined, hg]
      have hjoin := g.join_generation mid cid pt ts now
      rw [hgj] at after
      rw [← after] at hjoin
      rcases hjoin with ⟨hopen, -, hgen⟩ | ⟨hne, -, hgen⟩
      · -- a new generation makes the answer an old one
        have hsucc := GroupMetadata.toInt_succ (hroom _ call g hg (hr.stable_of_open hg hopen))
        rw [hgen, hsucc]
        refine ⟨by omega, fun heq => ?_⟩
        have := congrArg Int32.toInt heq
        omega
      · rw [hgen]
        exact ⟨hle, fun heq => absurd (.inl (hcur heq).1) hne⟩
  | synced g₁ mid gen map _ before hs _ after _ =>
      obtain rfl : g = g₁ := Option.some.inj (hg.symm.trans before)
      subst after
      -- the leader speaks while the group waits, so there is no current answer yet
      refine ⟨hle, fun heq => ?_⟩
      have hstable := (hcur heq).1
      rw [hs.1] at hstable
      cases hstable

theorem AnswersHeld.step (h : r.AnswersHeld) (hr : r.Coherent) {op : GroupOp}
    (hroom : r.HasRoom op) (hop : r.NoEarlySync op) : (r.step op).AnswersHeld := by
  intro y hy
  rcases replies_step_cases hy with hy | ⟨g, map, rfl, hg, hgen, hmem, hbytes⟩
  · exact h.old hr hroom hy
  · have hg' := group_step_sync r y.groupId y.memberId y.generationId map y.groupId
    rw [if_pos rfl, hg, Option.map_some, if_pos hgen] at hg'
    refine ⟨_, hg', by rw [g.sync_generationId, hgen], fun _ => ⟨?_, hbytes⟩⟩
    rcases hr.state y.groupId g hg with hprep | hstable
    · -- the one who syncs while the group waits is the leader
      have hs : g.LeaderSpeaks y.memberId := ⟨hprep, hop g hg hgen hmem hprep⟩
      rw [g.sync_of_speaks hs]
    · have hs : ¬ g.LeaderSpeaks y.memberId := by
        rintro ⟨hprep, -⟩
        rw [hstable] at hprep
        cases hprep
      rwa [g.sync_of_not_speaks hs]

/-- The three facts about answers that a run without early syncs keeps. -/
structure Answered (r : GroupRun) : Prop where
  coherent : r.Coherent
  afterLeader : r.AnsweredAfterLeader
  same : r.SameAnswers
  held : r.AnswersHeld

theorem Answered.step (h : r.Answered) {op : GroupOp} (hroom : r.HasRoom op)
    (hop : r.NoEarlySync op) : (r.step op).Answered := by
  have hheld := h.held.step h.coherent hroom hop
  have hcoherent := h.coherent.step hroom
  -- an answer given by this very call is current
  have hnew : ∀ y ∈ (r.step op).replies, y ∈ r.replies ∨
      ∃ g, (r.step op).group y.groupId = some g ∧ y.generationId = g.generationId := by
    intro y hy
    rcases replies_step_cases hy with hy' | ⟨g, map, rfl, hg, hgen, -⟩
    · exact .inl hy'
    · have hg' := group_step_sync r y.groupId y.memberId y.generationId map y.groupId
      rw [if_pos rfl, hg, Option.map_some, if_pos hgen] at hg'
      exact .inr ⟨_, hg', by rw [g.sync_generationId, hgen]⟩
  refine ⟨hcoherent, ?_, ?_, hheld⟩
  · intro y hy
    rcases hnew y hy with hold | ⟨g, hg, hgen⟩
    · obtain ⟨a, ha, heq⟩ := h.afterLeader y hold
      exact ⟨a, applied_step_subset op ha, heq⟩
    · obtain ⟨g₁, hg₁, -, hcur⟩ := hheld y hy
      obtain rfl : g = g₁ := Option.some.inj (hg.symm.trans hg₁)
      obtain ⟨a, ha, hgid, hag⟩ := hcoherent.spoken y.groupId g hg (hcur hgen).1
      exact ⟨a, ha, hgid, hag.trans hgen.symm⟩
  · -- if one of two answers is current, both are what the member holds
    have current : ∀ y ∈ (r.step op).replies, ∀ y' ∈ (r.step op).replies,
        y'.groupId = y.groupId → y'.memberId = y.memberId →
        y'.generationId = y.generationId →
        (∃ g, (r.step op).group y.groupId = some g ∧ y.generationId = g.generationId) →
        y'.bytes = y.bytes := by
      rintro y hy y' hy' hgid hmid hgen ⟨g, hg, hcurrent⟩
      obtain ⟨g₁, hg₁, -, hcur⟩ := hheld y hy
      obtain rfl : g = g₁ := Option.some.inj (hg.symm.trans hg₁)
      obtain ⟨g₂, hg₂, -, hcur'⟩ := hheld y' hy'
      rw [hgid] at hg₂
      obtain rfl : g = g₂ := Option.some.inj (hg.symm.trans hg₂)
      have h₁ := (hcur hcurrent).2
      have h₂ := (hcur' (hgen.trans hcurrent)).2
      rw [hmid, h₁] at h₂
      exact (Option.some.inj h₂).symm
    intro y hy y' hy' hgid hmid hgen
    rcases hnew y hy with hold | hcur
    · rcases hnew y' hy' with hold' | hcur'
      · exact h.same y hold y' hold' hgid hmid hgen
      · exact (current y' hy' y hy hgid.symm hmid.symm hgen.symm hcur').symm
    · exact current y hy y' hy' hgid hmid hgen hcur

theorem answered_init : init.Answered where
  coherent := coherent_init
  afterLeader := by
    intro y hy
    cases hy
  same := by
    intro y hy
    cases hy
  held := by
    intro y hy
    cases hy

/-- An early sync is answered although the leader has not spoken. -/
theorem noEarlySync_of_answered (hr : r.Coherent) {op : GroupOp}
    (h : (r.step op).AnsweredAfterLeader) : r.NoEarlySync op := by
  cases op with
  | join => trivial
  | heartbeat => trivial
  | sync gid mid gen map =>
      rintro g hg rfl hmem hprep
      by_contra hlead
      -- the call is answered and not applied
      have hs : ¬ g.LeaderSpeaks mid := fun hs => hlead hs.2
      have happ : ¬ r.Applies gid mid g.generationId := fun h =>
        hs ((applies_iff hg).mp h).2
      obtain ⟨m, hm⟩ := Finmap.mem_iff.mp hmem
      have hreply : (r.step (.sync gid mid g.generationId map)).replies = _ :=
        replies_step_sync_of_lookup hg (by rw [g.sync_of_not_speaks hs]; exact hm)
      obtain ⟨a, ha, hgid, hgen⟩ := h ⟨gid, mid, g.generationId, m.assignment⟩
        (by rw [hreply]; exact List.mem_append_right _ (List.mem_singleton.mpr rfl))
      rw [applied_step_sync, if_neg happ] at ha
      have hg₁ : r.group a.groupId = some g := by rw [hgid, hg]
      exact ((hr.reached a ha g hg₁).2 hprep).ne (congrArg Int32.toInt hgen)

/-- **SyncGroup answers after the leader and consistently, exactly when no
follower syncs early.** -/
theorem sync_answers_iff (ops : List GroupOp) (hroom : Along step HasRoom init ops) :
    Always step (fun r => r.AnsweredAfterLeader ∧ r.SameAnswers) init ops ↔
      Along step NoEarlySync init ops := by
  constructor
  · intro h
    exact Along.of_always hroom coherent_init h (fun _ _ hr hop => hr.step hop)
      (fun _ _ hr h => noEarlySync_of_answered hr h.1)
  · intro h
    refine (Always.of_along answered_init (hroom.and h)
      fun _ _ hr hop => hr.step hop.1 hop.2).mono ?_
    intro r hr
    exact ⟨hr.afterLeader, hr.same⟩

/-- `sync_answers_iff` at `handoverRun`. -/
theorem handoverRun_answered :
    Along step HasRoom init handoverRun ∧
      Always step (fun r => r.AnsweredAfterLeader ∧ r.SameAnswers) init handoverRun ∧
      (handoverRun.foldl step init).replies =
        [⟨"g", "l", 1, [1]⟩, ⟨"g", "a", 1, [0]⟩, ⟨"g", "l", 2, [1]⟩, ⟨"g", "b", 2, [0]⟩,
          ⟨"g", "a", 2, [2]⟩] := by
  have hroom : Along step HasRoom init handoverRun := by decide
  have hlate : Along step NoEarlySync init handoverRun := by decide +kernel
  exact ⟨hroom, (sync_answers_iff handoverRun hroom).mpr hlate, by decide⟩

/-- A follower that syncs before its leader: it is answered with no bytes,
and after the leader has spoken with partition 0, both for generation 1. -/
def earlyRun : List GroupOp :=
  [.join "g" "l" "c" "consumer" [] "" .unixEpoch,
   .join "g" "a" "c" "consumer" [] "" .unixEpoch,
   .sync "g" "a" 1 ∅,
   .sync "g" "l" 1 (mapOf [("l", [1]), ("a", [0])]),
   .sync "g" "a" 1 ∅]

/-- After `earlyRun` the member `a` has two different answers for generation
1, the first of them given before the leader's SyncGroup. -/
theorem early_sync_answered :
    (earlyRun.foldl step init).replies =
        [⟨"g", "a", 1, []⟩, ⟨"g", "l", 1, [1]⟩, ⟨"g", "a", 1, [0]⟩] ∧
      ((earlyRun.take 3).foldl step init).applied.length = 0 ∧
      ¬ ∀ ops, Always step (fun r => r.AnsweredAfterLeader ∧ r.SameAnswers) init ops := by
  have hreplies : (earlyRun.foldl step init).replies =
      [⟨"g", "a", 1, []⟩, ⟨"g", "l", 1, [1]⟩, ⟨"g", "a", 1, [0]⟩] := by decide
  refine ⟨hreplies, by decide, fun h => ?_⟩
  have hsame := (h earlyRun).last.2
  rw [SameAnswers, hreplies] at hsame
  have := hsame ⟨"g", "a", 1, []⟩ (by simp) ⟨"g", "a", 1, [0]⟩ (by simp) rfl rfl rfl
  cases this

end GroupRun

end Rafka
