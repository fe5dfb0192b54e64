/-
Rafka/GroupTasks.lean

Concurrent calls on the group coordinator (`crates/broker/src/coordinator.rs`).

`groups` is a lock on the map of the groups, and every group in the map has a lock
of its own.  `handle_join_group` takes the first for writing, since it may add a
group; the other calls take it for reading.  All of them then lock the group.
`Rafka/Coordinator.lean` takes each call to happen at once.  Here the calls run
step by step, under fair locks, in any interleaving.

Main results: the calls are linearizable, so what is proved of runs of calls holds
of calls that run concurrently (`group_calls_linearizable`), and no call waits for
ever (`group_calls_answered`).
-/
import Rafka.Coordinator
import Rafka.TwoPhase

namespace Rafka

/-! ### Calls that happen at once -/

/-- `GroupCoordinator::get_group_members`.  The members are iterated in the order
`order`. -/
def GroupCoordinator.getGroupMembers (c : GroupCoordinator) (groupId : String)
    (order : List String) : Except String (List String) :=
  match c.groups.lookup groupId with
  | some group => .ok ((HashMap.iter order group.members).map Prod.fst)
  | none => .error "Group not found"

/-- A call on the coordinator. -/
inductive GroupCall
  | op (op : GroupOp)
  | getGroupMembers (groupId : String) (order : List String)

/-- What a call returns. -/
inductive GroupReply
  | joined (result : Except String (String × String × Int32 × String))
  | synced (result : Except String (List UInt8))
  | beat (result : Except String Unit)
  | members (result : Except String (List String))

/-- One call after the other. -/
def GroupCoordinator.answer (c : GroupCoordinator) : GroupCall → GroupReply × GroupCoordinator
  | .op (.join gid mid cid pt topics uuid now) =>
      let (result, c) := c.handleJoinGroup gid mid cid pt topics uuid now
      (.joined result, c)
  | .op (.sync gid mid gen map) =>
      let (result, c) := c.handleSyncGroup gid mid gen map
      (.synced result, c)
  | .op (.heartbeat gid mid gen now) =>
      let (result, c) := c.handleHeartbeat gid mid gen now
      (.beat result, c)
  | .getGroupMembers gid order => (.members (c.getGroupMembers gid order), c)

/-! ### Calls under locks -/

/-- The lock on the map, and the locks in it. -/
inductive GroupLock
  | groups
  | group (groupId : String)
deriving DecidableEq

/-- What is under a lock: the ids that are in the map, and the group that `or_insert_with`
creates or has created under an id. -/
abbrev GroupData : GroupLock → Type
  | .groups => Finset String
  | .group _ => GroupMetadata

/-- A call under the locks of the coordinator. -/
abbrev GroupScript := LockedCall GroupData GroupReply

namespace GroupScript

/-- `GroupCoordinator::handle_join_group`. -/
def handleJoinGroup (groupId memberId clientId protocolType : String) (topics : List String)
    (uuid : String) (now : SystemTime) : GroupScript :=
  .lock .groups .write <|
  .read .groups fun groups : Finset String =>
  .write .groups (insert groupId groups) <|
  .lock (.group groupId) .write <|
  .read (.group groupId) fun group : GroupMetadata =>
    let newMemberId := if memberId = "" then clientId ++ "-" ++ uuid else memberId
    let group := group.join newMemberId clientId protocolType topics now
    .write (.group groupId) group <|
    .ret (.joined
      (.ok (newMemberId, group.leaderId.getD newMemberId, group.generationId, protocolType)))

/-- `GroupCoordinator::handle_sync_group`. -/
def handleSyncGroup (groupId memberId : String) (generationId : Int32)
    (groupAssignment : AssignmentMap) : GroupScript :=
  .lock .groups .read <|
  .read .groups fun groups : Finset String =>
    if groupId ∈ groups then
      .lock (.group groupId) .write <|
      .read (.group groupId) fun group : GroupMetadata =>
        if group.generationId ≠ generationId then
          .ret (.synced (.error "Invalid generation id"))
        else
          let group := group.sync memberId groupAssignment
          .write (.group groupId) group <|
          match group.members.lookup memberId with
          | some member => .ret (.synced (.ok member.assignment))
          | none => .ret (.synced (.error "Member not found"))
    else .ret (.synced (.error "Group not found"))

/-- `GroupCoordinator::handle_heartbeat`. -/
def handleHeartbeat (groupId memberId : String) (generationId : Int32) (now : SystemTime) :
    GroupScript :=
  .lock .groups .read <|
  .read .groups fun groups : Finset String =>
    if groupId ∈ groups then
      .lock (.group groupId) .write <|
      .read (.group groupId) fun group : GroupMetadata =>
        if group.generationId ≠ generationId then
          .ret (.beat (.error "Rebalance in progress"))
        else
          match group.members.lookup memberId with
          | some _ => .write (.group groupId) (group.heartbeat memberId now) <| .ret (.beat (.ok ()))
          | none => .ret (.beat (.error "Member not found"))
    else .ret (.beat (.error "Group not found"))

/-- `GroupCoordinator::get_group_members`. -/
def getGroupMembers (groupId : String) (order : List String) : GroupScript :=
  .lock .groups .read <|
  .read .groups fun groups : Finset String =>
    if groupId ∈ groups then
      .lock (.group groupId) .read <|
      .read (.group groupId) fun group : GroupMetadata =>
        .ret (.members (.ok ((HashMap.iter order group.members).map Prod.fst)))
    else .ret (.members (.error "Group not found"))

end GroupScript

/-- What a call does, step by step. -/
def GroupCall.script : GroupCall → GroupScript
  | .op (.join gid mid cid pt topics uuid now) =>
      GroupScript.handleJoinGroup gid mid cid pt topics uuid now
  | .op (.sync gid mid gen map) => GroupScript.handleSyncGroup gid mid gen map
  | .op (.heartbeat gid mid gen now) => GroupScript.handleHeartbeat gid mid gen now
  | .getGroupMembers gid order => GroupScript.getGroupMembers gid order

/-- `GroupCoordinator::new`: the map is empty. -/
def groupData : ∀ l, GroupData l
  | .groups => (∅ : Finset String)
  | .group groupId => GroupMetadata.fresh groupId

/-- The lock on the map comes before those on the groups. -/
def GroupLock.rank : GroupLock → ℕ
  | .groups => 0
  | .group _ => 1

/-! ### One call at a time -/

/-- The map of the coordinator has the groups that are under the locks. -/
structure GroupsAre (data : ∀ l, GroupData l) (c : GroupCoordinator) : Prop where
  lookup : ∀ groupId, c.groups.lookup groupId =
    if groupId ∈ (data .groups : Finset String) then some (data (.group groupId)) else none
  fresh : ∀ groupId, groupId ∉ (data .groups : Finset String) →
    data (.group groupId) = GroupMetadata.fresh groupId

theorem groupsAre_new : GroupsAre groupData GroupCoordinator.new :=
  ⟨fun _ => rfl, fun _ _ => rfl⟩

variable {data : ∀ l, GroupData l} {c : GroupCoordinator} {groupId : String}

theorem GroupsAre.of_mem (h : GroupsAre data c)
    (hmem : groupId ∈ (data .groups : Finset String)) :
    c.groups.lookup groupId = some (data (.group groupId)) := by
  rw [h.lookup, if_pos hmem]

theorem GroupsAre.of_not_mem (h : GroupsAre data c)
    (hmem : groupId ∉ (data .groups : Finset String)) : c.groups.lookup groupId = none := by
  rw [h.lookup, if_neg hmem]

/-- A group in the map is written. -/
theorem GroupsAre.setGroup (h : GroupsAre data c)
    (hmem : groupId ∈ (data .groups : Finset String)) (group : GroupMetadata) :
    GroupsAre (Function.update data (.group groupId) group) (c.setGroup groupId group) := by
  constructor
  · intro gid
    rw [Function.update_of_ne (by rintro ⟨⟩), GroupCoordinator.setGroup, HashMap.lookup_insert_eq]
    by_cases hgid : gid = groupId
    · subst hgid
      rw [if_pos rfl, if_pos hmem, Function.update_self]
    · rw [if_neg hgid, h.lookup, Function.update_of_ne (by simpa using hgid)]
  · intro gid hgid
    rw [Function.update_of_ne (by rintro ⟨⟩)] at hgid
    have hne : gid ≠ groupId := by
      rintro rfl
      exact hgid hmem
    rw [Function.update_of_ne (by simpa using hne)]
    exact h.fresh gid hgid

/-- A group that is not in the map yet is written. -/
theorem GroupsAre.addGroup (h : GroupsAre data c) (group : GroupMetadata) :
    GroupsAre (Function.update (Function.update data .groups
      (insert groupId (data .groups : Finset String))) (.group groupId) group)
      (c.setGroup groupId group) := by
  constructor
  · intro gid
    rw [Function.update_of_ne (by rintro ⟨⟩), Function.update_self, GroupCoordinator.setGroup,
      HashMap.lookup_insert_eq]
    by_cases hgid : gid = groupId
    · subst hgid
      rw [if_pos rfl, if_pos (Finset.mem_insert_self ..), Function.update_self]
    · rw [if_neg hgid, h.lookup, Function.update_of_ne (by simpa using hgid),
        Function.update_of_ne (by rintro ⟨⟩)]
      simp [hgid]
  · intro gid hgid
    rw [Function.update_of_ne (by rintro ⟨⟩), Function.update_self] at hgid
    have hne : gid ≠ groupId := by
      rintro rfl
      exact hgid (Finset.mem_insert_self ..)
    rw [Function.update_of_ne (by simpa using hne), Function.update_of_ne (by rintro ⟨⟩)]
    exact h.fresh gid fun hmem => hgid (Finset.mem_insert_of_mem hmem)

/-- A group is looked up before anything else. -/
theorem GroupsAre.ite (h : GroupsAre data c) {found : GroupScript} {reply : GroupReply}
    {answer : GroupReply × GroupCoordinator}
    (hfound : groupId ∈ (data .groups : Finset String) →
      c.groups.lookup groupId = some (data (.group groupId)) →
      (found.run data).1 = answer.1 ∧ GroupsAre (found.run data).2 answer.2)
    (hmissing : c.groups.lookup groupId = none → answer = (reply, c)) :
    ((if groupId ∈ (data .groups : Finset String) then found else .ret reply).run data).1 =
        answer.1 ∧
      GroupsAre ((if groupId ∈ (data .groups : Finset String) then found
        else .ret reply).run data).2 answer.2 := by
  by_cases hmem : groupId ∈ (data .groups : Finset String)
  · rw [if_pos hmem]
    exact hfound hmem (h.of_mem hmem)
  · rw [if_neg hmem, hmissing (h.of_not_mem hmem)]
    exact ⟨rfl, h⟩

/-- One at a time, the steps of a call do what the call does at once. -/
theorem GroupsAre.answer (h : GroupsAre data c) (call : GroupCall) :
    (call.script.run data).1 = (c.answer call).1 ∧
      GroupsAre (call.script.run data).2 (c.answer call).2 := by
  match call with
  | .op (.join gid mid cid pt topics uuid now) =>
      have hgroup : (c.groups.lookup gid).getD (.fresh gid) = data (.group gid) := by
        by_cases hmem : gid ∈ (data .groups : Finset String)
        · rw [h.of_mem hmem]
          rfl
        · rw [h.of_not_mem hmem, h.fresh gid hmem]
          rfl
      have hread : Function.update data .groups
          (insert gid (data .groups : Finset String) : Finset String) (.group gid) =
            data (.group gid) := Function.update_of_ne (by rintro ⟨⟩) _ _
      simp only [GroupCall.script, GroupScript.handleJoinGroup, LockedCall.run, hread,
        GroupCoordinator.answer, GroupCoordinator.handleJoinGroup, hgroup]
      exact ⟨trivial, h.addGroup _⟩
  | .op (.sync gid mid gen map) =>
      apply h.ite
      · intro hmem hlookup
        simp only [GroupCoordinator.answer, GroupCoordinator.handleSyncGroup, hlookup,
          LockedCall.run]
        by_cases hgen : (data (.group gid) : GroupMetadata).generationId = gen
        · rw [if_neg (not_not.mpr hgen), if_neg (not_not.mpr hgen)]
          simp only [LockedCall.run]
          cases hmember : (GroupMetadata.sync (data (.group gid)) mid map).members.lookup mid with
          | some member => exact ⟨rfl, h.setGroup hmem _⟩
          | none => exact ⟨rfl, h.setGroup hmem _⟩
        · rw [if_pos hgen, if_pos hgen]
          exact ⟨rfl, h⟩
      · intro hlookup
        simp only [GroupCoordinator.answer, GroupCoordinator.handleSyncGroup, hlookup]
  | .op (.heartbeat gid mid gen now) =>
      apply h.ite
      · intro hmem hlookup
        simp only [GroupCoordinator.answer, GroupCoordinator.handleHeartbeat, hlookup,
          LockedCall.run]
        by_cases hgen : (data (.group gid) : GroupMetadata).generationId = gen
        · rw [if_neg (not_not.mpr hgen), if_neg (not_not.mpr hgen)]
          cases hmember : (data (.group gid) : GroupMetadata).members.lookup mid with
          | some member => exact ⟨rfl, h.setGroup hmem _⟩
          | none => exact ⟨rfl, h⟩
        · rw [if_pos hgen, if_pos hgen]
          exact ⟨rfl, h⟩
      · intro hlookup
        simp only [GroupCoordinator.answer, GroupCoordinator.handleHeartbeat, hlookup]
  | .getGroupMembers gid order =>
      apply h.ite
      · intro hmem hlookup
        simp only [GroupCoordinator.answer, GroupCoordinator.getGroupMembers, hlookup,
          LockedCall.run]
        exact ⟨trivial, h⟩
      · intro hlookup
        simp only [GroupCoordinator.answer, GroupCoordinator.getGroupMembers, hlookup]

/-- Every call locks what it touches, and the map before the group. -/
theorem GroupCall.guarded (call : GroupCall) : call.script.Guarded GroupLock.rank [] := by
  -- all but the joins look for the group under the read guard of the map
  have hfind : ∀ (gid : String) (found : GroupScript) (reply : GroupReply),
      found.Guarded GroupLock.rank [(.groups, .read)] →
      LockedCall.Guarded GroupLock.rank []
        (.lock .groups .read <| .read .groups fun groups : Finset String =>
          if gid ∈ groups then found else .ret reply : GroupScript) := by
    intro gid found reply hfound
    refine ⟨by rintro g ⟨⟩, ⟨.read, List.mem_cons_self⟩, fun groups => ?_⟩
    dsimp only
    split
    · exact hfound
    · trivial
  have hrank : ∀ (gid : String) (m : Mode), ∀ g ∈ [(GroupLock.groups, m)],
      g.1.rank < (GroupLock.group gid).rank := by
    intro gid m g hg
    rw [List.mem_singleton.mp hg]
    exact Nat.zero_lt_one
  match call with
  | .op (.join gid mid cid pt topics uuid now) =>
      exact ⟨by rintro g ⟨⟩, ⟨.write, List.mem_cons_self⟩, fun _ =>
        ⟨List.mem_cons_self, hrank gid .write, ⟨.write, List.mem_cons_self⟩, fun _ =>
          ⟨List.mem_cons_self, trivial⟩⟩⟩
  | .op (.sync gid mid gen map) =>
      refine hfind gid _ _ ⟨hrank gid .read, ⟨.write, List.mem_cons_self⟩, fun group => ?_⟩
      dsimp only
      split
      · trivial
      · refine ⟨List.mem_cons_self, ?_⟩
        split <;> trivial
  | .op (.heartbeat gid mid gen now) =>
      refine hfind gid _ _ ⟨hrank gid .read, ⟨.write, List.mem_cons_self⟩, fun group => ?_⟩
      dsimp only
      split
      · trivial
      · split
        · exact ⟨List.mem_cons_self, trivial⟩
        · trivial
  | .getGroupMembers gid order =>
      exact hfind gid _ _ ⟨hrank gid .read, ⟨.read, List.mem_cons_self⟩, fun _ => trivial⟩

/-! ### Calls at the same time -/

/-- The call, if it is one of a run. -/
def GroupCall.op? : GroupCall → Option GroupOp
  | .op call => some call
  | .getGroupMembers _ _ => none

namespace GroupTasks

open LockedSystem

/-- The calls on a new coordinator. -/
def start : LockedSystem GroupCall GroupData GroupReply := init groupData

/-- A call is made, or one of the calls goes on. -/
def step : LockedSystem GroupCall GroupData GroupReply → SystemLabel GroupCall →
    LockedSystem GroupCall GroupData GroupReply := LockedSystem.step GroupCall.script

/-- The calls that have returned, as a run. -/
def servedRun (s : LockedSystem GroupCall GroupData GroupReply) : GroupRun :=
  (s.served.filterMap fun served => served.call.op?).foldl GroupRun.step GroupRun.init

/-- What answers the calls is the coordinator of the run. -/
theorem coordinator_answers (calls : List GroupCall) :
    (answers GroupCoordinator.answer .new calls).2 =
      ((calls.filterMap GroupCall.op?).foldl GroupRun.step GroupRun.init).coordinator := by
  induction calls using List.reverseRecOn with
  | nil => rfl
  | append_singleton calls call ih =>
      rw [answers_concat, List.filterMap_append, List.foldl_append, ih]
      generalize (calls.filterMap GroupCall.op?).foldl GroupRun.step GroupRun.init = r
      cases call with
      | op op => cases op <;> rfl
      | getGroupMembers groupId order => rfl

/-- The calls are linearizable; when all have returned, the groups are those of a run. -/
structure AsOneAtATime (s : LockedSystem GroupCall GroupData GroupReply) : Prop where
  linearizable : Linearizable GroupCoordinator.answer GroupsAre .new s
  run : s.AllAnswered → GroupsAre s.data (servedRun s).coordinator

/-- **Concurrent calls are linearizable**: whatever the interleaving, the calls that have
returned are answered as one at a time, in the order in which they returned, and a call
that is made later comes later in it. -/
theorem group_calls_linearizable (labels : List (SystemLabel GroupCall)) :
    Always step AsOneAtATime start labels ∧
      ∀ later, (labels.foldl step start).served <+: ((labels ++ later).foldl step start).served := by
  constructor
  · apply (linearizable_always GroupCall.guarded groupsAre_new
      (fun _ _ call h => GroupsAre.answer h call) labels).mono
    intro s h
    refine ⟨h, fun hall => ?_⟩
    have hquiet := h.quiet hall
    rw [coordinator_answers, List.filterMap_map] at hquiet
    exact hquiet
  · intro later
    rw [List.foldl_append]
    exact served_prefix GroupCall.script _ later

/-- **Every call is answered**: unless all have returned, one of them can go on, and they
do not go on for ever. -/
theorem group_calls_answered (labels : List (SystemLabel GroupCall)) :
    Always step (fun s => (¬ s.AllAnswered → ∃ i, s.canStep i = true) ∧
      ∀ schedule : ℕ → ℕ, ∃ n, ((List.range n).foldl
        (fun s k => step s (.task (schedule k))) s).canStep (schedule n) = false) start labels := by
  apply (serializes_always GroupCall.guarded groupData labels).mono
  intro s h
  exact ⟨h.1.canStep, fun schedule => schedule_ends GroupCall.script s schedule⟩

end GroupTasks

end Rafka
