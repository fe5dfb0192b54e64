/-
Rafka/GroupClients.lean

Consumer groups with their consumers (`subscribe` and `join_group` in
`crates/consumer/src/consumer.rs`, the group calls of `crates/broker/src/broker.rs`, and
`GroupCoordinator`).

A consumer that subscribes joins its group, syncs, takes an assignment and starts a task
that sends heartbeats from then on.  Its requests and the answers are on the way for any
time; a call may fail, and then its request may still be served.  The consumers of any
number of groups do this in any order.

* `only_parity_is_assigned` — the coordinator stores and sends empty assignments only; a
  consumer takes the one partition that the bytes of its member id add up to, modulo two;
* `answers_name_the_generation` — who has joined is a member for ever, so the only refusal
  that a SyncGroup or a heartbeat of a consumer meets is that of its generation;
* `stalls_without_leader` — a group that rebalances waits for the consumer that leads it.
  As long as that one does not subscribe again, the group stays in its generation, answers
  whoever syncs, and tells those of older generations to rebalance with every heartbeat.
-/
import Rafka.GroupLaws

namespace Rafka

namespace GroupClients

/-! ### Consumers -/

/-- A request of a consumer that is on its way to the broker. -/
inductive Request
  | join (groupId memberId clientId topic : String)
  | sync (groupId memberId : String) (generationId : Int32) (groupAssignment : AssignmentMap)

/-- The call of the coordinator that serves a request. -/
def Request.op (uuid : String) (now : SystemTime) : Request → GroupOp
  | .join groupId memberId clientId topic =>
      .join groupId memberId clientId "consumer" [topic] uuid now
  | .sync groupId memberId generationId groupAssignment =>
      .sync groupId memberId generationId groupAssignment

/-- Where a consumer is in `subscribe`. -/
inductive Stage
  | idle
  /-- The JoinGroup request is sent, for this topic. -/
  | joining (topic : String)
  | joined (response : Except String (String × String × Int32 × String))
  | syncing (groupAssignment : AssignmentMap)
  | synced (response : Except String (List UInt8))

/-- `Consumer`, of a group. -/
structure Consumer where
  consumerId : String
  groupId : String
  memberId : String
  generationId : Int32
  assignment : List Int32
  stage : Stage
  /-- The heartbeat tasks it has spawned, each with its member id and generation. -/
  tasks : List (String × Int32)

namespace Consumer

/-- `Consumer::new`. -/
def new (consumerId groupId : String) : Consumer where
  consumerId := consumerId
  groupId := groupId
  memberId := ""
  generationId := 0
  assignment := []
  stage := .idle
  tasks := []

/-- The call of `subscribe`, which has the consumer for itself. -/
def subscribe (c : Consumer) (topic : String) : Consumer :=
  match c.stage with
  | .idle => { c with stage := .joining topic }
  | _ => c

/-- The request on its way. -/
def request? (c : Consumer) : Option Request :=
  match c.stage with
  | .joining topic => some (.join c.groupId c.memberId c.consumerId topic)
  | .syncing groupAssignment =>
      some (.sync c.groupId c.memberId c.generationId groupAssignment)
  | _ => none

/-- The request is served, and the answer of the coordinator is on its way. -/
def served (c : Consumer) (coordinator : GroupCoordinator) (uuid : String) (now : SystemTime) :
    Consumer :=
  match c.stage with
  | .joining topic =>
      { c with
        stage := .joined (coordinator.handleJoinGroup c.groupId c.memberId c.consumerId "consumer"
          [topic] uuid now).1 }
  | .syncing groupAssignment =>
      { c with
        stage := .synced (coordinator.handleSyncGroup c.groupId c.memberId c.generationId
          groupAssignment).1 }
  | _ => c

/-- What the leader assigns, and what the others send. -/
def groupAssignment (leaderId memberId : String) : AssignmentMap :=
  if leaderId = memberId then ∅ else ∅

/-- The partitions that `join_group` takes for a member: the sum of the bytes of its id,
modulo two. -/
def assignedPartitions (memberId : String) : List Int32 :=
  let hash : UInt32 := memberId.toUTF8.toList.foldl (fun acc b => acc + b.toUInt32) 0
  [(hash % 2).toInt32]

/-- `join_group` goes on with an answer; an error ends `subscribe`. -/
def receive (c : Consumer) : Consumer :=
  match c.stage with
  | .joined (.ok (memberId, leaderId, generationId, _)) =>
      { c with
        memberId := memberId
        generationId := generationId
        stage := .syncing (groupAssignment leaderId memberId) }
  | .joined (.error _) => { c with stage := .idle }
  | .synced (.ok _) =>
      { c with
        assignment := assignedPartitions c.memberId
        tasks := c.tasks ++ [(c.memberId, c.generationId)]
        stage := .idle }
  | .synced (.error _) => { c with stage := .idle }
  | _ => c

end Consumer

/-- What the broker makes of the answer to a heartbeat: `success` and `error_code`, or a
status. -/
def heartbeatResponse : Except String Unit → Except String (Bool × Int32)
  | .ok _ => .ok (true, 0)
  | .error e => if e = "Rebalance in progress" then .ok (false, 1) else .error e

/-! ### The broker and its consumers -/

/-- The broker, the consumers connected to it, and the requests nobody waits for. -/
structure Net where
  broker : GroupRun
  consumers : List Consumer
  orphans : List Request

/-- What can happen next. -/
inductive Op
  | connect (consumerId groupId : String)
  | subscribe (i : Nat) (topic : String)
  /-- The request of consumer `i` is served. -/
  | serve (i : Nat) (uuid : String) (now : SystemTime)
  /-- The answer reaches consumer `i`. -/
  | receive (i : Nat)
  /-- The call that consumer `i` waits for fails. -/
  | fail (i : Nat)
  | serveOrphan (j : Nat) (uuid : String) (now : SystemTime)
  /-- Task `k` of consumer `i` sends a heartbeat. -/
  | heartbeat (i k : Nat) (now : SystemTime)

namespace Net

def init : Net := ⟨.init, [], []⟩

/-- The call that reaches the coordinator, if one does. -/
def call? (s : Net) : Op → Option GroupOp
  | .serve i uuid now =>
      (s.consumers[i]?).bind fun c => c.request?.map fun r => r.op uuid now
  | .serveOrphan j uuid now => (s.orphans[j]?).map fun r => r.op uuid now
  | .heartbeat i k now =>
      (s.consumers[i]?).bind fun c => (c.tasks[k]?).map fun (memberId, generationId) =>
        .heartbeat c.groupId memberId generationId now
  | _ => none

/-- The consumers afterwards. -/
def consumersAfter (s : Net) : Op → List Consumer
  | .connect consumerId groupId => s.consumers ++ [.new consumerId groupId]
  | .subscribe i topic => s.consumers.modify i fun c => c.subscribe topic
  | .serve i uuid now => s.consumers.modify i fun c => c.served s.broker.coordinator uuid now
  | .receive i => s.consumers.modify i Consumer.receive
  | .fail i => s.consumers.modify i fun c => { c with stage := .idle }
  | .serveOrphan _ _ _ => s.consumers
  | .heartbeat _ _ _ => s.consumers

/-- The requests nobody waits for afterwards: those of failed calls that have not been
served. -/
def orphansAfter (s : Net) : Op → List Request
  | .fail i => s.orphans ++ ((s.consumers[i]?).bind Consumer.request?).toList
  | .serveOrphan j _ _ => s.orphans.eraseIdx j
  | _ => s.orphans

/-- One step. -/
def step (s : Net) (op : Op) : Net where
  broker := (s.call? op).elim s.broker s.broker.step
  consumers := s.consumersAfter op
  orphans := s.orphansAfter op

end Net

end GroupClients

/-! ### Members and their assignments -/

namespace GroupRun

variable {r : GroupRun} {gid mid : String}

/-- The group has this member. -/
def HasMember (r : GroupRun) (gid mid : String) : Prop :=
  ∃ g, r.group gid = some g ∧ mid ∈ g.members

/-- Nothing is assigned to any member. -/
def Unassigned (r : GroupRun) : Prop :=
  ∀ gid, ∀ g ∈ r.group gid, ∀ id, ∀ m ∈ g.members.lookup id, m.assignment = []

/-- Who has joined stays a member. -/
theorem HasMember.step (h : r.HasMember gid mid) (op : GroupOp) :
    (r.step op).HasMember gid mid := by
  obtain ⟨g, hg, hmem⟩ := h
  obtain ⟨g', hg'⟩ := Option.isSome_iff_exists.mp
    (group_step_isSome (Option.isSome_iff_exists.mpr ⟨g, hg⟩) op)
  refine ⟨g', hg', ?_⟩
  obtain ⟨hsame, -⟩ | ⟨mid', cid, pt, ts, now, -, rfl⟩ | ⟨g₀, mid', map, hg₀, -, rfl⟩ |
    ⟨g₀, mid', now, hg₀, -, rfl⟩ := group_step_cases hg'
  · cases hg.symm.trans hsame
    exact hmem
  · rw [joined_eq hg, g.mem_members_join]
    exact .inr hmem
  · cases hg.symm.trans hg₀
    exact (g.mem_members_sync mid' map mid).mpr hmem
  · cases hg.symm.trans hg₀
    exact (g.mem_members_heartbeat mid' now mid).mpr hmem

theorem hasMember_join (r : GroupRun) (gid mid cid pt : String) (ts : List String) (uuid : String)
    (now : SystemTime) :
    (r.step (.join gid mid cid pt ts uuid now)).HasMember gid
      (if mid = "" then cid ++ "-" ++ uuid else mid) := by
  refine ⟨_, by rw [group_step_join, if_pos rfl], ?_⟩
  rw [GroupMetadata.mem_members_join]
  exact .inl rfl

/-- The call assigns nothing: it is no SyncGroup, or one with an empty map. -/
def AssignsNothing : GroupOp → Prop
  | .sync _ _ _ map => map = ∅
  | _ => True

theorem members_join (g : GroupMetadata) (mid cid pt : String) (ts : List String)
    (now : SystemTime) :
    (g.join mid cid pt ts now).members =
      g.members.insert mid ⟨mid, cid, "127.0.0.1", pt, ts, now, []⟩ := by
  simp only [GroupMetadata.join]
  split_ifs <;> rfl

theorem Unassigned.joined (h : r.Unassigned) (gid id : String) :
    ∀ m ∈ (r.joined gid).members.lookup id, m.assignment = [] := by
  unfold GroupRun.joined
  cases hg : r.group gid with
  | none => exact fun m hm => absurd hm (by simp [GroupMetadata.fresh])
  | some g => exact h gid g hg id

theorem Unassigned.step (h : r.Unassigned) {op : GroupOp} (hop : AssignsNothing op) :
    (r.step op).Unassigned := by
  intro gid g' hg' id m hm
  cases Evolution.of_step hg' with
  | kept g before _ _ assignment_eq _ =>
      have hsame := assignment_eq id
      rw [Option.mem_def.mp hm, Option.map_some, eq_comm, Option.map_eq_some_iff] at hsame
      obtain ⟨m', hm', heq⟩ := hsame
      rw [← heq]
      exact h gid g before id m' hm'
  | joined mid cid pt ts now _ after _ =>
      rw [after, members_join, HashMap.lookup_insert_eq] at hm
      split at hm
      · cases hm
        rfl
      · exact h.joined gid id m hm
  | synced g mid gen map call before _ _ after _ =>
      subst call
      have hempty : map = ∅ := hop
      subst hempty
      rw [after] at hm
      simp only [GroupMetadata.applyAssignments, HashMap.lookup_mapVals, Option.mem_def,
        Option.map_eq_some_iff] at hm
      obtain ⟨m', hm', rfl⟩ := hm
      rw [GroupMetadata.assign_of_lookup_none (Finmap.lookup_empty id)]
      exact h gid g before id m' hm'

/-- The generation a group is in. -/
def generation? (r : GroupRun) (gid : String) : Option Int32 :=
  (r.group gid).map fun g => g.generationId

/-- What a member is told that syncs with an empty map, while nothing is assigned. -/
theorem sync_answer (h : r.Unassigned) (hm : r.HasMember gid mid) (gen : Int32) :
    (r.coordinator.handleSyncGroup gid mid gen ∅).1 =
      if r.generation? gid = some gen then .ok [] else .error "Invalid generation id" := by
  obtain ⟨g, hg, hmem⟩ := hm
  have hlookup : r.coordinator.groups.lookup gid = some g := hg
  have hgeneration : r.generation? gid = some g.generationId := by
    rw [generation?, hg, Option.map_some]
  simp only [hgeneration, Option.some_inj]
  by_cases hgen : g.generationId = gen
  · subst hgen
    obtain ⟨m, hm⟩ := Finmap.mem_iff.mp ((g.mem_members_sync mid ∅ mid).mpr hmem)
    have hafter : (r.step (.sync gid mid g.generationId ∅)).group gid = some (g.sync mid ∅) := by
      rw [group_step_sync, if_pos rfl, hg, Option.map_some, if_pos rfl]
    have hunassigned : (r.step (.sync gid mid g.generationId ∅)).Unassigned := h.step rfl
    have hblank : m.assignment = [] := hunassigned gid _ hafter mid m hm
    simp only [GroupCoordinator.handleSyncGroup, hlookup, hm, hblank]
    simp
  · simp only [GroupCoordinator.handleSyncGroup, hlookup]
    rw [if_pos hgen, if_neg hgen]

/-- What the broker answers to the heartbeat of a member. -/
theorem heartbeat_answer (hm : r.HasMember gid mid) (gen : Int32) (now : SystemTime) :
    GroupClients.heartbeatResponse (r.coordinator.handleHeartbeat gid mid gen now).1 =
      .ok (if r.generation? gid = some gen then (true, 0) else (false, 1)) := by
  obtain ⟨g, hg, hmem⟩ := hm
  have hlookup : r.coordinator.groups.lookup gid = some g := hg
  have hgeneration : r.generation? gid = some g.generationId := by
    rw [generation?, hg, Option.map_some]
  obtain ⟨m, hm⟩ := Finmap.mem_iff.mp hmem
  simp only [hgeneration, Option.some_inj]
  by_cases hgen : g.generationId = gen
  · simp [GroupCoordinator.handleHeartbeat, hlookup, hgen, hm, GroupClients.heartbeatResponse]
  · simp [GroupCoordinator.handleHeartbeat, hlookup, hgen, GroupClients.heartbeatResponse]

theorem replies_blank (h : r.Unassigned) {op : GroupOp} (hop : AssignsNothing op)
    (hreplies : ∀ y ∈ r.replies, y.bytes = []) : ∀ y ∈ (r.step op).replies, y.bytes = [] := by
  intro y hy
  rcases replies_step_cases hy with hold | ⟨g, map, rfl, hg, hgen, -, hbytes⟩
  · exact hreplies y hold
  · obtain ⟨m, hm, hassignment⟩ := Option.map_eq_some_iff.mp hbytes
    have hafter : (r.step (.sync y.groupId y.memberId y.generationId map)).group y.groupId =
        some (g.sync y.memberId map) := by
      rw [group_step_sync, if_pos rfl, hg, Option.map_some, if_pos hgen]
    rw [← hassignment]
    exact h.step hop y.groupId _ hafter y.memberId m hm

end GroupRun

namespace GroupClients

variable {r : GroupRun}

/-! ### What holds in every run -/

/-- A SyncGroup request carries nothing, and comes from a member. -/
def Request.Sound (r : GroupRun) : Request → Prop
  | .join .. => True
  | .sync groupId memberId _ groupAssignment =>
      groupAssignment = ∅ ∧ r.HasMember groupId memberId

theorem Request.Sound.step {q : Request} (h : q.Sound r) (op : GroupOp) : q.Sound (r.step op) := by
  cases q with
  | join => trivial
  | sync => exact ⟨h.1, h.2.step op⟩

theorem Request.Sound.assignsNothing {q : Request} (h : q.Sound r) (uuid : String)
    (now : SystemTime) : GroupRun.AssignsNothing (q.op uuid now) := by
  cases q with
  | join => trivial
  | sync => exact h.1

/-- What a stage says about its consumer. -/
def Stage.Sound (r : GroupRun) (groupId memberId : String) : Stage → Prop
  | .idle => True
  | .joining _ => True
  | .joined response =>
      ∃ newMemberId leaderId generationId protocolName,
        response = .ok (newMemberId, leaderId, generationId, protocolName) ∧ newMemberId ≠ "" ∧
        (memberId = "" ∨ newMemberId = memberId) ∧ r.HasMember groupId newMemberId
  | .syncing groupAssignment => groupAssignment = ∅ ∧ memberId ≠ ""
  | .synced _ => memberId ≠ ""

theorem Stage.Sound.step {stage : Stage} {groupId memberId : String}
    (h : stage.Sound r groupId memberId) (op : GroupOp) :
    stage.Sound (r.step op) groupId memberId := by
  cases stage with
  | joined response =>
      obtain ⟨newMemberId, leaderId, generationId, protocolName, heq, hne, hsame, hmember⟩ := h
      exact ⟨newMemberId, leaderId, generationId, protocolName, heq, hne, hsame, hmember.step op⟩
  | _ => exact h

namespace Consumer

variable {c : Consumer}

/-- What holds of every consumer. -/
structure Sound (c : Consumer) (r : GroupRun) : Prop where
  member : c.memberId = "" ∨ r.HasMember c.groupId c.memberId
  assignment : c.assignment = [] ∨
    (c.memberId ≠ "" ∧ c.assignment = assignedPartitions c.memberId)
  tasks : ∀ t ∈ c.tasks, r.HasMember c.groupId t.1
  stage : c.stage.Sound r c.groupId c.memberId

theorem assignedPartitions_cases (memberId : String) :
    assignedPartitions memberId = [0] ∨ assignedPartitions memberId = [1] := by
  unfold assignedPartitions
  generalize memberId.toUTF8.toList.foldl (fun acc b => acc + b.toUInt32) 0 = hash
  show [(hash % 2).toInt32] = [0] ∨ [(hash % 2).toInt32] = [1]
  have hlt : (hash % 2).toNat < 2 := by
    rw [UInt32.toNat_mod]
    exact Nat.mod_lt _ (by decide)
  rcases Nat.lt_succ_iff_lt_or_eq.mp hlt with hzero | hone
  · left
    rw [show hash % 2 = 0 from UInt32.toNat_inj.mp (Nat.lt_one_iff.mp hzero)]
    rfl
  · right
    rw [show hash % 2 = 1 from UInt32.toNat_inj.mp hone]
    rfl

theorem sound_new (r : GroupRun) (consumerId groupId : String) : (new consumerId groupId).Sound r :=
  ⟨.inl rfl, .inl rfl, fun _ ht => absurd ht List.not_mem_nil, trivial⟩

theorem Sound.step (h : c.Sound r) (op : GroupOp) : c.Sound (r.step op) :=
  ⟨h.member.imp_right fun hm => hm.step op, h.assignment, fun _ ht => (h.tasks _ ht).step op,
    h.stage.step op⟩

theorem Sound.subscribe (h : c.Sound r) (topic : String) : (c.subscribe topic).Sound r := by
  unfold Consumer.subscribe
  split
  · exact ⟨h.member, h.assignment, h.tasks, trivial⟩
  · exact h

theorem Sound.fail (h : c.Sound r) : { c with stage := .idle }.Sound r :=
  ⟨h.member, h.assignment, h.tasks, trivial⟩

theorem Sound.request (h : c.Sound r) : ∀ q ∈ c.request?, q.Sound r := by
  intro q hq
  have hstage := h.stage
  unfold Consumer.request? at hq
  cases hc : c.stage with
  | joining topic =>
      rw [hc] at hq
      cases hq
      trivial
  | syncing map =>
      rw [hc] at hq hstage
      cases hq
      exact ⟨hstage.1, h.member.resolve_left hstage.2⟩
  | _ =>
      rw [hc] at hq
      cases hq

/-- Serving the request of a consumer. -/
theorem Sound.served (h : c.Sound r) (uuid : String) (now : SystemTime) :
    (c.served r.coordinator uuid now).Sound
      ((c.request?.map fun q => q.op uuid now).elim r r.step) := by
  unfold Consumer.served Consumer.request?
  cases hc : c.stage with
  | joining topic =>
      have hjoin := h.step (.join c.groupId c.memberId c.consumerId "consumer" [topic] uuid now)
      refine ⟨hjoin.member, hjoin.assignment, hjoin.tasks, _, _, _, _, rfl, ?_, ?_,
        GroupRun.hasMember_join ..⟩
      · split
        · intro hnil
          have hlength := congrArg String.length hnil
          simp at hlength
        · assumption
      · by_cases hmember : c.memberId = ""
        · exact .inl hmember
        · exact .inr (if_neg hmember)
  | syncing map =>
      have hsync := h.step (.sync c.groupId c.memberId c.generationId map)
      have hstage := h.stage
      rw [hc] at hstage
      exact ⟨hsync.member, hsync.assignment, hsync.tasks, hstage.2⟩
  | _ => exact h

theorem groupAssignment_eq (leaderId memberId : String) : groupAssignment leaderId memberId = ∅ :=
  ite_self ∅

theorem Sound.receive (h : c.Sound r) : c.receive.Sound r := by
  have hstage := h.stage
  unfold Consumer.receive
  cases hc : c.stage with
  | joined response =>
      rw [hc] at hstage
      obtain ⟨newMemberId, leaderId, generationId, protocolName, rfl, hne, hsame, hmember⟩ := hstage
      refine ⟨.inr hmember, ?_, h.tasks, groupAssignment_eq leaderId newMemberId, hne⟩
      refine h.assignment.imp_right fun hold => ?_
      exact ⟨hne, by rw [hsame.resolve_left hold.1]; exact hold.2⟩
  | synced response =>
      rw [hc] at hstage
      cases response with
      | error e => exact h.fail
      | ok bytes =>
          refine ⟨h.member, .inr ⟨hstage, rfl⟩, fun t ht => ?_, trivial⟩
          rcases List.mem_append.mp ht with hold | hnew
          · exact h.tasks t hold
          · rw [List.mem_singleton.mp hnew]
            exact h.member.resolve_left hstage
  | _ => exact h

end Consumer

namespace Net

variable {s : Net}

/-- What holds of the broker, its consumers and their requests. -/
structure Sound (s : Net) : Prop where
  unassigned : s.broker.Unassigned
  replies : ∀ y ∈ s.broker.replies, y.bytes = []
  consumers : ∀ c ∈ s.consumers, c.Sound s.broker
  orphans : ∀ q ∈ s.orphans, q.Sound s.broker

theorem sound_init : init.Sound := by
  refine ⟨?_, fun y hy => absurd hy List.not_mem_nil, fun c hc => absurd hc List.not_mem_nil,
    fun q hq => absurd hq List.not_mem_nil⟩
  intro gid g hg
  rw [show init.broker.group gid = none from rfl] at hg
  cases hg

/-- Where the calls come from. -/
theorem call?_cases {op : Op} {call : GroupOp} (hcall : s.call? op = some call) :
    (∃ q uuid now, call = Request.op uuid now q ∧
      (q ∈ s.orphans ∨ ∃ c ∈ s.consumers, q ∈ c.request?)) ∨
    ∃ c ∈ s.consumers, ∃ t ∈ c.tasks, ∃ now, call = .heartbeat c.groupId t.1 t.2 now := by
  cases op with
  | serve i uuid now =>
      obtain ⟨c, hc, hrequest⟩ := Option.bind_eq_some_iff.mp hcall
      obtain ⟨q, hq, rfl⟩ := Option.map_eq_some_iff.mp hrequest
      exact .inl ⟨q, uuid, now, rfl, .inr ⟨c, List.mem_of_getElem? hc, hq⟩⟩
  | serveOrphan j uuid now =>
      obtain ⟨q, hq, rfl⟩ := Option.map_eq_some_iff.mp hcall
      exact .inl ⟨q, uuid, now, rfl, .inl (List.mem_of_getElem? hq)⟩
  | heartbeat i k now =>
      obtain ⟨c, hc, htask⟩ := Option.bind_eq_some_iff.mp hcall
      obtain ⟨t, ht, rfl⟩ := Option.map_eq_some_iff.mp htask
      exact .inr ⟨c, List.mem_of_getElem? hc, t, List.mem_of_getElem? ht, now, rfl⟩
  | _ => cases hcall

/-- No call of a consumer assigns anything. -/
theorem Sound.assignsNothing (h : s.Sound) {op : Op} {call : GroupOp}
    (hcall : s.call? op = some call) : GroupRun.AssignsNothing call := by
  obtain ⟨q, uuid, now, rfl, hq | ⟨c, hc, hq⟩⟩ | ⟨c, -, t, -, now, rfl⟩ := call?_cases hcall
  · exact (h.orphans q hq).assignsNothing uuid now
  · exact ((h.consumers c hc).request q hq).assignsNothing uuid now
  · trivial

/-- Whatever happens to the broker, the consumers stay sound. -/
theorem Sound.onBroker (h : s.Sound) (op : Op) :
    (∀ c ∈ s.consumers, c.Sound (s.step op).broker) ∧
      ∀ q ∈ s.orphans, q.Sound (s.step op).broker := by
  show (∀ c ∈ s.consumers, c.Sound ((s.call? op).elim s.broker s.broker.step)) ∧
    ∀ q ∈ s.orphans, q.Sound ((s.call? op).elim s.broker s.broker.step)
  cases s.call? op with
  | none => exact ⟨h.consumers, h.orphans⟩
  | some call =>
      exact ⟨fun c hc => (h.consumers c hc).step call, fun q hq => (h.orphans q hq).step call⟩

/-- **Step lemma.** -/
theorem Sound.step (h : s.Sound) (op : Op) : (s.step op).Sound := by
  obtain ⟨hconsumers, horphans⟩ := h.onBroker op
  have hbroker : (s.step op).broker.Unassigned ∧ ∀ y ∈ (s.step op).broker.replies, y.bytes = [] := by
    show ((s.call? op).elim s.broker s.broker.step).Unassigned ∧ _
    unfold Net.step
    cases hcall : s.call? op with
    | none => exact ⟨h.unassigned, h.replies⟩
    | some call =>
        have hnothing := h.assignsNothing hcall
        exact ⟨h.unassigned.step hnothing, GroupRun.replies_blank h.unassigned hnothing h.replies⟩
  refine ⟨hbroker.1, hbroker.2, ?_, ?_⟩
  · show ∀ c ∈ s.consumersAfter op, c.Sound (s.step op).broker
    intro c hc
    cases op with
    | connect consumerId groupId =>
        rcases List.mem_append.mp hc with hold | hnew
        · exact hconsumers c hold
        · rw [List.mem_singleton.mp hnew]
          exact Consumer.sound_new _ consumerId groupId
    | subscribe i topic =>
        rcases mem_modify_cases hc with hold | ⟨c, hget, rfl⟩
        · exact hconsumers _ hold
        · exact (hconsumers c (List.mem_of_getElem? hget)).subscribe topic
    | serve i uuid now =>
        rcases mem_modify_cases hc with hold | ⟨c, hget, rfl⟩
        · exact hconsumers _ hold
        · have hserved := (h.consumers c (List.mem_of_getElem? hget)).served uuid now
          show Consumer.Sound _ ((s.call? (.serve i uuid now)).elim s.broker s.broker.step)
          rw [call?, hget]
          exact hserved
    | receive i =>
        rcases mem_modify_cases hc with hold | ⟨c, hget, rfl⟩
        · exact hconsumers _ hold
        · exact (hconsumers c (List.mem_of_getElem? hget)).receive
    | fail i =>
        rcases mem_modify_cases hc with hold | ⟨c, hget, rfl⟩
        · exact hconsumers _ hold
        · exact (hconsumers c (List.mem_of_getElem? hget)).fail
    | serveOrphan j uuid now => exact hconsumers c hc
    | heartbeat i k now => exact hconsumers c hc
  · show ∀ q ∈ s.orphansAfter op, q.Sound (s.step op).broker
    intro q hq
    cases op with
    | fail i =>
        rcases List.mem_append.mp hq with hold | hnew
        · exact horphans q hold
        · obtain ⟨c, hc, hrequest⟩ := Option.bind_eq_some_iff.mp (Option.mem_toList.mp hnew)
          exact (hconsumers c (List.mem_of_getElem? hc)).request q hrequest
    | serveOrphan j uuid now => exact horphans q (List.mem_of_mem_eraseIdx hq)
    | _ => exact horphans q hq

/-- **Run lemma.** -/
theorem sound_always (ops : List Op) : Always step Sound init ops :=
  Always.of_along sound_init (Along.of_forall fun _ _ => trivial : Along step (fun _ _ => True) _ _)
    fun _ op h _ => h.step op

/-- **Consumers do not share out partitions.**  In every run of any number of consumers, in
whatever order their requests are sent, served, answered and lost: the coordinator holds
empty assignments only, answers every SyncGroup with an empty one, and a consumer has no
partition or the one, 0 or 1, that the bytes of its own member id add up to. -/
theorem only_parity_is_assigned (ops : List Op) :
    Always step (fun s =>
      s.broker.Unassigned ∧ (∀ y ∈ s.broker.replies, y.bytes = []) ∧
        ∀ c ∈ s.consumers, c.assignment = [] ∨
          (c.memberId ≠ "" ∧ c.assignment = Consumer.assignedPartitions c.memberId ∧
            (c.assignment = [0] ∨ c.assignment = [1]))) init ops := by
  refine (sound_always ops).mono fun s h => ⟨h.unassigned, h.replies, fun c hc => ?_⟩
  refine (h.consumers c hc).assignment.imp_right fun hown => ⟨hown.1, hown.2, ?_⟩
  rw [hown.2]
  exact Consumer.assignedPartitions_cases c.memberId

/-! ### What the consumers are told -/

/-- What the next step answers to a SyncGroup or a heartbeat of a consumer. -/
def Answers (s : Net) : Op → Prop
  | .serve i _ _ =>
      ∀ c ∈ s.consumers[i]?, ∀ map, c.stage = .syncing map →
        (s.broker.coordinator.handleSyncGroup c.groupId c.memberId c.generationId map).1 =
          if s.broker.generation? c.groupId = some c.generationId then .ok []
          else .error "Invalid generation id"
  | .heartbeat i k now =>
      ∀ c ∈ s.consumers[i]?, ∀ t ∈ c.tasks[k]?,
        heartbeatResponse (s.broker.coordinator.handleHeartbeat c.groupId t.1 t.2 now).1 =
          .ok (if s.broker.generation? c.groupId = some t.2 then (true, 0) else (false, 1))
  | _ => True

theorem Sound.answers (h : s.Sound) (op : Op) : s.Answers op := by
  cases op with
  | serve i uuid now =>
      intro c hc map hstage
      have hsound := h.consumers c (List.mem_of_getElem? hc)
      have hsyncing := hsound.stage
      rw [hstage] at hsyncing
      obtain ⟨rfl, hmember⟩ := hsyncing
      exact GroupRun.sync_answer h.unassigned (hsound.member.resolve_left hmember) _
  | heartbeat i k now =>
      intro c hc t ht
      have hsound := h.consumers c (List.mem_of_getElem? hc)
      exact GroupRun.heartbeat_answer (hsound.tasks t (List.mem_of_getElem? ht)) _ now
  | _ => trivial

/-- **The generation decides.**  In every run, the SyncGroup of a consumer is answered with
an empty assignment if its group is still in the generation that the consumer has joined,
and refused for its generation otherwise; its heartbeats get `success` or the error code
of a rebalance by the same rule.  Nobody is ever told that a group or a member is unknown. -/
theorem answers_name_the_generation (ops : List Op) : Along step Answers init ops :=
  Along.of_along sound_init (Along.of_forall fun _ _ => trivial : Along step (fun _ _ => True) _ _)
    (fun _ op h _ => h.step op) fun _ op h _ => h.answers op

end Net

end GroupClients

/-! ### A group without its leader -/

namespace GroupRun

/-- The group waits in a generation for its leader `l`. -/
def Waits (r : GroupRun) (gid l : String) (generationId : Int32) : Prop :=
  ∃ g, r.group gid = some g ∧ g.state = .preparingRebalance ∧ g.leaderId = some l ∧
    g.generationId = generationId

instance (r : GroupRun) (gid l : String) (generationId : Int32) :
    Decidable (r.Waits gid l generationId) :=
  match h : r.group gid with
  | some g =>
      decidable_of_iff (g.state = .preparingRebalance ∧ g.leaderId = some l ∧
        g.generationId = generationId) (by simp [Waits, h])
  | none => .isFalse (by simp [Waits, h])

/-- Only the SyncGroup of the leader ends the wait. -/
theorem Waits.step {r : GroupRun} {gid l : String} {generationId : Int32} {op : GroupOp}
    (h : r.Waits gid l generationId) (hop : ∀ gen map, op ≠ .sync gid l gen map) :
    (r.step op).Waits gid l generationId := by
  obtain ⟨g, hg, hstate, hleader, hgen⟩ := h
  cases op with
  | join gid₀ mid cid pt ts uuid now =>
      by_cases hgid : gid = gid₀
      · subst hgid
        refine ⟨_, by rw [group_step_join, if_pos rfl], ?_⟩
        rw [joined_eq hg]
        generalize (if mid = "" then cid ++ "-" ++ uuid else mid) = mid
        have hnone : ¬ (g.state = .stable ∨ g.state = .empty) := by simp [hstate]
        obtain ⟨-, hstate', hgen'⟩ :=
          (g.join_generation mid cid pt ts now).resolve_left fun hopens => hnone hopens.1
        refine ⟨hstate'.trans hstate, ?_, hgen'.trans hgen⟩
        rw [g.join_leaderId, hleader, Option.getD_some]
      · exact ⟨g, by rw [group_step_join, if_neg hgid, hg], hstate, hleader, hgen⟩
  | sync gid₀ mid gen map =>
      by_cases hgid : gid = gid₀
      · subst hgid
        have hsilent : ¬ g.LeaderSpeaks mid := by
          rintro ⟨-, hspeaks⟩
          cases hleader.symm.trans hspeaks
          exact hop gen map rfl
        refine ⟨g, ?_, hstate, hleader, hgen⟩
        rw [group_step_sync, if_pos rfl, hg, Option.map_some, g.sync_of_not_speaks hsilent, ite_self]
      · exact ⟨g, by rw [group_step_sync, if_neg hgid, hg], hstate, hleader, hgen⟩
  | heartbeat gid₀ mid gen now =>
      by_cases hgid : gid = gid₀
      · subst hgid
        refine ⟨if g.generationId = gen then g.heartbeat mid now else g,
          by rw [group_step_heartbeat, if_pos rfl, hg, Option.map_some], ?_⟩
        split
        · exact ⟨hstate, hleader, hgen⟩
        · exact ⟨hstate, hleader, hgen⟩
      · exact ⟨g, by rw [group_step_heartbeat, if_neg hgid, hg], hstate, hleader, hgen⟩

end GroupRun

namespace GroupClients

variable {gid l : String} {generationId : Int32}

/-- The request is no SyncGroup of the member `l` of the group. -/
def Request.Spares (gid l : String) : Request → Prop
  | .join .. => True
  | .sync groupId memberId _ _ => groupId = gid → memberId ≠ l

instance (gid l : String) : ∀ q, Decidable (Request.Spares gid l q)
  | .join .. => .isTrue trivial
  | .sync groupId memberId _ _ => inferInstanceAs (Decidable (groupId = gid → memberId ≠ l))

/-- A consumer at this stage is not about to sync for the member `l`. -/
def Stage.Spares (l memberId : String) : Stage → Prop
  | .joining _ => memberId ≠ l
  | .joined (.ok (newMemberId, _)) => newMemberId ≠ l
  | .syncing _ => memberId ≠ l
  | _ => True

instance (l memberId : String) : ∀ stage, Decidable (Stage.Spares l memberId stage)
  | .idle => .isTrue trivial
  | .joining _ => inferInstanceAs (Decidable (memberId ≠ l))
  | .joined (.ok (newMemberId, _)) => inferInstanceAs (Decidable (newMemberId ≠ l))
  | .joined (.error _) => .isTrue trivial
  | .syncing _ => inferInstanceAs (Decidable (memberId ≠ l))
  | .synced _ => .isTrue trivial

/-- The consumer is not about to sync for the member `l` of the group. -/
def Consumer.Spares (gid l : String) (c : Consumer) : Prop :=
  c.groupId = gid → c.stage.Spares l c.memberId

instance (gid l : String) (c : Consumer) : Decidable (c.Spares gid l) :=
  inferInstanceAs (Decidable (c.groupId = gid → c.stage.Spares l c.memberId))

namespace Consumer

variable {c : Consumer}

theorem Spares.subscribe (h : c.Spares gid l) (hop : c.groupId = gid → c.memberId ≠ l)
    (topic : String) : (c.subscribe topic).Spares gid l := by
  unfold Consumer.subscribe
  split
  · exact hop
  · exact h

theorem Spares.served (h : c.Spares gid l) (coordinator : GroupCoordinator) (uuid : String)
    (now : SystemTime)
    (hfresh : c.groupId = gid → c.memberId = "" → c.consumerId ++ "-" ++ uuid ≠ l) :
    (c.served coordinator uuid now).Spares gid l := by
  unfold Consumer.served
  cases hc : c.stage with
  | joining topic =>
      intro hgid
      have hmember := h hgid
      rw [hc] at hmember
      show (if c.memberId = "" then c.consumerId ++ "-" ++ uuid else c.memberId) ≠ l
      split
      · rename_i hnew
        exact hfresh hgid hnew
      · exact hmember
  | syncing map => exact fun _ => trivial
  | _ => exact h

theorem Spares.receive (h : c.Spares gid l) : c.receive.Spares gid l := by
  unfold Consumer.receive
  cases hc : c.stage with
  | joined response =>
      cases response with
      | error e => exact fun _ => trivial
      | ok answer =>
          intro hgid
          have hanswer := h hgid
          rwa [hc] at hanswer
  | synced response =>
      cases response with
      | error e => exact fun _ => trivial
      | ok bytes => exact fun _ => trivial
  | _ => exact h

theorem Spares.request (h : c.Spares gid l) : ∀ q ∈ c.request?, q.Spares gid l := by
  intro q hq
  unfold Consumer.request? at hq
  cases hc : c.stage with
  | joining topic =>
      rw [hc] at hq
      cases hq
      trivial
  | syncing map =>
      rw [hc] at hq
      cases hq
      intro hgid
      have hmember := h hgid
      rwa [hc] at hmember
  | _ =>
      rw [hc] at hq
      cases hq

end Consumer

theorem Request.Spares.op_ne {q : Request} (h : q.Spares gid l) (uuid : String) (now : SystemTime)
    (gen : Int32) (map : AssignmentMap) : q.op uuid now ≠ .sync gid l gen map := by
  cases q with
  | join => exact fun heq => by cases heq
  | sync groupId memberId gen' map' =>
      intro heq
      cases heq
      exact h rfl rfl

namespace Net

variable {s : Net}

/-- Nobody is about to sync for the member `l` of the group. -/
structure Silent (s : Net) (gid l : String) : Prop where
  consumers : ∀ c ∈ s.consumers, c.Spares gid l
  orphans : ∀ q ∈ s.orphans, q.Spares gid l

/-- The consumer that is the member `l` of the group does not subscribe, and nobody else
gets its id. -/
def Avoids (gid l : String) (s : Net) : Op → Prop
  | .subscribe i _ => ∀ c ∈ s.consumers[i]?, c.groupId = gid → c.memberId ≠ l
  | .serve i uuid _ =>
      ∀ c ∈ s.consumers[i]?, c.groupId = gid → c.memberId = "" → c.consumerId ++ "-" ++ uuid ≠ l
  | _ => True

instance (gid l : String) (s : Net) : ∀ op, Decidable (Avoids gid l s op)
  | .connect .. => .isTrue trivial
  | .subscribe i _ => Option.decidableForallMem (s.consumers[i]?)
  | .serve i _ _ => Option.decidableForallMem (s.consumers[i]?)
  | .receive _ => .isTrue trivial
  | .fail _ => .isTrue trivial
  | .serveOrphan .. => .isTrue trivial
  | .heartbeat .. => .isTrue trivial

theorem Silent.step (h : s.Silent gid l) {op : Op} (hop : s.Avoids gid l op) :
    (s.step op).Silent gid l := by
  constructor
  · show ∀ c ∈ s.consumersAfter op, c.Spares gid l
    intro c hc
    cases op with
    | connect consumerId groupId =>
        rcases List.mem_append.mp hc with hold | hnew
        · exact h.consumers c hold
        · rw [List.mem_singleton.mp hnew]
          exact fun _ => trivial
    | subscribe i topic =>
        rcases mem_modify_cases hc with hold | ⟨c, hget, rfl⟩
        · exact h.consumers _ hold
        · exact (h.consumers c (List.mem_of_getElem? hget)).subscribe (hop c hget) topic
    | serve i uuid now =>
        rcases mem_modify_cases hc with hold | ⟨c, hget, rfl⟩
        · exact h.consumers _ hold
        · exact (h.consumers c (List.mem_of_getElem? hget)).served _ uuid now (hop c hget)
    | receive i =>
        rcases mem_modify_cases hc with hold | ⟨c, hget, rfl⟩
        · exact h.consumers _ hold
        · exact (h.consumers c (List.mem_of_getElem? hget)).receive
    | fail i =>
        rcases mem_modify_cases hc with hold | ⟨c, hget, rfl⟩
        · exact h.consumers _ hold
        · exact fun _ => trivial
    | serveOrphan j uuid now => exact h.consumers c hc
    | heartbeat i k now => exact h.consumers c hc
  · show ∀ q ∈ s.orphansAfter op, q.Spares gid l
    intro q hq
    cases op with
    | fail i =>
        rcases List.mem_append.mp hq with hold | hnew
        · exact h.orphans q hold
        · obtain ⟨c, hc, hrequest⟩ := Option.bind_eq_some_iff.mp (Option.mem_toList.mp hnew)
          exact (h.consumers c (List.mem_of_getElem? hc)).request q hrequest
    | serveOrphan j uuid now => exact h.orphans q (List.mem_of_mem_eraseIdx hq)
    | _ => exact h.orphans q hq

theorem Silent.waits (h : s.Silent gid l) (hwaits : s.broker.Waits gid l generationId) (op : Op) :
    (s.step op).broker.Waits gid l generationId := by
  show ((s.call? op).elim s.broker s.broker.step).Waits gid l generationId
  cases hcall : s.call? op with
  | none => exact hwaits
  | some call =>
      refine hwaits.step fun gen map => ?_
      obtain ⟨q, uuid, now, rfl, hq | ⟨c, hc, hq⟩⟩ | ⟨c, -, t, -, now, rfl⟩ := call?_cases hcall
      · exact (h.orphans q hq).op_ne uuid now gen map
      · exact ((h.consumers c hc).request q hq).op_ne uuid now gen map
      · exact fun heq => by cases heq

/-- What the consumers of a group are told that waits in a generation: those that have joined
it can sync, the heartbeats of those before it are answered with a rebalance. -/
structure Stalled (s : Net) (gid l : String) (generationId : Int32) : Prop where
  waits : s.broker.Waits gid l generationId
  syncs : ∀ c ∈ s.consumers, c.groupId = gid → c.generationId = generationId →
    ∀ map, c.stage = .syncing map →
      (s.broker.coordinator.handleSyncGroup gid c.memberId c.generationId map).1 = .ok []
  heartbeats : ∀ c ∈ s.consumers, c.groupId = gid → ∀ t ∈ c.tasks, t.2 ≠ generationId → ∀ now,
    heartbeatResponse (s.broker.coordinator.handleHeartbeat gid t.1 t.2 now).1 = .ok (false, 1)

theorem Sound.stalled (h : s.Sound) (hwaits : s.broker.Waits gid l generationId) :
    s.Stalled gid l generationId := by
  have hgeneration : s.broker.generation? gid = some generationId := by
    obtain ⟨g, hg, -, -, hgen⟩ := hwaits
    rw [GroupRun.generation?, hg, Option.map_some, hgen]
  refine ⟨hwaits, ?_, ?_⟩
  · rintro c hc rfl heq map hstage
    have hsound := h.consumers c hc
    have hsyncing := hsound.stage
    rw [hstage] at hsyncing
    obtain ⟨rfl, hmember⟩ := hsyncing
    rw [GroupRun.sync_answer h.unassigned (hsound.member.resolve_left hmember), hgeneration,
      if_pos (by rw [heq])]
  · rintro c hc rfl t ht hne now
    rw [GroupRun.heartbeat_answer ((h.consumers c hc).tasks t ht), hgeneration,
      if_neg fun heq => hne (Option.some.inj heq).symm]

/-- **A rebalance waits for the leader.**  Once a group is rebalancing in a run, under a
leader that is not about to sync, and for as long as the consumer that leads it does not
subscribe and its member id is not given away: the group stays in its generation, whoever
joins and syncs; all who join get through with nothing assigned; and all who have joined
before are told to rebalance with every heartbeat. -/
theorem stalls_without_leader (before after : List Op) (gid l : String) (generationId : Int32)
    (hwaits : (before.foldl step init).broker.Waits gid l generationId)
    (hsilent : (before.foldl step init).Silent gid l)
    (hafter : Along step (Avoids gid l) (before.foldl step init) after) :
    Always step (fun s => s.Stalled gid l generationId) (before.foldl step init) after := by
  have hsound := (sound_always before).last
  have hall : Always step (fun s => s.Sound ∧ s.Silent gid l ∧
      s.broker.Waits gid l generationId) (before.foldl step init) after :=
    Always.of_along ⟨hsound, hsilent, hwaits⟩ hafter fun s op h hop =>
      ⟨h.1.step op, h.2.1.step hop, h.2.1.waits h.2.2 op⟩
  exact hall.mono fun s h => h.1.stalled h.2.2

/-- One consumer has subscribed, and another one joins its group. -/
def secondJoins : List Op :=
  [.connect "a" "g", .subscribe 0 "t", .serve 0 "1" .unixEpoch, .receive 0,
    .serve 0 "" .unixEpoch, .receive 0, .connect "b" "g", .subscribe 1 "t",
    .serve 1 "2" .unixEpoch]

/-- The second one goes on, and the first sends a heartbeat. -/
def firstBeats : List Op :=
  [.receive 1, .serve 1 "" .unixEpoch, .receive 1, .heartbeat 0 0 .unixEpoch]

theorem stalls_without_leader_secondJoins :
    (secondJoins.foldl step init).broker.Waits "g" "a-1" 2 ∧
    (secondJoins.foldl step init).Silent "g" "a-1" ∧
    Along step (Avoids "g" "a-1") (secondJoins.foldl step init) firstBeats ∧
    Always step (fun s => s.Stalled "g" "a-1" 2) (secondJoins.foldl step init) firstBeats := by
  have hwaits : (secondJoins.foldl step init).broker.Waits "g" "a-1" 2 := by
    decide +kernel
  have hsilent : (secondJoins.foldl step init).Silent "g" "a-1" :=
    ⟨by decide +kernel, by decide +kernel⟩
  have hafter : Along step (Avoids "g" "a-1") (secondJoins.foldl step init) firstBeats := by
    decide +kernel
  exact ⟨hwaits, hsilent, hafter,
    stalls_without_leader secondJoins firstBeats "g" "a-1" 2 hwaits hsilent hafter⟩

end Net

end GroupClients

end Rafka
