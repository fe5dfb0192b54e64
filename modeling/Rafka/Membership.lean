/-
Rafka/Membership.lean

The members of a cluster (`ClusterManager` in `crates/core/src/cluster.rs`, and the calls
`join_cluster`, `get_cluster_info`, `health_check` and `load_cluster_config` of the broker).

A broker learns of the others from its configuration and from those that join.  Each call
takes the lock of the table once for every broker that it adds and once for every look that
it takes, and other calls may run in between: a joining broker is added first and gets the
list of the members later, and the size of the cluster is counted in another look than the
one that lists it.

Main result (`answers_are_snapshots`): in every run, each list of members is that of one
moment of the call, and has each member once, as it was last announced by then.  So a broker
that has joined finds itself in its own answer, and every later call finds it too, and the
size of the cluster is that of the same moment or of a later one.  Nothing ever makes a member
unhealthy, or takes it out of the table.
-/
import Rafka.Routing
import Rafka.Trace

namespace Rafka

/-! ### Records -/

/-- `BrokerConfig`. -/
structure BrokerConfig where
  brokerId : String
  address : String
  port : UInt16
  partitionId : UInt32
  totalPartitions : UInt32

/-- `JoinClusterRequest`. -/
structure JoinClusterRequest where
  brokerId : String
  address : String
  port : Int32
  partitionId : Int32
  totalPartitions : Int32

/-- `BrokerInfo` with its `last_health_check`. -/
structure ClusterBroker extends BrokerInfo where
  lastHealthCheck : SystemTime

/-- `ProtoBrokerInfo`. -/
structure ProtoBrokerInfo where
  brokerId : String
  address : String
  port : Int32
  partitionId : Int32
  totalPartitions : Int32
  isHealthy : Bool

/-- `BrokerInfo::new`. -/
def BrokerInfo.ofConfig (config : BrokerConfig) : BrokerInfo where
  brokerId := config.brokerId
  address := config.address
  port := config.port
  partitionId := config.partitionId
  totalPartitions := config.totalPartitions
  isHealthy := true

/-- The record that `join_cluster` makes of a request. -/
def BrokerInfo.ofRequest (req : JoinClusterRequest) : BrokerInfo where
  brokerId := req.brokerId
  address := req.address
  port := req.port.toUInt32.toUInt16
  partitionId := req.partitionId.toUInt32
  totalPartitions := req.totalPartitions.toUInt32
  isHealthy := true

/-- The record that an answer has of a member. -/
def ProtoBrokerInfo.ofBroker (broker : BrokerInfo) : ProtoBrokerInfo where
  brokerId := broker.brokerId
  address := broker.address
  port := broker.port.toUInt32.toInt32
  partitionId := broker.partitionId.toInt32
  totalPartitions := broker.totalPartitions.toInt32
  isHealthy := broker.isHealthy

/-! ### The table -/

/-- `ClusterManager`. -/
structure ClusterManager where
  brokers : HashMap String ClusterBroker

namespace ClusterManager

/-- `ClusterManager::add_broker`. -/
def addBroker (m : ClusterManager) (broker : ClusterBroker) : ClusterManager :=
  { m with brokers := m.brokers.insert broker.brokerId broker }

/-- `ClusterManager::get_all_brokers`, where the map iterates in this order. -/
def getAllBrokers (m : ClusterManager) (order : List String) : List ClusterBroker :=
  (HashMap.iter order m.brokers).map Prod.snd

/-- `ClusterManager::update_broker_health`. -/
def updateBrokerHealth (m : ClusterManager) (brokerId : String) (isHealthy : Bool)
    (now : SystemTime) : ClusterManager :=
  { m with
    brokers := HashMap.modify brokerId
      (fun broker => { broker with isHealthy, lastHealthCheck := now }) m.brokers }

end ClusterManager

/-! ### The calls -/

/-- A call of the broker that reads or writes the table. -/
inductive ClusterCall
  | joinCluster (req : JoinClusterRequest)
  | getClusterInfo
  | healthCheck (brokerId : String)
  | loadClusterConfig (brokers : List BrokerConfig)

/-- Where a call stands. -/
inductive ClusterStage
  | called (call : ClusterCall)
  /-- `join_cluster` has added the broker. -/
  | added (req : JoinClusterRequest)
  | joined (req : JoinClusterRequest) (existingBrokers : List ProtoBrokerInfo)
  /-- `get_cluster_info` has listed the members. -/
  | listed (brokers : List ProtoBrokerInfo)
  | informed (brokers : List ProtoBrokerInfo) (clusterSize : Int32)
  | loading (brokers : List BrokerConfig)
  | loaded
  | healthy (timestamp : Int64)
  /-- The clock is before the epoch. -/
  | panicked

/-- A call under way, with how many members had been announced when it was made. -/
structure ClusterTask where
  since : Nat
  stage : ClusterStage

/-- The table, the calls, and what has been announced, in this order. -/
structure ClusterRun where
  manager : ClusterManager
  tasks : List ClusterTask
  announced : List BrokerInfo

/-- A call is made, or goes on: with this reading of the clock, and this iteration of the
table if it looks at it. -/
inductive ClusterEvent
  | call (call : ClusterCall)
  | task (i : Nat) (order : List String) (now : SystemTime)

namespace ClusterRun

/-- A new broker. -/
def start : ClusterRun := ⟨⟨∅⟩, [], []⟩

/-- A member is added. -/
def announce (s : ClusterRun) (broker : BrokerInfo) (now : SystemTime) : ClusterRun :=
  { s with
    manager := s.manager.addBroker ⟨broker, now⟩
    announced := s.announced ++ [broker] }

/-- The members in an answer. -/
def list (s : ClusterRun) (order : List String) : List ProtoBrokerInfo :=
  (s.manager.getAllBrokers order).map fun broker => .ofBroker broker.toBrokerInfo

/-- One step of a call.  A list that is no iteration of the table is of no use. -/
def proceed (s : ClusterRun) (order : List String) (now : SystemTime) :
    ClusterStage → ClusterRun × ClusterStage
  | .called (.joinCluster req) => (s.announce (.ofRequest req) now, .added req)
  | .added req =>
      if HashMap.Enumerates order s.manager.brokers then (s, .joined req (s.list order))
      else (s, .added req)
  | .called .getClusterInfo =>
      if HashMap.Enumerates order s.manager.brokers then (s, .listed (s.list order))
      else (s, .called .getClusterInfo)
  | .listed brokers =>
      if HashMap.Enumerates order s.manager.brokers then
        (s, .informed brokers (.ofNat (s.manager.getAllBrokers order).length))
      else (s, .listed brokers)
  | .called (.healthCheck brokerId) =>
      ({ s with manager := s.manager.updateBrokerHealth brokerId true now },
        match now.durationSince .unixEpoch with
        | some elapsed => .healthy (.ofNat (elapsed / 10 ^ 9))
        | none => .panicked)
  | .called (.loadClusterConfig brokers) => (s, .loading brokers)
  | .loading (config :: brokers) => (s.announce (.ofConfig config) now, .loading brokers)
  | .loading [] => (s, .loaded)
  | stage => (s, stage)

/-- One step. -/
def step (s : ClusterRun) : ClusterEvent → ClusterRun
  | .call call => { s with tasks := s.tasks ++ [⟨s.announced.length, .called call⟩] }
  | .task i order now =>
      match s.tasks[i]? with
      | some task =>
          let (s', stage) := s.proceed order now task.stage
          { s' with tasks := s.tasks.set i { task with stage } }
      | none => s

end ClusterRun

/-! ### What has been announced -/

/-- The last announcement of a member. -/
def lastAnnounced (brokerId : String) (announced : List BrokerInfo) : Option BrokerInfo :=
  announced.reverse.find? fun broker => broker.brokerId = brokerId

/-- How many members have been announced. -/
def membersOf (announced : List BrokerInfo) : Nat :=
  (announced.map BrokerInfo.brokerId).toFinset.card

/-- The list has each member once, as it was last announced. -/
structure Lists (announced : List BrokerInfo) (brokers : List ProtoBrokerInfo) : Prop where
  nodup : (brokers.map ProtoBrokerInfo.brokerId).Nodup
  mem_iff : ∀ p, p ∈ brokers ↔
    ∃ broker, lastAnnounced p.brokerId announced = some broker ∧ p = .ofBroker broker

namespace ClusterTask

/-- The lists of the call are those of moments since it was made. -/
def Sound (announced : List BrokerInfo) (task : ClusterTask) : Prop :=
  match task.stage with
  | .added req => ∃ j, task.since ≤ j ∧ announced[j]? = some (.ofRequest req)
  | .joined req existingBrokers =>
      ∃ j k, task.since ≤ j ∧ j < k ∧ k ≤ announced.length ∧
        announced[j]? = some (.ofRequest req) ∧ Lists (announced.take k) existingBrokers
  | .listed brokers =>
      ∃ k, task.since ≤ k ∧ k ≤ announced.length ∧ Lists (announced.take k) brokers
  | .informed brokers clusterSize =>
      ∃ k k', task.since ≤ k ∧ k ≤ k' ∧ k' ≤ announced.length ∧ Lists (announced.take k) brokers ∧
        clusterSize = .ofNat (membersOf (announced.take k'))
  | _ => True

end ClusterTask

section Announced

variable {announced : List BrokerInfo} {broker : BrokerInfo} {id : String}

theorem lastAnnounced_concat (announced : List BrokerInfo) (broker : BrokerInfo) (id : String) :
    lastAnnounced id (announced ++ [broker]) =
      if id = broker.brokerId then some broker else lastAnnounced id announced := by
  rw [lastAnnounced, List.reverse_concat, List.find?_cons]
  by_cases hid : id = broker.brokerId
  · simp [hid]
  · simp [hid, Ne.symm hid, lastAnnounced]

theorem brokerId_of_lastAnnounced (h : lastAnnounced id announced = some broker) :
    broker.brokerId = id := by
  have hfound := List.find?_some (p := fun broker : BrokerInfo => broker.brokerId = id) h
  exact of_decide_eq_true hfound

theorem mem_of_lastAnnounced (h : lastAnnounced id announced = some broker) :
    broker ∈ announced :=
  List.mem_reverse.mp (List.mem_of_find?_eq_some h)

theorem lastAnnounced_isSome :
    (lastAnnounced id announced).isSome ↔ id ∈ announced.map BrokerInfo.brokerId := by
  rw [lastAnnounced, List.find?_isSome, List.mem_map]
  simp

end Announced

namespace ClusterRun

variable {s : ClusterRun} {order : List String}

/-- The table has what was last announced, and all members are healthy. -/
structure Faithful (s : ClusterRun) : Prop where
  lookup : ∀ id, (s.manager.brokers.lookup id).map ClusterBroker.toBrokerInfo =
    lastAnnounced id s.announced
  healthy : ∀ broker ∈ s.announced, broker.isHealthy = true

theorem faithful_start : start.Faithful :=
  ⟨fun _ => rfl, fun _ h => absurd h List.not_mem_nil⟩

theorem Faithful.announce (h : s.Faithful) {broker : BrokerInfo} (hhealthy : broker.isHealthy = true)
    (now : SystemTime) : (s.announce broker now).Faithful := by
  refine ⟨fun id => ?_, fun other hother => ?_⟩
  · show ((s.manager.brokers.insert broker.brokerId _).lookup id).map _ =
      lastAnnounced id (s.announced ++ [broker])
    rw [HashMap.lookup_insert_eq, lastAnnounced_concat]
    split
    · rfl
    · exact h.lookup id
  · cases List.mem_append.mp hother with
    | inl hother => exact h.healthy other hother
    | inr hother =>
        rw [List.mem_singleton.mp hother]
        exact hhealthy

theorem Faithful.updateBrokerHealth (h : s.Faithful) (brokerId : String) (now : SystemTime) :
    Faithful { s with manager := s.manager.updateBrokerHealth brokerId true now } := by
  refine ⟨fun id => ?_, h.healthy⟩
  show ((HashMap.modify brokerId _ s.manager.brokers).lookup id).map _ = lastAnnounced id s.announced
  rw [← h.lookup id, HashMap.lookup_modify]
  split
  · rename_i hid
    subst hid
    rw [Option.map_map]
    cases hbroker : s.manager.brokers.lookup id with
    | none => rfl
    | some broker =>
        -- it is healthy already
        have hlast : lastAnnounced id s.announced = some broker.toBrokerInfo := by
          rw [← h.lookup id, hbroker, Option.map_some]
        have hhealthy := h.healthy broker.toBrokerInfo (mem_of_lastAnnounced hlast)
        apply congrArg some
        show { broker.toBrokerInfo with isHealthy := true } = broker.toBrokerInfo
        rw [← hhealthy]
  · rfl

theorem Faithful.brokerId_eq (h : s.Faithful) {id : String} {broker : ClusterBroker}
    (hbroker : s.manager.brokers.lookup id = some broker) : broker.brokerId = id := by
  have hlast : lastAnnounced id s.announced = some broker.toBrokerInfo := by
    rw [← h.lookup id, hbroker, Option.map_some]
  exact brokerId_of_lastAnnounced hlast

/-- A look finds what has been announced. -/
theorem Faithful.lists (h : s.Faithful) (horder : HashMap.Enumerates order s.manager.brokers) :
    Lists s.announced (s.list order) := by
  constructor
  · have hids : (s.list order).map ProtoBrokerInfo.brokerId =
        (HashMap.iter order s.manager.brokers).map Prod.fst := by
      rw [list, ClusterManager.getAllBrokers, List.map_map, List.map_map]
      apply List.map_congr_left
      rintro ⟨id, broker⟩ hmem
      exact h.brokerId_eq (HashMap.lookup_of_mem_iter hmem)
    rw [hids]
    exact horder.1.sublist (HashMap.map_fst_iter_sublist order s.manager.brokers)
  · intro p
    rw [list, ClusterManager.getAllBrokers, List.map_map]
    constructor
    · intro hp
      obtain ⟨⟨id, broker⟩, hmem, rfl⟩ := List.mem_map.mp hp
      have hbroker := HashMap.lookup_of_mem_iter hmem
      have hid : broker.brokerId = id := h.brokerId_eq hbroker
      refine ⟨broker.toBrokerInfo, ?_, rfl⟩
      show lastAnnounced broker.brokerId s.announced = _
      rw [hid, ← h.lookup id, hbroker, Option.map_some]
    · rintro ⟨broker, hlast, rfl⟩
      have hlookup : (s.manager.brokers.lookup broker.brokerId).map ClusterBroker.toBrokerInfo =
          some broker := (h.lookup broker.brokerId).trans hlast
      obtain ⟨entry, hentry, rfl⟩ := Option.map_eq_some_iff.mp hlookup
      exact List.mem_map.mpr ⟨(_, entry), horder.mem_iter.mpr hentry, rfl⟩

theorem Faithful.length_getAllBrokers (h : s.Faithful)
    (horder : HashMap.Enumerates order s.manager.brokers) :
    (s.manager.getAllBrokers order).length = membersOf s.announced := by
  have hkeys : s.manager.brokers.keys = (s.announced.map BrokerInfo.brokerId).toFinset := by
    ext id
    rw [Finmap.mem_keys, ← Finmap.lookup_isSome, List.mem_toFinset, ← lastAnnounced_isSome,
      ← h.lookup id, Option.isSome_map]
  have hlength : (s.manager.getAllBrokers order).length = s.manager.brokers.keys.card := by
    rw [ClusterManager.getAllBrokers, HashMap.map_snd_iter, ← Multiset.coe_card,
      horder.coe_filterMap_lookup, Multiset.card_map, ← horder.2, List.toFinset_card_of_nodup horder.1,
      ← Multiset.coe_card, horder.coe_eq, Multiset.card_map]
  rw [hlength, hkeys, membersOf]

end ClusterRun

namespace ClusterTask

variable {announced : List BrokerInfo} {task : ClusterTask}

theorem getElem?_concat {x : BrokerInfo} {j : Nat} (h : announced[j]? = some x)
    (broker : BrokerInfo) : (announced ++ [broker])[j]? = some x := by
  rw [List.getElem?_append_left (List.getElem?_eq_some_iff.mp h).1, h]

/-- What a call has seen stays what it was. -/
theorem Sound.concat (h : task.Sound announced) (broker : BrokerInfo) :
    task.Sound (announced ++ [broker]) := by
  obtain ⟨since, stage⟩ := task
  have hlength : announced.length ≤ (announced ++ [broker]).length := by simp
  cases stage with
  | added req =>
      obtain ⟨j, hj, hannounced⟩ := h
      exact ⟨j, hj, getElem?_concat hannounced broker⟩
  | joined req existingBrokers =>
      obtain ⟨j, k, hj, hk, hle, hannounced, hlists⟩ := h
      refine ⟨j, k, hj, hk, hle.trans hlength, getElem?_concat hannounced broker, ?_⟩
      rw [List.take_append_of_le_length hle]
      exact hlists
  | listed brokers =>
      obtain ⟨k, hk, hle, hlists⟩ := h
      refine ⟨k, hk, hle.trans hlength, ?_⟩
      rw [List.take_append_of_le_length hle]
      exact hlists
  | informed brokers clusterSize =>
      obtain ⟨k, k', hk, hkk', hle, hlists, hsize⟩ := h
      refine ⟨k, k', hk, hkk', hle.trans hlength, ?_, ?_⟩
      · rw [List.take_append_of_le_length (hkk'.trans hle)]
        exact hlists
      · rw [List.take_append_of_le_length hle]
        exact hsize
  | called call => trivial
  | loading brokers => trivial
  | loaded => trivial
  | healthy timestamp => trivial
  | panicked => trivial

end ClusterTask

namespace ClusterRun

/-- The table is faithful, and so are the lists that have been made of it. -/
structure Ok (s : ClusterRun) : Prop where
  faithful : s.Faithful
  since_le : ∀ task ∈ s.tasks, task.since ≤ s.announced.length
  sound : ∀ task ∈ s.tasks, task.Sound s.announced

variable {s : ClusterRun} {order : List String}

theorem ok_start : start.Ok :=
  ⟨faithful_start, fun _ h => absurd h List.not_mem_nil, fun _ h => absurd h List.not_mem_nil⟩

/-- A step of a call announces a member, or leaves what has been announced. -/
theorem announced_proceed (s : ClusterRun) (order : List String) (now : SystemTime)
    (stage : ClusterStage) :
    (s.proceed order now stage).1.announced = s.announced ∨
      ∃ broker, (s.proceed order now stage).1.announced = s.announced ++ [broker] := by
  cases stage with
  | called call =>
      cases call with
      | joinCluster req => exact .inr ⟨.ofRequest req, rfl⟩
      | getClusterInfo =>
          left
          dsimp only [proceed]
          split
          · rfl
          · rfl
      | healthCheck brokerId => exact .inl rfl
      | loadClusterConfig brokers => exact .inl rfl
  | loading brokers =>
      cases brokers with
      | nil => exact .inl rfl
      | cons config brokers => exact .inr ⟨.ofConfig config, rfl⟩
  | added req =>
      left
      dsimp only [proceed]
      split
      · rfl
      · rfl
  | listed brokers =>
      left
      dsimp only [proceed]
      split
      · rfl
      · rfl
  | _ => exact .inl rfl

theorem Faithful.proceed (h : s.Faithful) (order : List String) (now : SystemTime)
    (stage : ClusterStage) : (s.proceed order now stage).1.Faithful := by
  cases stage with
  | called call =>
      cases call with
      | joinCluster req => exact h.announce rfl now
      | getClusterInfo =>
          dsimp only [ClusterRun.proceed]
          split
          · exact h
          · exact h
      | healthCheck brokerId => exact h.updateBrokerHealth brokerId now
      | loadClusterConfig brokers => exact h
  | loading brokers =>
      cases brokers with
      | nil => exact h
      | cons config brokers => exact h.announce rfl now
  | added req =>
      dsimp only [ClusterRun.proceed]
      split
      · exact h
      · exact h
  | listed brokers =>
      dsimp only [ClusterRun.proceed]
      split
      · exact h
      · exact h
  | _ => exact h

/-- What the step has made of the call is sound. -/
theorem Ok.sound_proceed (h : s.Ok) {task : ClusterTask} (htask : task ∈ s.tasks)
    (order : List String) (now : SystemTime) :
    ClusterTask.Sound (s.proceed order now task.stage).1.announced
      { task with stage := (s.proceed order now task.stage).2 } := by
  have hsince := h.since_le task htask
  have hsound := h.sound task htask
  obtain ⟨since, stage⟩ := task
  have htake : s.announced.take s.announced.length = s.announced := List.take_length
  cases stage with
  | called call =>
      cases call with
      | joinCluster req =>
          exact ⟨s.announced.length, hsince, List.getElem?_concat_length⟩
      | getClusterInfo =>
          dsimp only [ClusterRun.proceed]
          split
          · rename_i horder
            refine ⟨s.announced.length, hsince, Nat.le_refl _, ?_⟩
            rw [htake]
            exact h.faithful.lists horder
          · trivial
      | healthCheck brokerId =>
          dsimp only [ClusterRun.proceed]
          split
          · trivial
          · trivial
      | loadClusterConfig brokers => trivial
  | added req =>
      dsimp only [ClusterRun.proceed]
      split
      · rename_i horder
        obtain ⟨j, hj, hannounced⟩ := hsound
        refine ⟨j, s.announced.length, hj, (List.getElem?_eq_some_iff.mp hannounced).1,
          Nat.le_refl _, hannounced, ?_⟩
        rw [htake]
        exact h.faithful.lists horder
      · exact hsound
  | joined req existingBrokers => exact hsound
  | listed brokers =>
      dsimp only [ClusterRun.proceed]
      split
      · rename_i horder
        obtain ⟨k, hk, hle, hlists⟩ := hsound
        refine ⟨k, s.announced.length, hk, hle, Nat.le_refl _, hlists, ?_⟩
        rw [htake, h.faithful.length_getAllBrokers horder]
      · exact hsound
  | informed brokers clusterSize => exact hsound
  | loading brokers =>
      cases brokers with
      | nil => trivial
      | cons config brokers => trivial
  | loaded => trivial
  | healthy timestamp => trivial
  | panicked => trivial

theorem Ok.step (h : s.Ok) (e : ClusterEvent) : (s.step e).Ok := by
  cases e with
  | call call =>
      refine ⟨⟨h.faithful.lookup, h.faithful.healthy⟩, fun task htask => ?_, fun task htask => ?_⟩
      · cases List.mem_append.mp htask with
        | inl htask => exact h.since_le task htask
        | inr htask =>
            rw [List.mem_singleton.mp htask]
            exact Nat.le_refl _
      · cases List.mem_append.mp htask with
        | inl htask => exact h.sound task htask
        | inr htask =>
            rw [List.mem_singleton.mp htask]
            trivial
  | task i order now =>
      rw [ClusterRun.step]
      split
      · rename_i task hi
        have htask : task ∈ s.tasks := List.mem_of_getElem? hi
        have hfaithful := h.faithful.proceed order now task.stage
        -- what other calls have seen is still there
        have hgrows : ∀ other ∈ s.tasks,
            other.since ≤ (s.proceed order now task.stage).1.announced.length ∧
              other.Sound (s.proceed order now task.stage).1.announced := by
          intro other hother
          have hsince := h.since_le other hother
          rcases s.announced_proceed order now task.stage with hsame | ⟨broker, hmore⟩
          · rw [hsame]
            exact ⟨hsince, h.sound other hother⟩
          · rw [hmore, List.length_append]
            exact ⟨hsince.trans (Nat.le_add_right _ _), (h.sound other hother).concat broker⟩
        refine ⟨⟨hfaithful.lookup, hfaithful.healthy⟩, fun other hother => ?_, fun other hother => ?_⟩
        · rcases List.mem_or_eq_of_mem_set hother with hother | rfl
          · exact (hgrows other hother).1
          · exact (hgrows task htask).1
        · rcases List.mem_or_eq_of_mem_set hother with hother | rfl
          · exact (hgrows other hother).2
          · exact h.sound_proceed htask order now
      · exact h

/-- **The answers are snapshots.**  In every run, whatever the order in which the calls go on:
the table has each member as it was last announced, and healthy; and every list of members in
an answer is that of one moment of the call, after the joining broker has been added if it is
an answer to that, while the size of the cluster is that of the same moment or a later one. -/
theorem answers_are_snapshots (events : List ClusterEvent) :
    (∀ id, ((events.foldl step start).manager.brokers.lookup id).map ClusterBroker.toBrokerInfo =
      lastAnnounced id (events.foldl step start).announced) ∧
    (∀ broker ∈ (events.foldl step start).announced, broker.isHealthy = true) ∧
    ∀ task ∈ (events.foldl step start).tasks,
      task.Sound (events.foldl step start).announced := by
  have hok : (events.foldl step start).Ok :=
    List.foldlRecOn events _ ok_start fun _ h e _ => h.step e
  exact ⟨hok.faithful.lookup, hok.faithful.healthy, hok.sound⟩

end ClusterRun

end Rafka
