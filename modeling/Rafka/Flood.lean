/-
Rafka/Flood.lean

Gossip floods (`P2PMesh::process_gossip_message` in `crates/core/src/p2p_mesh.rs`).

A mesh that processes a message may put two messages on `gossip_tx`: the same one with
its ttl reduced, and, when a node has joined, an announcement of its own partition.  The
announcement starts with a ttl of 3, whatever ttl the join came with, and a forwarded copy
names the mesh that forwards it, so that it is not stopped where it has been before.

But an announcement is no join.  A message is therefore followed by messages of the same
kind with a smaller ttl and by messages of a lesser kind, and the deliveries cascade
downwards (`floods_die_out`).
-/
import Rafka.Cascade
import Rafka.Mesh

namespace Rafka

/-! ### What a mesh emits -/

/-- The message announces a node that joins. -/
def GossipMessageType.isJoin : GossipMessageType → Bool
  | .nodeJoin _ => true
  | _ => false

namespace P2PMesh

variable {m : P2PMesh} {message : GossipMessage} {now : EpochTime}

/-- What a mesh puts on `gossip_tx` while it processes a message. -/
def emitted (m : P2PMesh) (message : GossipMessage) (now : EpochTime) : List GossipMessage :=
  (m.processGossipMessage message now).sent.drop m.sent.length

/-- Only a join makes a mesh announce its partition. -/
theorem sent_receive (m : P2PMesh) (now : EpochTime) (type : GossipMessageType) :
    ∃ announced, (m.receive now type).sent = m.sent ++ announced ∧ announced.length ≤ 1 ∧
      ∀ e ∈ announced, type.isJoin = true ∧ e.messageType.isJoin = false ∧ e.ttl = 3 := by
  cases type with
  | nodeJoin nodeInfo =>
      refine ⟨_, rfl, Nat.le_refl 1, fun e he => ?_⟩
      rw [List.mem_singleton.mp he]
      exact ⟨rfl, rfl, rfl⟩
  | nodeLeave nodeId => exact ⟨[], (List.append_nil _).symm, Nat.zero_le 1, by simp⟩
  | nodeUpdate nodeInfo => exact ⟨[], (List.append_nil _).symm, Nat.zero_le 1, by simp⟩
  | heartbeat nodeId => exact ⟨[], (List.append_nil _).symm, Nat.zero_le 1, by simp⟩
  | partitionUpdate partitionId owner =>
      exact ⟨[], (List.append_nil _).symm, Nat.zero_le 1, by simp⟩
  | clusterState nodes => exact ⟨[], (List.append_nil _).symm, Nat.zero_le 1, by simp⟩

/-- **What follows a message.**  At most one announcement, after a join, and at most one
copy, with a ttl that is smaller by one. -/
theorem emitted_cases (m : P2PMesh) (message : GossipMessage) (now : EpochTime) :
    ∃ announced forwarded, m.emitted message now = announced ++ forwarded ∧
      announced.length ≤ 1 ∧ forwarded.length ≤ 1 ∧
      (announced ++ forwarded ≠ [] → 0 < message.ttl.toNat) ∧
      (∀ e ∈ announced, message.messageType.isJoin = true ∧ e.messageType.isJoin = false ∧
        e.ttl = 3) ∧
      ∀ e ∈ forwarded, e.messageType = message.messageType ∧
        e.ttl.toNat + 1 = message.ttl.toNat := by
  unfold emitted processGossipMessage
  split
  · exact ⟨[], [], by simp⟩
  · split
    · exact ⟨[], [], by simp⟩
    · rename_i httl
      have hpos : 0 < message.ttl.toNat := by
        rw [Nat.pos_iff_ne_zero]
        exact fun h => httl (UInt32.toNat_inj.mp h)
      obtain ⟨announced, hsent, hone, hannounced⟩ := m.sent_receive now message.messageType
      dsimp only
      split
      · -- the copy comes after the announcement
        refine ⟨announced, [{ message with
            ttl := message.ttl - 1
            fromNode := (m.receive now message.messageType).nodeId }],
          ?_, hone, Nat.le_refl 1, fun _ => hpos, hannounced, fun e he => ?_⟩
        · rw [send, hsent, List.append_assoc, List.drop_left]
        · rw [List.mem_singleton.mp he]
          refine ⟨rfl, ?_⟩
          have hone : (1 : UInt32) ≤ message.ttl := UInt32.le_iff_toNat_le.mpr hpos
          rw [UInt32.toNat_sub_of_le _ _ hone]
          exact Nat.sub_add_cancel hpos
      · refine ⟨announced, [], ?_, hone, Nat.zero_le 1, fun _ => hpos, hannounced, by simp⟩
        rw [hsent, List.drop_left, List.append_nil]

end P2PMesh

/-! ### Floods -/

/-- Some meshes, and the messages still to be handed to them. -/
structure Flood (ι : Type) where
  meshes : ι → P2PMesh
  pending : Multiset (ι × GossipMessage)

namespace Flood

variable {ι : Type} [DecidableEq ι]

/-- The deliveries of what a mesh emits, each message to its recipients. -/
def deliveries (recipients : GossipMessage → List ι) (emitted : List GossipMessage) :
    List (ι × GossipMessage) :=
  emitted.flatMap fun message => (recipients message).map fun i => (i, message)

/-- A message is handed to one of the meshes, which processes it; what it emits is to be
handed to its recipients. -/
inductive Step (recipients : GossipMessage → List ι) : Flood ι → Flood ι → Prop
  | process (s : Flood ι) (i : ι) (message : GossipMessage)
      (rest : Multiset (ι × GossipMessage)) (now : EpochTime)
      (hpending : s.pending = (i, message) ::ₘ rest) :
      Step recipients s
        { meshes := Function.update s.meshes i ((s.meshes i).processGossipMessage message now)
          pending := rest + deliveries recipients ((s.meshes i).emitted message now) }

/-- Joins come before all other messages, and greater ttls before smaller ones. -/
def rank (d : ι × GossipMessage) : ℕ ×ₗ ℕ :=
  toLex (if d.2.messageType.isJoin then 1 else 0, d.2.ttl.toNat)

/-- How often a message that is no join is processed, with `k` recipients for each copy. -/
def copyCost (k : ℕ) : ℕ → ℕ
  | 0 => 1
  | ttl + 1 => 1 + k * copyCost k ttl

/-- The same for a join, with the announcements. -/
def joinCost (k : ℕ) : ℕ → ℕ
  | 0 => 1
  | ttl + 1 => 1 + (k * copyCost k 3 + k * joinCost k ttl)

/-- How often a delivery makes a mesh process something. -/
def cost (k : ℕ) (d : ι × GossipMessage) : ℕ :=
  if d.2.messageType.isJoin then joinCost k d.2.ttl.toNat else copyCost k d.2.ttl.toNat

omit [DecidableEq ι] in
theorem deliveries_append (recipients : GossipMessage → List ι) (l l' : List GossipMessage) :
    deliveries recipients (l ++ l') = deliveries recipients l ++ deliveries recipients l' :=
  List.flatMap_append

omit [DecidableEq ι] in
theorem mem_deliveries {recipients : GossipMessage → List ι} {l : List GossipMessage}
    {d : ι × GossipMessage} (h : d ∈ deliveries recipients l) : d.2 ∈ l := by
  obtain ⟨message, hmessage, hd⟩ := List.mem_flatMap.mp h
  obtain ⟨i, -, rfl⟩ := List.mem_map.mp hd
  exact hmessage

/-- **Step lemma.**  What a step adds ranks below what it takes. -/
theorem Step.descends {recipients : GossipMessage → List ι} {s s' : Flood ι}
    (h : Step recipients s s') :
    Cascades pending (fun new job => ∀ d ∈ new, rank d < rank job) s s' := by
  obtain ⟨i, message, rest, now, hpending⟩ := h
  refine ⟨(i, message), rest, _, hpending, rfl, fun d hd => ?_⟩
  obtain ⟨announced, forwarded, hemitted, -, -, -, hannounced, hforwarded⟩ :=
    (s.meshes i).emitted_cases message now
  have hmem := mem_deliveries (Multiset.mem_coe.mp hd)
  rw [hemitted] at hmem
  rcases List.mem_append.mp hmem with hd | hd
  · -- an announcement is of a lesser kind
    obtain ⟨hjoin, hother, -⟩ := hannounced d.2 hd
    refine Prod.Lex.toLex_lt_toLex.mpr (.inl ?_)
    simp [hjoin, hother]
  · -- a copy has a smaller ttl
    obtain ⟨hkind, httl⟩ := hforwarded d.2 hd
    refine Prod.Lex.toLex_lt_toLex.mpr (.inr ⟨?_, ?_⟩)
    · simp only [hkind]
    · show d.2.ttl.toNat < message.ttl.toNat
      omega

omit [DecidableEq ι] in
/-- The cost of handing a message, if there is one, to at most `k` meshes. -/
theorem totalCost_deliveries_le {k c : ℕ} {recipients : GossipMessage → List ι}
    (hk : ∀ message, (recipients message).length ≤ k) {l : List GossipMessage}
    (hone : l.length ≤ 1) (hc : ∀ e ∈ l, ∀ i : ι, cost k (i, e) ≤ c) :
    totalCost (cost k) (deliveries recipients l : Multiset (ι × GossipMessage)) ≤ k * c := by
  cases l with
  | nil => exact Nat.zero_le _
  | cons e l =>
      obtain rfl : l = [] :=
        List.eq_nil_of_length_eq_zero (Nat.le_zero.mp (Nat.le_of_succ_le_succ hone))
      refine (Multiset.sum_le_card_nsmul _ c fun x hx => ?_).trans ?_
      · simp only [deliveries, List.flatMap_singleton, Multiset.map_coe, List.map_map,
          Multiset.mem_coe, List.mem_map] at hx
        obtain ⟨i, -, rfl⟩ := hx
        exact hc e (List.mem_singleton_self e) i
      · simp only [deliveries, List.flatMap_singleton, Multiset.card_map, Multiset.coe_card,
          List.length_map, smul_eq_mul]
        exact Nat.mul_le_mul_right c (hk e)

/-- **Step lemma.**  With at most `k` recipients for each message, a delivery pays for those
that follow it. -/
theorem Step.pays {k : ℕ} {recipients : GossipMessage → List ι}
    (hk : ∀ message, (recipients message).length ≤ k) {s s' : Flood ι}
    (h : Step recipients s s') :
    Cascades pending (fun new job => totalCost (cost k) new < cost k job) s s' := by
  obtain ⟨i, message, rest, now, hpending⟩ := h
  refine ⟨(i, message), rest, _, hpending, rfl, ?_⟩
  obtain ⟨announced, forwarded, hemitted, hone, hone', hpos, hannounced, hforwarded⟩ :=
    (s.meshes i).emitted_cases message now
  rw [hemitted, deliveries_append, ← Multiset.coe_add, totalCost_add]
  cases httl : message.ttl.toNat with
  | zero =>
      -- nothing follows a message that has expired
      have hnone : announced ++ forwarded = [] := by
        by_contra hsome
        have := hpos hsome
        omega
      obtain ⟨rfl, rfl⟩ := List.append_eq_nil_iff.mp hnone
      show 0 < cost k (i, message)
      simp only [cost, httl]
      split
      · exact Nat.one_pos
      · exact Nat.one_pos
  | succ ttl =>
      have httl' : ∀ e ∈ forwarded, e.ttl.toNat = ttl := by
        intro e he
        have := (hforwarded e he).2
        omega
      cases hkind : message.messageType.isJoin with
      | true =>
          have hcopies := totalCost_deliveries_le hk hone' fun e he j =>
            (show cost k (j, e) ≤ joinCost k ttl by
              rw [cost, (hforwarded e he).1, hkind, httl' e he, if_pos rfl])
          have hannouncements := totalCost_deliveries_le hk hone fun e he j =>
            (show cost k (j, e) ≤ copyCost k 3 by
              obtain ⟨-, hother, hthree⟩ := hannounced e he
              rw [cost, hother, hthree, if_neg Bool.false_ne_true]
              exact Nat.le_refl _)
          rw [cost, hkind, httl, if_pos rfl, joinCost]
          omega
      | false =>
          have hcopies := totalCost_deliveries_le hk hone' fun e he j =>
            (show cost k (j, e) ≤ copyCost k ttl by
              rw [cost, (hforwarded e he).1, hkind, httl' e he, if_neg Bool.false_ne_true])
          -- only a join is answered by an announcement
          have hnone : announced = [] := by
            apply List.eq_nil_iff_forall_not_mem.mpr
            intro e he
            have hjoin := (hannounced e he).1
            rw [hkind] at hjoin
            cases hjoin
          rw [hnone, cost, hkind, httl, if_neg Bool.false_ne_true, copyCost]
          have hzero : totalCost (cost k)
              (deliveries recipients [] : Multiset (ι × GossipMessage)) = 0 := rfl
          omega

/-- **Gossip floods die out.**  Whatever the meshes and their topologies, whatever messages
are to be delivered, in whatever order they are, and whoever receives what is emitted, the
meshes process finitely many messages; if each message emitted is handed to at most `k`
meshes, at most as many as the messages cost in the beginning. -/
theorem floods_die_out (s : Flood ι) :
    (∀ run : ℕ → Flood ι, run 0 = s →
      ∃ n, ¬ ∃ recipients, Step recipients (run n) (run (n + 1))) ∧
    ∀ (k n : ℕ) (run : ℕ → Flood ι), run 0 = s →
      (∀ i < n, ∃ recipients, (∀ message, (recipients message).length ≤ k) ∧
        Step recipients (run i) (run (i + 1))) →
      n ≤ totalCost (cost k) s.pending := by
  constructor
  · intro run _
    have hstep : ∀ s s' : Flood ι, (∃ recipients, Step recipients s s') →
        Cascades pending (fun new job => ∀ d ∈ new, rank d < rank job) s s' := by
      rintro s s' ⟨recipients, h⟩
      exact h.descends
    exact exists_not_step (InvImage.wf rank wellFounded_lt) hstep run
  · intro k n run hstart hrun
    have hstep : ∀ s s' : Flood ι, (∃ recipients, (∀ message, (recipients message).length ≤ k) ∧
        Step recipients s s') →
        Cascades pending (fun new job => totalCost (cost k) new < cost k job) s s' := by
      rintro s s' ⟨recipients, hk, h⟩
      exact h.pays hk
    rw [← hstart]
    exact steps_le_cost hstep hrun

/-- Two meshes; a third node joins the first one. -/
def joining : Flood Bool where
  meshes i := P2PMesh.new ⟨if i then "a" else "b"⟩ ⟨if i then "a" else "b"⟩
    (.v4 0x7f000001 50051) 0 3 (.fromSecs 30) .unixEpoch
  pending := {(true,
    { fromNode := ⟨"c"⟩
      messageType := .nodeJoin (.new ⟨"c"⟩ (.v4 0x7f000001 50053) 2 3 .unixEpoch)
      timestamp := .unixEpoch
      ttl := 5 })}

/-- The join is processed, and what the mesh emits is handed to the other one. -/
theorem floods_die_out_joining :
    ∃ s, Step (fun _ => [false]) joining s ∧ 1 ≤ totalCost (cost 1) joining.pending := by
  have hstep : ∃ s, Step (fun _ => [false]) joining s :=
    ⟨_, .process joining true _ 0 .unixEpoch rfl⟩
  obtain ⟨s, hs⟩ := hstep
  refine ⟨s, hs, (floods_die_out joining).2 1 1 (fun n => if n = 0 then joining else s) rfl ?_⟩
  intro i hi
  obtain rfl : i = 0 := Nat.lt_one_iff.mp hi
  exact ⟨fun _ => [false], fun _ => Nat.le_refl 1, hs⟩

end Flood

end Rafka
