/-
Rafka/ConsumerOffsets.lean

Reading through consumer offsets (`crates/storage/src/db.rs`).

`read_from_offset` hands out the messages *from* the stored offset on, at most
one hundred of them, and starts at 0 for a consumer without a stored offset.
What a consumer stores with `update_consumer_offset` is the offset of the last
message it has received, its "last read position".  The two do not fit: the
message at the stored offset is handed out again, by every further read, and
no batch is ever empty.

`exactly_once_iff` says exactly which runs deliver every message once and tell
the end: those in which, at every read, the partition holds no message the
consumer has received (retention has dropped them all) and every other.

The first section is about pages of a log in general.
-/
import Rafka.Storage

namespace Rafka

/-! ### Pages of a log -/

section Pages

variable {α : Type*} {log : List α}

/-- From the `i`-th entry on, in what is left of a log after the first `k`. -/
theorem filter_drop_eq_drop {key : α → Int} (hsorted : log.Pairwise fun a b => key a < key b)
    {i : Nat} {a : α} (ha : log[i]? = some a) (k : Nat) :
    (log.drop k).filter (fun b => decide (key a ≤ key b)) = log.drop (max k i) := by
  induction log generalizing i k with
  | nil => cases ha
  | cons b log ih =>
      obtain ⟨hb, hlog⟩ := List.pairwise_cons.mp hsorted
      cases i with
      | zero =>
          cases ha
          rw [Nat.max_zero, List.filter_eq_self]
          intro c hc
          rcases List.mem_cons.mp (List.mem_of_mem_drop hc) with rfl | hc
          · simp
          · simpa using (hb c hc).le
      | succ i =>
          have ha' : log[i]? = some a := by simpa using ha
          have hlt : key b < key a := hb a (List.mem_of_getElem? ha')
          cases k with
          | zero =>
              have hrest := ih hlog ha' 0
              rw [List.drop_zero] at hrest
              rw [List.drop_zero, List.filter_cons_of_neg (by simpa using hlt), hrest,
                Nat.zero_max, Nat.zero_max, List.drop_succ_cons]
          | succ k =>
              rw [List.drop_succ_cons, ih hlog ha' k, Nat.succ_max_succ, List.drop_succ_cons]

/-- A page that starts at `j`, for a reader who has the first `d` entries: it
goes on where the reader is, and is empty just at the end, exactly if `j` is
`d`. -/
theorem page_fits_iff (hnodup : log.Nodup) {d j n : Nat} (hd : d ≤ log.length)
    (hj : j ≤ log.length) (hn : 0 < n) :
    (log.take d ++ (log.drop j).take n <+: log ∧
        ((log.drop j).take n = [] ↔ log.take d = log)) ↔ j = d := by
  constructor
  · rintro ⟨hfits, hend⟩
    rcases Nat.lt_or_ge j log.length with hlt | hge
    · -- the first entry of the page stands at place `d` of the log
      have hpage : (log.take d ++ (log.drop j).take n)[d]? = some log[j] := by
        rw [List.getElem?_append_right (by simp), List.length_take_of_le hd, Nat.sub_self,
          List.getElem?_take_of_lt hn, List.getElem?_drop, Nat.add_zero,
          List.getElem?_eq_getElem hlt]
      have hplace : log[d]? = some log[j] := by
        obtain ⟨hlt', heq⟩ := List.getElem?_eq_some_iff.mp hpage
        rw [List.prefix_iff_getElem?.mp hfits d hlt', heq]
      obtain ⟨hlt', heq⟩ := List.getElem?_eq_some_iff.mp hplace
      exact ((hnodup.getElem_inj_iff).mp heq).symm
    · have hempty : (log.drop j).take n = [] := by
        rw [List.drop_of_length_le hge, List.take_nil]
      have hlength := congrArg List.length (hend.mp hempty)
      rw [List.length_take_of_le hd] at hlength
      omega
  · rintro rfl
    constructor
    · rw [← List.take_add]
      exact List.take_prefix _ _
    · rw [List.take_eq_nil_iff, List.drop_eq_nil_iff, List.take_eq_self_iff]
      omega

end Pages

/-! ### A consumer at a partition -/

/-- The names under which the position of a consumer is stored. -/
structure Cursor where
  consumerId : String
  topic : String
  partitionId : Int32
deriving DecidableEq

/-- A storage with one consumer of one of its partitions. -/
structure CursorRun where
  storage : Storage
  /-- The messages the partition has had, in order: those the consumer found
  there and those appended since. -/
  log : List StoredMessage
  /-- The messages the consumer has received, in order. -/
  received : List StoredMessage
  /-- The offset of the last message of a batch, until it is stored. -/
  position : Option Int64

/-- What happens: an append anywhere in the storage, or the next call of the
consumer, which reads and then stores where it is. -/
inductive CursorOp
  | append (topic : String) (partitionId : Int32) (message : Payload)
      (now nowEnforce : EpochTime)
  | readFromOffset
  | updateConsumerOffset

namespace Cursor

/-- A consumer that starts on a partition with these messages. -/
def start (storage : Storage) (q : PartitionQueue) : CursorRun where
  storage := storage
  log := q.messages.map MessageEntry.toStoredMessage
  received := []
  position := none

variable (c : Cursor)

/-- The offset stored for the consumer. -/
def stored (s : Storage) : Option Int64 :=
  (s.consumerOffsets.lookup c.consumerId).bind fun offsets =>
    offsets.lookup (c.topic, c.partitionId)

/-- One step, with locking left out.  The consumer reads only when it has
stored the position of its last batch; an empty batch has none. -/
def step (s : CursorRun) : CursorOp → CursorRun
  | .append topic partitionId message now nowEnforce =>
      match Storage.append topic partitionId message now nowEnforce .ideal s.storage with
      | .ok (some offset, storage) =>
          { s with
            storage := storage
            log := if topic = c.topic ∧ partitionId = c.partitionId then
                s.log ++ [⟨offset, message, now, partitionId⟩]
              else s.log }
      | .ok (none, storage) => { s with storage := storage }
      | .error _ => s
  | .readFromOffset =>
      match s.position with
      | some _ => s
      | none =>
          match Storage.readFromOffset c.topic c.partitionId c.consumerId .ideal s.storage with
          | .ok (some batch, storage) =>
              { s with
                storage := storage
                received := s.received ++ batch
                position := batch.getLast?.map StoredMessage.offset }
          | _ => s
  | .updateConsumerOffset =>
      match s.position with
      | none => s
      | some offset =>
          match Storage.updateConsumerOffset c.consumerId c.topic c.partitionId offset .ideal
            s.storage with
          | .ok (_, storage) => { s with storage := storage, position := none }
          | .error _ => s

/-- Every message is handed over once and in order: the consumer has received
a piece of the log from its beginning. -/
def ExactlyOnce (s : CursorRun) : Prop := s.received <+: s.log

/-- A read hands over nothing if and only if the consumer has everything. -/
def TellsEnd (s : CursorRun) : CursorOp → Prop
  | .readFromOffset => s.position = none →
      ((c.step s .readFromOffset).received = s.received ↔ s.received = s.log)
  | _ => True

/-- At a read the partition holds the messages the consumer has not received,
and no others. -/
def Unread (s : CursorRun) : CursorOp → Prop
  | .readFromOffset => s.position = none →
      (s.storage.queue? c.topic c.partitionId).map
        (fun q => q.messages.map MessageEntry.toStoredMessage) =
          some (s.log.drop s.received.length)
  | _ => True

/-! ### What the calls do -/

variable {c}

theorem updateConsumerOffset_ideal (s : Storage) (offset : Int64) :
    Storage.updateConsumerOffset c.consumerId c.topic c.partitionId offset .ideal s =
      .ok ((), { s with
        consumerOffsets := s.consumerOffsets.insert c.consumerId
          (((s.consumerOffsets.lookup c.consumerId).getD ∅).insert (c.topic, c.partitionId)
            offset) }) := rfl

theorem stored_updateConsumerOffset (s : Storage) (offset : Int64) :
    c.stored { s with
      consumerOffsets := s.consumerOffsets.insert c.consumerId
        (((s.consumerOffsets.lookup c.consumerId).getD ∅).insert (c.topic, c.partitionId)
          offset) } = some offset := by
  simp [stored]

/-- What `read_from_offset` returns: the page from the stored offset on. -/
theorem readFromOffset_ideal {s : Storage} {q : PartitionQueue}
    (hq : s.queue? c.topic c.partitionId = some q) :
    Storage.readFromOffset c.topic c.partitionId c.consumerId .ideal s =
      .ok (some ((q.readFrom ((c.stored s).getD 0) 100).map MessageEntry.toStoredMessage),
        s.setQueue c.topic c.partitionId q) := by
  have hoffset : Storage.getConsumerOffset c.consumerId c.topic c.partitionId .ideal s =
      .ok (c.stored s, s) := rfl
  rw [Storage.readFromOffset, LockM.bind_run, hoffset]
  exact Storage.read_ideal hq _

/-- A page in terms of the messages handed out. -/
theorem map_readFrom (q : PartitionQueue) (startOffset : Int64) (n : Nat) :
    (q.readFrom startOffset n).map MessageEntry.toStoredMessage =
      ((q.messages.map MessageEntry.toStoredMessage).filter fun m =>
        decide (startOffset.toInt ≤ m.offset.toInt)).take n := by
  rw [PartitionQueue.readFrom, List.map_take, List.filter_map]
  congr 3
  funext e
  exact decide_eq_decide.mpr Int64.le_iff_toInt_le

theorem queue?_setQueue_self {s : Storage} {topic : String} {partitionId : Int32}
    {q q' : PartitionQueue} (hq : s.queue? topic partitionId = some q) :
    (s.setQueue topic partitionId q').queue? topic partitionId = some q' := by
  have htopic : (s.topics.lookup topic).isSome := by
    rw [Storage.queue?] at hq
    obtain ⟨ps, hps, -⟩ := Option.bind_eq_some_iff.mp hq
    rw [hps]
    rfl
  rw [Storage.queue?_setQueue, if_pos ⟨rfl, rfl, htopic⟩]

/-! ### The log and the queue -/

/-- The queue holds the log from some place on; offsets rise along the log
and stay below the counter. -/
structure Backs (q : PartitionQueue) (log : List StoredMessage) : Prop where
  drop : ∃ k ≤ log.length, q.messages.map MessageEntry.toStoredMessage = log.drop k
  size : q.Exact
  next : 0 ≤ q.nextOffset.toInt
  sorted : log.Pairwise fun a b => a.offset.toInt < b.offset.toInt
  bounds : ∀ m ∈ log, 0 ≤ m.offset.toInt ∧ m.offset.toInt < q.nextOffset.toInt

theorem Backs.nodup {q : PartitionQueue} {log : List StoredMessage} (h : Backs q log) :
    log.Nodup := by
  apply h.sorted.imp
  rintro a b hlt rfl
  omega

/-- The content of every partition, whatever has happened to it. -/
theorem Backs.of_run (policy : RetentionPolicy) (life : List PartitionOp) :
    Backs ((PartitionRun.start policy).run life).queue
      (((PartitionRun.start policy).run life).queue.messages.map
        MessageEntry.toStoredMessage) := by
  have hd := (PartitionRun.durable_start policy).run life
  have hc := (PartitionRun.counted_start policy).run (PartitionRun.durable_start policy) life
  obtain ⟨hsorted, hlt⟩ := hc.sorted hd
  refine ⟨⟨0, Nat.zero_le _, (List.drop_zero).symm⟩, hd.size_eq, ?_, ?_, ?_⟩
  · rw [hc.next_eq]
    exact Int.natCast_nonneg _
  · rw [List.pairwise_map]
    exact hsorted.imp fun h => Int64.lt_iff_toInt_lt.mp h
  · intro m hm
    obtain ⟨e, he, rfl⟩ := List.mem_map.mp hm
    -- the entry is one of the history, which is numbered from 0 on
    have hmem := hd.sublist.mem (List.mem_map_of_mem he)
    have hlow := (hc.numbered.bounds _ hmem).1
    exact ⟨hlow, Int64.lt_iff_toInt_lt.mp (hlt e he)⟩

/-- **Step lemma**, appending: the log grows by the message, the queue may
lose messages at its front. -/
theorem Backs.append {q q' : PartitionQueue} {log : List StoredMessage} (h : Backs q log)
    {message : Payload} {partitionId : Int32} {now nowEnforce : EpochTime} {offset : Int64}
    (happend : q.append message partitionId now nowEnforce = some (offset, q')) :
    Backs q' (log ++ [⟨offset, message, now, partitionId⟩]) := by
  have hroom : q.nextOffset ≠ Int64.maxValue := PartitionQueue.room_of_append happend
  obtain ⟨kept, hkept, hsome⟩ :=
    PartitionQueue.append_spec message partitionId now nowEnforce h.size hroom
  rw [hsome] at happend
  cases happend
  have hsucc : (q.nextOffset + 1).toInt = q.nextOffset.toInt + 1 :=
    PartitionQueue.toInt_add_one hroom
  have hnext := h.next
  refine ⟨?_, rfl, ?_, ?_, ?_⟩
  · -- a suffix of the queue with the new message is a suffix of the log with it
    obtain ⟨k, hk, hmessages⟩ := h.drop
    obtain ⟨dropped, hdropped⟩ := hkept
    have hlog : (dropped ++ kept).map MessageEntry.toStoredMessage =
        (log ++ [(⟨q.nextOffset, message, now, partitionId⟩ : StoredMessage)]).drop k := by
      rw [hdropped, List.map_append, hmessages, List.drop_append_of_le_length hk]
      rfl
    have hkept : kept.map MessageEntry.toStoredMessage =
        (log ++ [(⟨q.nextOffset, message, now, partitionId⟩ : StoredMessage)]).drop
          (k + dropped.length) := by
      rw [← List.drop_drop, ← hlog, List.map_append, List.drop_append_of_le_length (by simp)]
      simp
    refine ⟨k + dropped.length, ?_, hkept⟩
    have hlength := congrArg List.length hlog
    rw [List.length_map, List.length_append, List.length_drop, List.length_append,
      List.length_singleton] at hlength
    rw [List.length_append, List.length_singleton]
    omega
  · show 0 ≤ (q.nextOffset + 1).toInt
    omega
  · rw [List.pairwise_append]
    refine ⟨h.sorted, List.pairwise_singleton _ _, ?_⟩
    intro a ha b hb
    rw [List.mem_singleton.mp hb]
    exact (h.bounds a ha).2
  · intro m hm
    show 0 ≤ m.offset.toInt ∧ m.offset.toInt < (q.nextOffset + 1).toInt
    rcases List.mem_append.mp hm with hm | hm
    · have hb := h.bounds m hm
      omega
    · rw [List.mem_singleton.mp hm]
      show 0 ≤ q.nextOffset.toInt ∧ q.nextOffset.toInt < (q.nextOffset + 1).toInt
      omega

/-- What a page from the stored position is, when the consumer has the first
`d` messages. -/
theorem Backs.page {q : PartitionQueue} {log : List StoredMessage} (h : Backs q log)
    {k d : Nat} (hd : d ≤ log.length)
    (hk : q.messages.map MessageEntry.toStoredMessage = log.drop k) :
    ((q.readFrom (((log.take d).getLast?.map StoredMessage.offset).getD 0) 100).map
        MessageEntry.toStoredMessage) = (log.drop (max k (d - 1))).take 100 := by
  rw [map_readFrom, hk]
  congr 1
  cases d with
  | zero =>
      -- nothing received yet: the page starts at offset 0, that is at the front
      rw [Nat.zero_sub, Nat.max_zero, List.filter_eq_self]
      intro m hm
      exact decide_eq_true (h.bounds m (List.mem_of_mem_drop hm)).1
  | succ d =>
      have hlast : (log.take (d + 1)).getLast? = some log[d] := by
        rw [List.getLast?_take, if_neg (Nat.succ_ne_zero d), Nat.add_sub_cancel,
          List.getElem?_eq_getElem hd]
        rfl
      rw [hlast, Nat.add_sub_cancel]
      exact filter_drop_eq_drop h.sorted (List.getElem?_eq_getElem hd) k

/-! ### Whole runs -/

/-- The invariant of the runs that deliver: the consumer has received the
first messages of the log, and its position is that of the last of them. -/
structure Inv (c : Cursor) (s : CursorRun) : Prop where
  backs : ∃ q, s.storage.queue? c.topic c.partitionId = some q ∧ Backs q s.log
  received : s.received <+: s.log
  position : s.position.or (c.stored s.storage) = s.received.getLast?.map StoredMessage.offset

variable {s : CursorRun}

/-- The step of a read, in terms of the log. -/
theorem Inv.step_read (hs : c.Inv s) (hposition : s.position = none) :
    ∃ q k, s.storage.queue? c.topic c.partitionId = some q ∧ k ≤ s.log.length ∧
      q.messages.map MessageEntry.toStoredMessage = s.log.drop k ∧
      c.step s .readFromOffset =
        { s with
          storage := s.storage.setQueue c.topic c.partitionId q
          received := s.received ++ (s.log.drop (max k (s.received.length - 1))).take 100
          position := ((s.log.drop (max k (s.received.length - 1))).take 100).getLast?.map
            StoredMessage.offset } := by
  obtain ⟨q, hq, hbacks⟩ := hs.backs
  obtain ⟨k, hk, hmessages⟩ := hbacks.drop
  have hstored : c.stored s.storage = s.received.getLast?.map StoredMessage.offset := by
    rw [← hs.position, hposition]
    rfl
  have htake : s.received = s.log.take s.received.length :=
    List.prefix_iff_eq_take.mp hs.received
  have hpage := hbacks.page hs.received.length_le hmessages
  rw [← htake, ← hstored] at hpage
  refine ⟨q, k, hq, hk, hmessages, ?_⟩
  simp only [step, hposition, readFromOffset_ideal hq, hpage]

/-- **Step lemma**, reading: a page fits exactly if the partition holds what
the consumer has not received. -/
theorem Inv.read_iff (hs : c.Inv s) (hposition : s.position = none) :
    ExactlyOnce (c.step s .readFromOffset) ∧
        ((c.step s .readFromOffset).received = s.received ↔ s.received = s.log) ↔
      (s.storage.queue? c.topic c.partitionId).map
        (fun q => q.messages.map MessageEntry.toStoredMessage) =
          some (s.log.drop s.received.length) := by
  obtain ⟨q, k, hq, hk, hmessages, hstep⟩ := hs.step_read hposition
  obtain ⟨q₀, hq₀, hbacks⟩ := hs.backs
  have hd : s.received.length ≤ s.log.length := hs.received.length_le
  have htake : s.log.take s.received.length = s.received :=
    (List.prefix_iff_eq_take.mp hs.received).symm
  have hfits := page_fits_iff hbacks.nodup hd
    (by omega : max k (s.received.length - 1) ≤ s.log.length) (by decide : 0 < 100)
  rw [htake] at hfits
  have hdrop : s.log.drop k = s.log.drop s.received.length ↔ k = s.received.length := by
    constructor
    · intro h
      have hlength := congrArg List.length h
      rw [List.length_drop, List.length_drop] at hlength
      omega
    · intro h
      rw [h]
  rw [hstep, hq, Option.map_some, hmessages, Option.some.injEq, hdrop]
  simp only [ExactlyOnce, List.append_right_eq_self]
  rw [hfits]
  omega

/-- **Step lemma**, appending: only the log grows. -/
theorem Inv.step_append (hs : c.Inv s) (topic : String) (partitionId : Int32)
    (message : Payload) (now nowEnforce : EpochTime) :
    c.Inv (c.step s (.append topic partitionId message now nowEnforce)) ∧
      ExactlyOnce (c.step s (.append topic partitionId message now nowEnforce)) := by
  obtain ⟨q, hq, hbacks⟩ := hs.backs
  simp only [step, Storage.append_ideal]
  cases hq' : s.storage.queue? topic partitionId with
  | none => exact ⟨hs, hs.received⟩
  | some q' =>
      dsimp only
      cases happend : q'.append message partitionId now nowEnforce with
      | none => exact ⟨hs, hs.received⟩
      | some r =>
          obtain ⟨offset, q''⟩ := r
          dsimp only
          by_cases hhere : topic = c.topic ∧ partitionId = c.partitionId
          · obtain ⟨rfl, rfl⟩ := hhere
            rw [hq] at hq'
            cases hq'
            rw [if_pos ⟨rfl, rfl⟩]
            have hgrown : s.received <+: s.log ++ [⟨offset, message, now, c.partitionId⟩] :=
              hs.received.trans (List.prefix_append _ _)
            exact ⟨⟨⟨q'', queue?_setQueue_self hq, hbacks.append happend⟩, hgrown, hs.position⟩,
              hgrown⟩
          · rw [if_neg hhere]
            refine ⟨⟨⟨q, ?_, hbacks⟩, hs.received, hs.position⟩, hs.received⟩
            rw [Storage.queue?_setQueue, if_neg, hq]
            rintro ⟨rfl, rfl, -⟩
            exact hhere ⟨rfl, rfl⟩

/-- **Step lemma**, storing the position. -/
theorem Inv.step_update (hs : c.Inv s) : c.Inv (c.step s .updateConsumerOffset) ∧
    ExactlyOnce (c.step s .updateConsumerOffset) := by
  cases hposition : s.position with
  | none =>
      simp only [step, hposition]
      exact ⟨hs, hs.received⟩
  | some offset =>
      simp only [step, hposition, updateConsumerOffset_ideal]
      refine ⟨⟨hs.backs, hs.received, ?_⟩, hs.received⟩
      rw [stored_updateConsumerOffset, ← hs.position, hposition]
      rfl

/-- A step from a state with the invariant delivers exactly if it is no read,
or one of a partition with what the consumer has not received. -/
theorem Inv.delivers_iff (hs : c.Inv s) (op : CursorOp) :
    ExactlyOnce (c.step s op) ∧ c.TellsEnd s op ↔ c.Unread s op := by
  cases op with
  | append topic partitionId message now nowEnforce =>
      exact iff_of_true ⟨(hs.step_append topic partitionId message now nowEnforce).2, trivial⟩
        trivial
  | updateConsumerOffset => exact iff_of_true ⟨hs.step_update.2, trivial⟩ trivial
  | readFromOffset =>
      cases hposition : s.position with
      | none =>
          rw [TellsEnd, Unread]
          simp only [hposition, forall_const]
          exact hs.read_iff hposition
      | some offset =>
          have hsame : c.step s .readFromOffset = s := by simp only [step, hposition]
          rw [hsame]
          exact iff_of_true ⟨hs.received, by simp [TellsEnd, hposition]⟩
            (by simp [Unread, hposition])

/-- The steps that deliver keep the invariant. -/
theorem Inv.step (hs : c.Inv s) {op : CursorOp} (hop : c.Unread s op) :
    c.Inv (c.step s op) := by
  have hreceived := ((hs.delivers_iff op).mpr hop).1
  cases op with
  | append topic partitionId message now nowEnforce =>
      exact (hs.step_append topic partitionId message now nowEnforce).1
  | updateConsumerOffset => exact hs.step_update.1
  | readFromOffset =>
      cases hposition : s.position with
      | some offset =>
          have hsame : c.step s .readFromOffset = s := by simp only [Cursor.step, hposition]
          rw [hsame]
          exact hs
      | none =>
          obtain ⟨q₀, hq₀, hbacks⟩ := hs.backs
          obtain ⟨q, k, hq, -, -, hstep⟩ := hs.step_read hposition
          rw [hq₀] at hq
          cases hq
          have hlast := hs.position
          rw [hposition] at hlast
          rw [hstep] at hreceived ⊢
          refine ⟨⟨q₀, queue?_setQueue_self hq₀, hbacks⟩, hreceived, ?_⟩
          rw [List.getLast?_append, Option.map_or, ← hlast]
          rfl

/-- **Every message exactly once, exactly when the partition holds the unread
ones.**  A consumer without a stored offset, at a partition with any content,
is handed every message once and in order and is told the end, if and only if
at each of its reads the partition holds the messages it has not received and
no others. -/
theorem exactly_once_iff (c : Cursor) (policy : RetentionPolicy) (life : List PartitionOp)
    {storage : Storage}
    (hqueue : storage.queue? c.topic c.partitionId =
      some ((PartitionRun.start policy).run life).queue)
    (hnew : c.stored storage = none) (ops : List CursorOp) :
    Always c.step ExactlyOnce (start storage ((PartitionRun.start policy).run life).queue) ops ∧
        Along c.step c.TellsEnd (start storage ((PartitionRun.start policy).run life).queue) ops ↔
      Along c.step c.Unread (start storage ((PartitionRun.start policy).run life).queue) ops := by
  have hstart : c.Inv (start storage ((PartitionRun.start policy).run life).queue) :=
    ⟨⟨_, hqueue, .of_run policy life⟩, List.nil_prefix, hnew⟩
  exact always_and_along_iff (B := fun _ _ => True) (.of_forall fun _ _ => trivial) hstart
    (fun _ hs => hs.received) (fun _ _ hs _ hop => hs.step hop)
    fun _ op hs _ => hs.delivers_iff op

/-- A consumer of the partition `test/0`. -/
def testCursor : Cursor := ⟨"consumer", "test", 0⟩

/-- A storage with that partition, empty, under a policy. -/
def emptyPartition (policy : RetentionPolicy) : Storage where
  topics := (∅ : HashMap String (HashMap Int32 PartitionQueue)).insert "test"
    ((∅ : HashMap Int32 PartitionQueue).insert 0 (PartitionRun.start policy).queue)
  consumerOffsets := ∅
  retentionPolicy := policy

theorem queue?_emptyPartition (policy : RetentionPolicy) :
    (emptyPartition policy).queue? testCursor.topic testCursor.partitionId =
      some ((PartitionRun.start policy).run []).queue := by
  simp [emptyPartition, Storage.queue?, testCursor, PartitionRun.run]

/-- A message is appended, read, and its offset stored. -/
def readOnce : List CursorOp :=
  [.append "test" 0 Storage.helloWorld .unixEpoch .unixEpoch, .readFromOffset,
   .updateConsumerOffset]

/-- The consumer reads once more. -/
def readAgain : List CursorOp := readOnce ++ [.readFromOffset]

/-- `exactly_once_iff` where there is room for one message: the second one
pushes out the first, which has been received, and is then handed over alone. -/
theorem exactly_once_in_turn :
    testCursor.stored (emptyPartition ⟨0, 11⟩) = none ∧
      Always testCursor.step ExactlyOnce
        (start (emptyPartition ⟨0, 11⟩) ((PartitionRun.start ⟨0, 11⟩).run []).queue)
        (readOnce ++ readOnce) ∧
      Along testCursor.step testCursor.TellsEnd
        (start (emptyPartition ⟨0, 11⟩) ((PartitionRun.start ⟨0, 11⟩).run []).queue)
        (readOnce ++ readOnce) := by
  have hnew : testCursor.stored (emptyPartition ⟨0, 11⟩) = none := rfl
  refine ⟨hnew, (exactly_once_iff testCursor ⟨0, 11⟩ [] (queue?_emptyPartition ⟨0, 11⟩) hnew
    (readOnce ++ readOnce)).mpr ⟨trivial, ?_, trivial, trivial, ?_, trivial, trivial⟩⟩
  · intro _
    decide +kernel
  · intro _
    decide +kernel

/-- With the default policy the message that has been received and stored is
handed over again by the next read. -/
theorem last_message_comes_again :
    (readAgain.foldl testCursor.step
        (start (emptyPartition .default) ((PartitionRun.start .default).run []).queue)).received =
      [⟨0, Storage.helloWorld, .unixEpoch, 0⟩, ⟨0, Storage.helloWorld, .unixEpoch, 0⟩] ∧
    ¬ ∀ (c : Cursor) (policy : RetentionPolicy) (life : List PartitionOp) (storage : Storage),
      storage.queue? c.topic c.partitionId =
        some ((PartitionRun.start policy).run life).queue →
      c.stored storage = none → ∀ ops,
        Always c.step ExactlyOnce (start storage ((PartitionRun.start policy).run life).queue)
            ops ∧
          Along c.step c.TellsEnd (start storage ((PartitionRun.start policy).run life).queue)
            ops := by
  have hreceived : (readAgain.foldl testCursor.step
      (start (emptyPartition .default) ((PartitionRun.start .default).run []).queue)).received =
    [⟨0, Storage.helloWorld, .unixEpoch, 0⟩, ⟨0, Storage.helloWorld, .unixEpoch, 0⟩] := by
    decide +kernel
  refine ⟨hreceived, ?_⟩
  intro h
  have hlast := (h testCursor .default [] _ (queue?_emptyPartition .default) rfl
    readAgain).1.last
  rw [ExactlyOnce, hreceived] at hlast
  have hlog : (readAgain.foldl testCursor.step
      (start (emptyPartition .default) ((PartitionRun.start .default).run []).queue)).log.length =
    1 := by
    decide +kernel
  have hlength := hlast.length_le
  rw [hlog] at hlength
  revert hlength
  decide

end Cursor

end Rafka
