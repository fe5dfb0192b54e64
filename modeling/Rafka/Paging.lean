/-
Rafka/Paging.lean

Reading a partition page by page (`Storage::read` in `crates/storage/src/db.rs`).

`read` returns the first hundred messages from an offset on.  A reader that goes on after
the last message it got, until a page is empty, gets everything: offsets rise along the
queue (`Orderly`), so a page and what is behind its last message are together all that is
left (`page_append_rest`), whatever gaps a cleanup has made.

Between two pages anything else may be called.  The pages stay in order, and a message that
is queued all the time is ahead of the reader until it is returned (`Ahead.step`), so it is
returned exactly once (`pages_complete`).
-/
import Rafka.ConsumerOffsets

namespace Rafka

/-! ### Pages of a sorted list -/

section Pages

variable {α : Type*} {key : α → Int} {l : List α} {a : α} {k : Int} {n : Nat}

theorem le_getLast (hsorted : l.Pairwise fun a b => key a < key b) (ha : l.getLast? = some a) :
    ∀ b ∈ l, key b ≤ key a := by
  obtain ⟨front, rfl⟩ := List.getLast?_eq_some_iff.mp ha
  intro b hb
  rcases List.mem_append.mp hb with hfront | hlast
  · exact ((List.pairwise_append.mp hsorted).2.2 b hfront a (List.mem_singleton.mpr rfl)).le
  · rw [List.mem_singleton.mp hlast]

/-- **A page and what is behind its last entry** are all from its start on. -/
theorem page_append_rest (hsorted : l.Pairwise fun a b => key a < key b)
    (ha : ((l.filter fun b => decide (k ≤ key b)).take n).getLast? = some a) :
    (l.filter fun b => decide (k ≤ key b)).take n ++
        l.filter (fun b => decide (key a + 1 ≤ key b)) =
      l.filter fun b => decide (k ≤ key b) := by
  have hfrom : (l.filter fun b => decide (k ≤ key b)).Pairwise fun a b => key a < key b :=
    hsorted.filter _
  have hka : k ≤ key a := by
    have hmem := List.mem_of_mem_take (List.mem_of_getLast? ha)
    exact of_decide_eq_true (List.mem_filter.mp hmem).2
  -- what is behind the last entry is behind the start too
  have hrest : l.filter (fun b => decide (key a + 1 ≤ key b)) =
      (l.filter fun b => decide (k ≤ key b)).filter fun b => decide (key a + 1 ≤ key b) := by
    rw [List.filter_filter]
    apply List.filter_congr
    intro b _
    rw [Bool.eq_iff_iff, Bool.and_eq_true, decide_eq_true_iff, decide_eq_true_iff]
    omega
  rw [hrest]
  generalize l.filter (fun b => decide (k ≤ key b)) = from_k at hfrom ha
  rw [← List.take_append_drop n from_k] at hfrom
  obtain ⟨htake, hdrop, hbetween⟩ := List.pairwise_append.mp hfrom
  have hle := le_getLast htake ha
  have hpage : (from_k.take n).filter (fun b => decide (key a + 1 ≤ key b)) = [] := by
    rw [List.filter_eq_nil_iff]
    intro b hb
    have hlast := hle b hb
    rw [decide_eq_true_iff]
    omega
  have hbehind : (from_k.drop n).filter (fun b => decide (key a + 1 ≤ key b)) =
      from_k.drop n := by
    rw [List.filter_eq_self]
    intro b hb
    have hlt := hbetween a (List.mem_of_getLast? ha) b hb
    rw [decide_eq_true_iff]
    omega
  calc from_k.take n ++ from_k.filter (fun b => decide (key a + 1 ≤ key b))
      = from_k.take n ++ (from_k.take n ++ from_k.drop n).filter
          (fun b => decide (key a + 1 ≤ key b)) := by rw [List.take_append_drop]
    _ = from_k.take n ++ from_k.drop n := by
        rw [List.filter_append, hpage, hbehind, List.nil_append]
    _ = from_k := List.take_append_drop n from_k

end Pages

/-! ### Offsets rise along a queue -/

namespace PartitionQueue

/-- The offsets of the queue, in order. -/
def offsets (q : PartitionQueue) : List Int := q.messages.map fun e => e.offset.toInt

/-- The offsets rise along the queue and stay below the counter. -/
structure Orderly (q : PartitionQueue) : Prop where
  size : q.Exact
  next : 0 ≤ q.nextOffset.toInt
  sorted : q.offsets.Pairwise (· < ·)
  bounds : ∀ o ∈ q.offsets, 0 ≤ o ∧ o < q.nextOffset.toInt

variable {q q' : PartitionQueue}

/-- Messages may go. -/
theorem Orderly.of_sublist (h : q.Orderly) (hsize : q'.Exact)
    (hnext : q'.nextOffset = q.nextOffset) (hsub : q'.offsets.Sublist q.offsets) :
    q'.Orderly where
  size := hsize
  next := hnext ▸ h.next
  sorted := h.sorted.sublist hsub
  bounds := fun o ho => hnext ▸ h.bounds o (hsub.mem ho)

theorem steady_orderly : Steady Orderly where
  enforceRetentionPolicy := by
    intro q now hq
    obtain ⟨kept, hkept, hsome⟩ := enforceRetentionPolicy_spec now hq.size
    exact ⟨_, hsome, hq.of_sublist rfl rfl (hkept.sublist.map _)⟩
  acknowledge := by
    intro q offset consumerId hq
    apply hq.of_sublist (steady_exact.acknowledge q offset consumerId hq.size) rfl
    have hmap : (q.acknowledge offset consumerId).offsets = q.offsets :=
      PartitionRun.map_acknowledgeFirst (fun e => e.offset.toInt) offset consumerId q.messages
        fun _ _ => rfl
    rw [hmap]
  cleanupAcknowledged := by
    intro q hq
    exact hq.of_sublist rfl rfl (List.filter_sublist.map _)

theorem Orderly.append {payload : Payload} {partitionId : Int32} {now nowEnforce : EpochTime}
    {offset : Int64} (hq : q.Orderly)
    (happend : q.append payload partitionId now nowEnforce = some (offset, q')) :
    q'.Orderly := by
  have hroom : q.nextOffset ≠ Int64.maxValue := room_of_append happend
  obtain ⟨kept, hkept, hsome⟩ := append_spec payload partitionId now nowEnforce hq.size hroom
  rw [hsome] at happend
  cases happend
  have hsucc : (q.nextOffset + 1).toInt = q.nextOffset.toInt + 1 := toInt_add_one hroom
  have hnext := hq.next
  -- the new offset is the counter, above all others
  have hpushed : (q.push ⟨q.nextOffset, payload, now, partitionId, ∅⟩).Orderly := by
    have hoffsets : (q.push ⟨q.nextOffset, payload, now, partitionId, ∅⟩).offsets =
        q.offsets ++ [q.nextOffset.toInt] := by
      simp [offsets, push]
    refine ⟨hq.size.push _, ?_, ?_, ?_⟩
    · show 0 ≤ (q.nextOffset + 1).toInt
      omega
    · rw [hoffsets, List.pairwise_append]
      refine ⟨hq.sorted, List.pairwise_singleton _ _, ?_⟩
      intro o ho o' ho'
      rw [List.mem_singleton.mp ho']
      exact (hq.bounds o ho).2
    · intro o ho
      show 0 ≤ o ∧ o < (q.nextOffset + 1).toInt
      rw [hoffsets] at ho
      rcases List.mem_append.mp ho with hold | hnew
      · have := hq.bounds o hold
        omega
      · rw [List.mem_singleton.mp hnew]
        omega
  exact hpushed.of_sublist rfl rfl (hkept.sublist.map _)

theorem orderly_empty (policy : RetentionPolicy) (wal : Option WalLog) :
    (empty policy wal).Orderly :=
  ⟨rfl, show 0 ≤ (0 : Int64).toInt by decide, List.Pairwise.nil, by simp [empty, offsets]⟩

/-- A partition without a file starts anew at every restart. -/
theorem orderly_step_of_none {s : PartitionRun} (hs : s.queue.Orderly) (hwal : s.queue.wal = none)
    (op : PartitionOp) : (s.step op).queue.Orderly ∧ (s.step op).queue.wal = none := by
  cases op with
  | append payload partitionId now nowEnforce =>
      cases happend : s.queue.append payload partitionId now nowEnforce with
      | none =>
          simp only [PartitionRun.step, happend]
          exact ⟨hs, hwal⟩
      | some r =>
          obtain ⟨offset, q⟩ := r
          simp only [PartitionRun.step, happend]
          refine ⟨hs.append happend, ?_⟩
          rw [PartitionQueue.append] at happend
          split_ifs at happend
          obtain ⟨q', henforce, heq⟩ := Option.map_eq_some_iff.mp happend
          cases heq
          obtain ⟨r, -, rfl⟩ := Option.map_eq_some_iff.mp henforce
          simp [push, hwal]
  | acknowledge offset consumerId =>
      exact ⟨steady_orderly.acknowledge s.queue offset consumerId hs, hwal⟩
  | cleanupAcknowledged => exact ⟨steady_orderly.cleanupAcknowledged s.queue hs, hwal⟩
  | enforceRetentionPolicy now =>
      obtain ⟨kept, hkept, hsome⟩ := enforceRetentionPolicy_spec now hs.size
      simp only [PartitionRun.step, hsome, Option.getD_some]
      exact ⟨hs.of_sublist rfl rfl (hkept.sublist.map _), hwal⟩
  | restart policy =>
      simp only [PartitionRun.step, hwal, new, Option.getD_some]
      exact ⟨orderly_empty policy none, rfl⟩

/-- **Offsets rise along every queue**: after any life of a partition that began
on an empty file, or without a file. -/
theorem orderly_run (policy : RetentionPolicy) {wal : Option WalLog}
    (hwal : wal = none ∨ wal = some ⟨[]⟩) (life : List PartitionOp) :
    (PartitionRun.run ⟨empty policy wal, [], []⟩ life).queue.Orderly := by
  rcases hwal with rfl | rfl
  · have hrun : ∀ s : PartitionRun, s.queue.Orderly → s.queue.wal = none →
        (s.run life).queue.Orderly := by
      induction life with
      | nil => exact fun s hs _ => hs
      | cons op life ih =>
          intro s hs hwal
          obtain ⟨hs', hwal'⟩ := orderly_step_of_none hs hwal op
          exact ih (s.step op) hs' hwal'
    exact hrun _ (orderly_empty policy none) rfl
  · have hbacks := Cursor.Backs.of_run policy life
    refine ⟨hbacks.size, hbacks.next, ?_, ?_⟩
    · rw [offsets, List.pairwise_map]
      have hsorted := List.pairwise_map.mp hbacks.sorted
      exact hsorted
    · intro o ho
      obtain ⟨e, he, rfl⟩ := List.mem_map.mp ho
      exact hbacks.bounds e.toStoredMessage (List.mem_map_of_mem he)

end PartitionQueue

/-! ### A reader and the others -/

/-- A reader of one partition, and the storage it reads. -/
structure PageRun where
  storage : Storage
  /-- Where the next page starts. -/
  position : Int64
  /-- The messages of all pages so far, in order. -/
  returned : List StoredMessage
  /-- An empty page has been returned. -/
  finished : Bool

/-- What happens: the reader reads its next page, or some call is made. -/
inductive PageOp
  | read
  | call (c : StorageCall)

/-- The number of pages read. -/
def PageOp.reads : List PageOp → Nat
  | [] => 0
  | .read :: ops => reads ops + 1
  | .call _ :: ops => reads ops

namespace PageRun

/-- A reader that starts at an offset. -/
def start (storage : Storage) (startOffset : Int64) : PageRun where
  storage := storage
  position := startOffset
  returned := []
  finished := false

variable (topic : String) (partitionId : Int32)

/-- One step, with locking left out.  The reader goes on after the last message
of a page, and stops at an empty one. -/
def step (s : PageRun) : PageOp → PageRun
  | .read =>
      if s.finished then s
      else
        match Storage.read topic partitionId s.position .ideal s.storage with
        | .ok (some page, storage) =>
            match page.getLast? with
            | none => { s with storage := storage, finished := true }
            | some last =>
                { s with
                  storage := storage
                  position := last.offset + 1
                  returned := s.returned ++ page }
        | _ => s
  | .call c => { s with storage := s.storage.step (.call c) }

/-- The messages in the partition. -/
def queued (s : PageRun) : List StoredMessage :=
  match s.storage.queue? topic partitionId with
  | some q => q.messages.map MessageEntry.toStoredMessage
  | none => []

/-- The messages from an offset on. -/
def fromOffset (startOffset : Int64) (ms : List StoredMessage) : List StoredMessage :=
  ms.filter fun m => decide (startOffset ≤ m.offset)

variable {topic partitionId}

theorem fromOffset_eq (startOffset : Int64) (ms : List StoredMessage) :
    fromOffset startOffset ms =
      ms.filter fun m => decide (startOffset.toInt ≤ m.offset.toInt) := by
  rw [fromOffset]
  congr 1
  funext m
  exact decide_eq_decide.mpr Int64.le_iff_toInt_le

/-! ### One page -/

/-- What `read` returns. -/
theorem read_fromOffset {storage : Storage} {q : PartitionQueue}
    (hq : storage.queue? topic partitionId = some q) (position : Int64) :
    Storage.read topic partitionId position .ideal storage =
      .ok (some ((fromOffset position (q.messages.map MessageEntry.toStoredMessage)).take 100),
        storage.setQueue topic partitionId q) := by
  rw [fromOffset_eq, ← Cursor.map_readFrom]
  exact Storage.read_ideal hq position

/-- What the reader can rely on. -/
structure Serves (topic : String) (partitionId : Int32) (storage : Storage) : Prop where
  exact : storage.Exact
  orderly : ∃ q, storage.queue? topic partitionId = some q ∧ q.Orderly

/-- The pages so far are in order, and the next one is behind them. -/
structure Inv (topic : String) (partitionId : Int32) (s : PageRun) : Prop where
  serves : Serves topic partitionId s.storage
  sorted : s.returned.Pairwise fun a b => a.offset.toInt < b.offset.toInt
  bounds : ∀ m ∈ s.returned, m.offset.toInt < s.position.toInt

theorem Serves.setQueue {storage : Storage} {q : PartitionQueue}
    (h : Serves topic partitionId storage) (hq : storage.queue? topic partitionId = some q)
    (horderly : q.Orderly) :
    Serves topic partitionId (storage.setQueue topic partitionId q) :=
  ⟨h.exact.setQueue horderly.size, q, Cursor.queue?_setQueue_self hq, horderly⟩

theorem pairwise_queued {q : PartitionQueue} (h : q.Orderly) :
    (q.messages.map MessageEntry.toStoredMessage).Pairwise
      fun a b => a.offset.toInt < b.offset.toInt := by
  rw [List.pairwise_map]
  have hsorted := List.pairwise_map.mp h.sorted
  exact hsorted

/-- A message of the queue has not the last offset there is. -/
theorem toInt_succ_of_mem {q : PartitionQueue} {m : StoredMessage} (h : q.Orderly)
    (hm : m ∈ q.messages.map MessageEntry.toStoredMessage) :
    (m.offset + 1).toInt = m.offset.toInt + 1 := by
  obtain ⟨e, he, rfl⟩ := List.mem_map.mp hm
  have hlt := (h.bounds _ (List.mem_map_of_mem he)).2
  have hmax := q.nextOffset.toInt_lt
  apply PartitionQueue.toInt_add_one
  intro heq
  have heq' : e.offset = Int64.maxValue := heq
  rw [heq', Int64.toInt_maxValue] at hlt
  omega

/-- The reader has read a page: it is at the end, or a piece further on. -/
structure Reads (topic : String) (partitionId : Int32) (s s' : PageRun) : Prop where
  queued : s'.queued topic partitionId = s.queued topic partitionId
  inv : s'.Inv topic partitionId
  page : (fromOffset s.position (s.queued topic partitionId) = [] ∧ s'.finished = true ∧
      s'.returned = s.returned) ∨
    (s.position.toInt < s'.position.toInt ∧ s'.finished = false ∧
      ∃ page, page ≠ [] ∧ s'.returned = s.returned ++ page ∧
        page ++ fromOffset s'.position (s.queued topic partitionId) =
          fromOffset s.position (s.queued topic partitionId))

/-- **Step lemma**, reading. -/
theorem Inv.read {s : PageRun} (hs : s.Inv topic partitionId) (hfinished : s.finished = false) :
    Reads topic partitionId s (s.step topic partitionId .read) := by
  obtain ⟨q, hq, horderly⟩ := hs.serves.orderly
  have hself : (s.storage.setQueue topic partitionId q).queue? topic partitionId = some q :=
    Cursor.queue?_setQueue_self hq
  have hserves := hs.serves.setQueue hq horderly
  have hqueued : s.queued topic partitionId = q.messages.map MessageEntry.toStoredMessage := by
    simp only [PageRun.queued, hq]
  have hsorted := pairwise_queued horderly
  simp only [step, hfinished, Bool.false_eq_true, if_false, read_fromOffset hq]
  cases hlast : ((fromOffset s.position
      (q.messages.map MessageEntry.toStoredMessage)).take 100).getLast? with
  | none =>
      have hempty : fromOffset s.position (q.messages.map MessageEntry.toStoredMessage) = [] := by
        simpa using List.getLast?_eq_none_iff.mp hlast
      refine ⟨?_, ⟨hserves, hs.sorted, hs.bounds⟩, .inl ⟨hqueued ▸ hempty, rfl, rfl⟩⟩
      simp only [PageRun.queued, hself, hq]
  | some last =>
      have hmem := List.mem_of_mem_take (List.mem_of_getLast? hlast)
      obtain ⟨hqueue, hle⟩ := List.mem_filter.mp hmem
      have hposition : s.position.toInt ≤ last.offset.toInt :=
        Int64.le_iff_toInt_le.mp (of_decide_eq_true hle)
      have hsucc := toInt_succ_of_mem horderly hqueue
      -- the page with what is behind it is what there was to read
      have hrest : (fromOffset s.position
            (q.messages.map MessageEntry.toStoredMessage)).take 100 ++
          fromOffset (last.offset + 1) (q.messages.map MessageEntry.toStoredMessage) =
            fromOffset s.position (q.messages.map MessageEntry.toStoredMessage) := by
        rw [fromOffset_eq] at hlast
        rw [fromOffset_eq, fromOffset_eq, hsucc]
        exact page_append_rest hsorted hlast
      have hfrom : (fromOffset s.position (q.messages.map MessageEntry.toStoredMessage)).Pairwise
          fun a b => a.offset.toInt < b.offset.toInt := hsorted.filter _
      have hpage := hfrom.sublist (List.take_sublist 100 _)
      refine ⟨?_, ⟨hserves, ?_, ?_⟩, .inr ⟨?_, rfl, _, ?_, rfl, hqueued ▸ hrest⟩⟩
      · simp only [PageRun.queued, hself, hq]
      · refine List.pairwise_append.mpr ⟨hs.sorted, hpage, ?_⟩
        intro m hm m' hm'
        have hlow := of_decide_eq_true (List.mem_filter.mp (List.mem_of_mem_take hm')).2
        have hreturned := hs.bounds m hm
        rw [Int64.le_iff_toInt_le] at hlow
        omega
      · intro m hm
        show m.offset.toInt < (last.offset + 1).toInt
        rcases List.mem_append.mp hm with hold | hnew
        · have hreturned := hs.bounds m hold
          omega
        · have hhigh := le_getLast hpage hlast m hnew
          omega
      · show s.position.toInt < (last.offset + 1).toInt
        omega
      · exact List.ne_nil_of_mem (List.mem_of_getLast? hlast)

/-! ### The calls of others -/

/-- The calls of the storage, all but an append, leave every queue in order. -/
theorem queuewise_serves (topic : String) (partitionId : Int32) :
    Storage.Queuewise (Serves topic partitionId) fun topic' partitionId' q =>
      q.Exact ∧ (topic' = topic → partitionId' = partitionId → q.Orderly) where
  steady topic' partitionId' := by
    constructor
    · rintro q now ⟨hexact, horderly⟩
      obtain ⟨q', hsome, hexact'⟩ :=
        PartitionQueue.steady_exact.enforceRetentionPolicy q now hexact
      refine ⟨q', hsome, hexact', fun ht hp => ?_⟩
      obtain ⟨q'', hsome', horderly'⟩ :=
        PartitionQueue.steady_orderly.enforceRetentionPolicy q now (horderly ht hp)
      cases hsome.symm.trans hsome'
      exact horderly'
    · rintro q offset consumerId ⟨hexact, horderly⟩
      exact ⟨PartitionQueue.steady_exact.acknowledge q offset consumerId hexact, fun ht hp =>
        PartitionQueue.steady_orderly.acknowledge q offset consumerId (horderly ht hp)⟩
    · rintro q ⟨hexact, horderly⟩
      exact ⟨PartitionQueue.steady_exact.cleanupAcknowledged q hexact, fun ht hp =>
        PartitionQueue.steady_orderly.cleanupAcknowledged q (horderly ht hp)⟩
  queue := by
    rintro s topic' partitionId' q hs hq
    refine ⟨hs.exact _ _ _ hq, ?_⟩
    rintro rfl rfl
    obtain ⟨q', hq', horderly⟩ := hs.orderly
    cases hq.symm.trans hq'
    exact horderly
  setQueue := by
    rintro s topic' partitionId' q q' hs hq ⟨hexact, horderly⟩
    refine ⟨hs.exact.setQueue hexact, ?_⟩
    by_cases hhere : topic = topic' ∧ partitionId = partitionId'
    · obtain ⟨rfl, rfl⟩ := hhere
      exact ⟨q', Cursor.queue?_setQueue_self hq, horderly rfl rfl⟩
    · obtain ⟨q₀, hq₀, horderly₀⟩ := hs.orderly
      refine ⟨q₀, ?_, horderly₀⟩
      rw [Storage.queue?_setQueue, if_neg (fun h => hhere ⟨h.1, h.2.1⟩), hq₀]
  setPolicy _ hs := ⟨hs.exact, hs.orderly⟩

/-- **Step lemma**, calls of others. -/
theorem Serves.step {storage : Storage} (h : Serves topic partitionId storage)
    (c : StorageCall) : Serves topic partitionId (storage.step (.call c)) := by
  refine (queuewise_serves topic partitionId).step_call ?_ h c
  rintro topic' partitionId' q message now nowEnforce offset q' ⟨hexact, horderly⟩ happend
  exact ⟨hexact.of_append happend, fun ht hp => (horderly ht hp).append happend⟩

/-- A reader that has finished reads nothing more. -/
theorem step_read_of_finished {s : PageRun} (hfinished : s.finished = true) :
    s.step topic partitionId .read = s := by
  simp only [PageRun.step, hfinished, if_true]

/-- **Step lemma** for the pages. -/
theorem Inv.step {s : PageRun} (hs : s.Inv topic partitionId) (op : PageOp) :
    (s.step topic partitionId op).Inv topic partitionId := by
  cases op with
  | read =>
      cases hfinished : s.finished with
      | true =>
          rw [step_read_of_finished hfinished]
          exact hs
      | false => exact (hs.read hfinished).inv
  | call c => exact ⟨hs.serves.step c, hs.sorted, hs.bounds⟩

/-! ### Pages read in a row -/

theorem foldl_reads_of_finished {s : PageRun} (hfinished : s.finished = true) (n : Nat) :
    (List.replicate n PageOp.read).foldl (PageRun.step topic partitionId) s = s := by
  induction n with
  | zero => rfl
  | succ n ih => rw [List.replicate_succ, List.foldl_cons, step_read_of_finished hfinished, ih]

/-- **Run lemma**, without other calls: each page brings at least one message,
so more pages than messages reach the end. -/
theorem Inv.foldl_reads {s : PageRun} (hs : s.Inv topic partitionId)
    (hfinished : s.finished = false) {n : Nat}
    (hn : (fromOffset s.position (s.queued topic partitionId)).length < n) :
    ((List.replicate n PageOp.read).foldl (PageRun.step topic partitionId) s).finished = true ∧
      ((List.replicate n PageOp.read).foldl (PageRun.step topic partitionId) s).returned =
        s.returned ++ fromOffset s.position (s.queued topic partitionId) := by
  induction n generalizing s with
  | zero => exact absurd hn (Nat.not_lt_zero _)
  | succ n ih =>
      rw [List.replicate_succ, List.foldl_cons]
      obtain ⟨hqueued, hinv, hpage⟩ := hs.read hfinished
      rcases hpage with ⟨hempty, hend, hreturned⟩ | ⟨-, hgoes, page, hne, hreturned, hrest⟩
      · rw [foldl_reads_of_finished hend, hempty, List.append_nil]
        exact ⟨hend, hreturned⟩
      · have hlength := congrArg List.length hrest
        rw [List.length_append] at hlength
        have hpos := List.length_pos_of_ne_nil hne
        have hfewer : (fromOffset (s.step topic partitionId .read).position
            ((s.step topic partitionId .read).queued topic partitionId)).length < n := by
          rw [hqueued]
          omega
        obtain ⟨hend, hall⟩ := ih hinv hgoes hfewer
        refine ⟨hend, ?_⟩
        rw [hall, hreturned, hqueued, List.append_assoc, hrest]

/-! ### A message that stays -/

/-- The message has been returned, or is still ahead of the reader, who has
come at least an offset further with each of `n` pages. -/
def Ahead (startOffset : Int64) (m : StoredMessage) (n : Nat) (s : PageRun) : Prop :=
  m ∈ s.returned ∨
    (s.finished = false ∧ s.position.toInt ≤ m.offset.toInt ∧
      startOffset.toInt + n ≤ s.position.toInt)

/-- **Step lemma** for a message that is queued. -/
theorem Ahead.step {s : PageRun} {startOffset : Int64} {m : StoredMessage} {n : Nat}
    (h : Ahead startOffset m n s) (hs : s.Inv topic partitionId)
    (hm : m ∈ s.queued topic partitionId) (op : PageOp) :
    Ahead startOffset m (n + PageOp.reads [op]) (s.step topic partitionId op) := by
  cases op with
  | call c => exact h
  | read =>
      cases hfinished : s.finished with
      | true =>
          rw [step_read_of_finished hfinished]
          rcases h with hreturned | ⟨hgoes, -⟩
          · exact .inl hreturned
          · cases hfinished.symm.trans hgoes
      | false =>
          obtain ⟨-, -, hpage⟩ := hs.read hfinished
          rcases h with hreturned | ⟨-, hposition, hfar⟩
          · -- what has been returned stays so
            refine .inl ?_
            rcases hpage with ⟨-, -, hsame⟩ | ⟨-, -, page, -, hgrown, -⟩
            · rw [hsame]
              exact hreturned
            · rw [hgrown]
              exact List.mem_append_left _ hreturned
          · have hfrom : m ∈ fromOffset s.position (s.queued topic partitionId) :=
              List.mem_filter.mpr ⟨hm, decide_eq_true (Int64.le_iff_toInt_le.mpr hposition)⟩
            rcases hpage with ⟨hempty, -⟩ | ⟨hmoves, hgoes, page, -, hgrown, hrest⟩
            · rw [hempty] at hfrom
              cases hfrom
            · rw [← hrest] at hfrom
              rcases List.mem_append.mp hfrom with hmem | hbehind
              · rw [Ahead, hgrown]
                exact .inl (List.mem_append_right _ hmem)
              · have hle := of_decide_eq_true (List.mem_filter.mp hbehind).2
                refine .inr ⟨hgoes, Int64.le_iff_toInt_le.mp hle, ?_⟩
                show startOffset.toInt + ((n + 1 : Nat) : Int) ≤ _
                omega

/-- **Run lemma.** -/
theorem Ahead.run {s : PageRun} {startOffset : Int64} {m : StoredMessage} {n : Nat}
    (h : Ahead startOffset m n s) (hs : s.Inv topic partitionId) {ops : List PageOp}
    (hstays : Always (PageRun.step topic partitionId) (fun s => m ∈ s.queued topic partitionId) s ops) :
    Ahead startOffset m (n + PageOp.reads ops) (ops.foldl (PageRun.step topic partitionId) s) := by
  induction ops generalizing s n with
  | nil => exact h
  | cons op ops ih =>
      have hreads : n + PageOp.reads (op :: ops) = n + PageOp.reads [op] + PageOp.reads ops := by
        cases op <;> simp only [PageOp.reads] <;> omega
      rw [List.foldl_cons, hreads]
      exact ih (h.step hs hstays.1 op) (hs.step op) hstays.2

theorem Inv.run {s : PageRun} (hs : s.Inv topic partitionId) (ops : List PageOp) :
    (ops.foldl (PageRun.step topic partitionId) s).Inv topic partitionId := by
  induction ops generalizing s with
  | nil => exact hs
  | cons op ops ih => exact ih (hs.step op)

/-- No message is returned twice. -/
theorem Inv.nodup {s : PageRun} (hs : s.Inv topic partitionId) : s.returned.Nodup := by
  apply hs.sorted.imp
  rintro a b hlt rfl
  omega

/-- **Paged reads are complete.**  Take a partition after any life, and a reader
from any offset on.  Left alone it comes to an empty page, after more pages than
there are messages at the latest, and has then got exactly the queued messages
from that offset on, in their order.  Whatever else is called between the pages,
it gets messages in increasing offset order; and a message that stays queued has
been returned exactly once when the empty page comes, or when there have been
more pages than offsets up to the message. -/
theorem pages_complete (topic : String) (partitionId : Int32) (policy : RetentionPolicy)
    {wal : Option WalLog} (hwal : wal = none ∨ wal = some ⟨[]⟩) (life : List PartitionOp)
    {storage : Storage} (hstorage : storage.Exact)
    (hqueue : storage.queue? topic partitionId =
      some (PartitionRun.run ⟨PartitionQueue.empty policy wal, [], []⟩ life).queue)
    (startOffset : Int64) :
    (∀ n, (PartitionRun.run ⟨PartitionQueue.empty policy wal, [], []⟩ life).queue.messages.length <
        n →
      ((List.replicate n PageOp.read).foldl (step topic partitionId)
          (start storage startOffset)).finished = true ∧
        ((List.replicate n PageOp.read).foldl (step topic partitionId)
          (start storage startOffset)).returned =
            fromOffset startOffset
              ((PartitionRun.run ⟨PartitionQueue.empty policy wal, [], []⟩
                life).queue.messages.map MessageEntry.toStoredMessage)) ∧
    ∀ ops : List PageOp,
      ((ops.foldl (step topic partitionId) (start storage startOffset)).returned.Pairwise
        fun a b => a.offset < b.offset) ∧
      ∀ m, startOffset ≤ m.offset →
        Always (step topic partitionId) (fun s => m ∈ s.queued topic partitionId)
          (start storage startOffset) ops →
        (ops.foldl (step topic partitionId) (start storage startOffset)).finished = true ∨
          m.offset.toInt < startOffset.toInt + PageOp.reads ops →
        (ops.foldl (step topic partitionId) (start storage startOffset)).returned.count m = 1 := by
  have horderly := PartitionQueue.orderly_run policy hwal life
  have hstart : (start storage startOffset).Inv topic partitionId :=
    ⟨⟨hstorage, _, hqueue, horderly⟩, List.Pairwise.nil, by simp [start]⟩
  constructor
  · intro n hn
    have hqueued : (start storage startOffset).queued topic partitionId =
        (PartitionRun.run ⟨PartitionQueue.empty policy wal, [], []⟩ life).queue.messages.map
          MessageEntry.toStoredMessage := by
      simp only [queued, start, hqueue]
    have hlength : (fromOffset (start storage startOffset).position
        ((start storage startOffset).queued topic partitionId)).length < n := by
      rw [hqueued]
      apply Nat.lt_of_le_of_lt (List.length_filter_le _ _)
      rw [List.length_map]
      exact hn
    have hreads := hstart.foldl_reads rfl hlength
    rw [hqueued] at hreads
    exact hreads
  · intro ops
    have hinv := hstart.run ops
    refine ⟨hinv.sorted.imp fun h => Int64.lt_iff_toInt_lt.mpr h, ?_⟩
    intro m hm hstays hend
    have hahead : Ahead startOffset m 0 (start storage startOffset) :=
      .inr ⟨rfl, Int64.le_iff_toInt_le.mp hm, by simp [start]⟩
    apply List.count_eq_one_of_mem hinv.nodup
    rcases hahead.run hstart hstays with hreturned | ⟨hgoes, hposition, hfar⟩
    · exact hreturned
    · rcases hend with hfinished | hreads
      · cases hfinished.symm.trans hgoes
      · rw [Nat.zero_add] at hfar
        omega

/-- Three messages are appended, the second one is acknowledged and cleaned up. -/
def gappedLife : List PartitionOp :=
  [.append Storage.helloWorld 0 .unixEpoch .unixEpoch,
   .append Storage.helloWorld 0 .unixEpoch .unixEpoch,
   .append Storage.helloWorld 0 .unixEpoch .unixEpoch,
   .acknowledge 1 "consumer", .cleanupAcknowledged]

/-- A storage with the one partition `test/0` that has had this life. -/
def gappedStorage : Storage where
  topics := (∅ : HashMap String (HashMap Int32 PartitionQueue)).insert "test"
    ((∅ : HashMap Int32 PartitionQueue).insert 0
      (PartitionRun.run ⟨PartitionQueue.empty .default (some ⟨[]⟩), [], []⟩ gappedLife).queue)
  consumerOffsets := ∅
  retentionPolicy := .default

/-- `pages_complete` on that partition: with an append and a cleanup between the
pages, the message behind the gap is returned once. -/
theorem pages_complete_gapped :
    gappedStorage.Exact ∧
    gappedStorage.queue? "test" 0 =
      some (PartitionRun.run ⟨PartitionQueue.empty .default (some ⟨[]⟩), [], []⟩
        gappedLife).queue ∧
    ([PageOp.read, .call (.append "test" 0 Storage.helloWorld .unixEpoch .unixEpoch), .read,
        .call (.cleanup [("test", [0])]), .read].foldl (step "test" 0)
          (start gappedStorage 0)).returned.count
      ⟨2, Storage.helloWorld, .unixEpoch, 0⟩ = 1 := by
  have hqueue : gappedStorage.queue? "test" 0 =
      some (PartitionRun.run ⟨PartitionQueue.empty .default (some ⟨[]⟩), [], []⟩
        gappedLife).queue := by
    simp [gappedStorage, Storage.queue?]
  have hexact : gappedStorage.Exact := by
    intro topic partitionId q hq
    obtain ⟨partitions, hpartitions, hlookup⟩ := Option.bind_eq_some_iff.mp hq
    obtain ⟨rfl, rfl⟩ := HashMap.of_lookup_insert_empty hpartitions
    obtain ⟨rfl, rfl⟩ := HashMap.of_lookup_insert_empty hlookup
    exact (PartitionQueue.orderly_run .default (.inr rfl) gappedLife).size
  refine ⟨hexact, hqueue, ((pages_complete "test" 0 .default (.inr rfl) gappedLife hexact hqueue
    0).2 _).2 _ (by decide) ?_ (.inl ?_)⟩
  · decide +kernel
  · decide +kernel

end PageRun

end Rafka
