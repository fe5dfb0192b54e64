/-
Rafka/Crash.lean

A crash in the middle of a log write.

`WalLog::append` hands one frame to the file.  A crash inside it leaves a
proper prefix of that frame at the end of the file, and the next
incarnation of the queue appends right after it.  `read_all` treats the two
places where the cut can fall differently: inside the length prefix it takes
the rest for the end of the file, inside the body it gives up on the file,
and `PartitionQueue::new` then goes on with an empty queue over the same
file.

A `Crash` is such a situation and `Crash.Recovers` what a log is for: after
any restarts and further operations, a restart brings back every entry whose
append completed, before the crash or after it.  Main result
(`recovers_iff`): this is so exactly when the crash left no byte of the
interrupted frame.
-/
import Mathlib.Tactic.IntervalCases
import Rafka.Partition

namespace Rafka

/-- An entry as `PartitionQueue::append` writes it: nobody has acknowledged
it, and the increment of the counter did not overflow. -/
structure LoggedEntry where
  entry : MessageEntry
  fresh : entry.acknowledgedBy = ∅
  room : entry.offset ≠ Int64.maxValue

/-- A crash inside a log write. -/
structure Crash where
  /-- The entries whose write completed. -/
  completed : List LoggedEntry
  /-- The entry being written. -/
  interrupted : LoggedEntry
  /-- The queue gives it the next offset. -/
  next : interrupted.entry.offset =
    PartitionQueue.offsetAfter 0 (completed.map LoggedEntry.entry)
  /-- How many bytes of its frame reached the file. -/
  written : Nat
  written_lt : written < (WalLog.frame interrupted.entry).length

namespace Crash

/-- The entries whose write completed. -/
def entries (c : Crash) : List MessageEntry := c.completed.map LoggedEntry.entry

/-- What is left of the interrupted frame. -/
def torn (c : Crash) : List UInt8 := (WalLog.frame c.interrupted.entry).take c.written

/-- The file after the crash. -/
def file (c : Crash) : List UInt8 := WalLog.frames c.entries ++ c.torn

/-- The partition after the crash.  The queue in memory is gone: the first
operation is a restart. -/
def state (c : Crash) : PartitionRun where
  queue := PartitionQueue.empty RetentionPolicy.default (some ⟨c.file⟩)
  returned := []
  history := c.entries

/-- After a restart and any further operations and restarts, `new` brings
back every completed entry in order, with the counter above all of them. -/
def Recovers (c : Crash) : Prop :=
  ∀ (policy policy' : RetentionPolicy) (ops : List PartitionOp),
    ∃ q, PartitionQueue.new policy'
        (c.state.run (.restart policy :: ops)).queue.wal = some q ∧
      q.messages = (c.state.run (.restart policy :: ops)).history ∧
      ∀ e ∈ q.messages, e.offset < q.nextOffset

variable {c : Crash}

theorem entries_fresh (c : Crash) : ∀ e ∈ c.entries, e.acknowledgedBy = ∅ := by
  intro e he
  obtain ⟨l, -, rfl⟩ := List.mem_map.mp he
  exact l.fresh

theorem entries_room (c : Crash) : ∀ e ∈ c.entries, e.offset ≠ Int64.maxValue := by
  intro e he
  obtain ⟨l, -, rfl⟩ := List.mem_map.mp he
  exact l.room

/-! ### Nothing of the frame was written -/

theorem durable_state (h : c.written = 0) : c.state.Durable := by
  refine ⟨?_, c.entries_fresh, c.entries_room, List.nil_sublist _, rfl⟩
  simp [state, PartitionQueue.empty, file, torn, h]

/-- A crash before the first byte is harmless. -/
theorem recovers_of_written_eq_zero (h : c.written = 0) : c.Recovers := by
  intro policy policy' ops
  have hd := (durable_state h).run (.restart policy :: ops)
  refine ⟨_, hd.new_eq policy', rfl, ?_⟩
  exact (PartitionQueue.lt_offsetAfter hd.room).2

/-! ### The cut is inside the length prefix -/

/-- An append to a queue of exact size puts its entry at the end of the file
and of the history. -/
theorem step_append {s : PartitionRun} {w : WalLog} (payload : Payload)
    (hsize : s.queue.currentSize = payloadBytes s.queue.messages)
    (hroom : s.queue.nextOffset ≠ Int64.maxValue) (hwal : s.queue.wal = some w) :
    ∃ x : MessageEntry, x.payload = payload ∧
      (s.step (.append payload 0 .unixEpoch .unixEpoch)).queue.wal = some (w.append x) ∧
      (s.step (.append payload 0 .unixEpoch .unixEpoch)).history = s.history ++ [x] := by
  obtain ⟨kept, -, hsome⟩ :=
    PartitionQueue.append_spec payload 0 .unixEpoch .unixEpoch hsize hroom
  refine ⟨⟨s.queue.nextOffset, payload, .unixEpoch, 0, ∅⟩, rfl, ?_, ?_⟩
  · simp only [PartitionRun.step, hsome, PartitionQueue.push, hwal, Option.map_some]
  · simp only [PartitionRun.step, hsome]

/-- A file that cannot be read comes back as an empty queue over that file. -/
theorem new_of_unexpectedEof {policy : RetentionPolicy} {w : WalLog}
    (h : w.readAll = .error .unexpectedEof) :
    PartitionQueue.new policy (some w) = some (PartitionQueue.empty policy (some w)) := by
  simp only [PartitionQueue.new, h]

/-- The loop reads the completed entries and goes on with what follows. -/
theorem readAll_file (c : Crash) (rest : List UInt8) :
    WalLog.readAll ⟨c.file ++ rest⟩ = WalLog.readLoop c.entries (c.torn ++ rest) := by
  rw [WalLog.readAll, file, List.append_assoc, WalLog.readLoop_frames,
    MessageEntry.map_unacknowledged c.entries_fresh, List.nil_append]

theorem length_torn (c : Crash) : c.torn.length = c.written := by
  have := c.written_lt
  rw [torn, List.length_take]
  omega

/-- The first bytes of a length prefix of 32. -/
theorem ofLE_take_thirtyTwo {k : Nat} (hpos : 0 < k) (hlt : k < 8) :
    ofLE ((toLE 8 32).take (8 - k)) = 32 := by
  interval_cases k <;> decide

/-- With a cut inside the length prefix, the next frame completes the prefix:
the length so read is more than the file holds. -/
theorem readAll_torn_length (hpos : 0 < c.written) (hlt : c.written < 8)
    {x : MessageEntry} (hx : x.payload.len = 0) :
    WalLog.readAll ⟨c.file ++ WalLog.frame x⟩ = .error .unexpectedEof := by
  have hserialize : x.serialize.length = 32 := by rw [x.length_serialize, hx]
  -- the eight bytes that are read as a length end inside the new length prefix
  have hsplit : c.torn ++ WalLog.frame x = (c.torn ++ (toLE 8 32).take (8 - c.written)) ++
      ((toLE 8 32).drop (8 - c.written) ++ x.serialize) := by
    rw [WalLog.frame, hserialize, List.append_assoc, ← List.append_assoc (List.take _ _),
      List.take_append_drop]
  have hbuffer : (c.torn ++ (toLE 8 32).take (8 - c.written)).length = 8 := by
    rw [List.length_append, c.length_torn, List.length_take, length_toLE]
    omega
  -- `32` is read from byte `written` on
  have hvalue : ofLE (c.torn ++ (toLE 8 32).take (8 - c.written)) =
      ofLE c.torn + 256 ^ c.written * 32 := by
    rw [ofLE_append, c.length_torn, ofLE_take_thirtyTwo hpos hlt]
  have htorn : ofLE c.torn < 256 ^ c.written := c.length_torn ▸ ofLE_lt c.torn
  have hrest : ((toLE 8 32).drop (8 - c.written) ++ x.serialize).length = c.written + 32 := by
    rw [List.length_append, List.length_drop, length_toLE, hserialize]
    omega
  rw [readAll_file, hsplit]
  -- no panic, but far more than the `written + 32` bytes that are left
  refine WalLog.readLoop_short_body hbuffer ?_ ?_
  · rw [hvalue]
    have hpow : 256 ^ c.written ≤ 256 ^ 7 := Nat.pow_le_pow_right (by omega) (by omega)
    omega
  · rw [hvalue, hrest]
    have hpow : c.written < 256 ^ c.written := Nat.lt_pow_self (by omega)
    omega

/-- To refute `Recovers` it is enough to make one append after the restart. -/
theorem not_recovers_of_append {q : PartitionQueue} (payload : Payload)
    (hnew : PartitionQueue.new RetentionPolicy.default (some ⟨c.file⟩) = some q)
    (hsize : q.currentSize = payloadBytes q.messages)
    (hroom : q.nextOffset ≠ Int64.maxValue) (hwal : q.wal = some ⟨c.file⟩)
    (hbad : ∀ x : MessageEntry, x.payload = payload → ∀ q',
      PartitionQueue.new RetentionPolicy.default (some ⟨c.file ++ WalLog.frame x⟩) = some q' →
        q'.messages ≠ c.entries ++ [x]) :
    ¬ c.Recovers := by
  intro hrec
  have hrestart : c.state.step (.restart RetentionPolicy.default) =
      { c.state with queue := q } := by
    simp only [PartitionRun.step, state, PartitionQueue.empty, hnew, Option.getD_some]
  obtain ⟨x, hx, hwal', hhist⟩ :=
    step_append (s := { c.state with queue := q }) payload hsize hroom hwal
  obtain ⟨q', hq', hmessages, -⟩ := hrec RetentionPolicy.default RetentionPolicy.default
    [.append payload 0 .unixEpoch .unixEpoch]
  simp only [PartitionRun.run, List.foldl_cons, List.foldl_nil, hrestart, hwal', hhist]
    at hq' hmessages
  exact hbad x hx q' hq' hmessages

/-- A payload of `n` zero bytes. -/
def zeros (n : Nat) (h : n + 32 < 2 ^ 63) : Payload := ⟨List.replicate n 0, by simpa using h⟩

/-- **A torn length prefix hides the log**: one more append, and nothing
comes back. -/
theorem not_recovers_of_torn_length (hpos : 0 < c.written) (hlt : c.written < 8) :
    ¬ c.Recovers := by
  -- the first restart still reads the completed entries
  have hnew := PartitionQueue.new_frames RetentionPolicy.default c.entries_fresh
    c.entries_room (c.length_torn.trans_lt hlt)
  refine not_recovers_of_append (zeros 0 (by omega)) hnew rfl ?_ rfl ?_
  · exact c.next ▸ c.interrupted.room
  · intro x hx q' hq'
    have hlen : x.payload.len = 0 := by rw [hx]; rfl
    rw [new_of_unexpectedEof (readAll_torn_length hpos hlt hlen)] at hq'
    cases hq'
    simp [PartitionQueue.empty]

/-! ### The cut is inside the body -/

/-- The torn frame: the whole length prefix and a part of the body. -/
theorem torn_eq (h : 8 ≤ c.written) :
    c.torn = toLE 8 c.interrupted.entry.serialize.length ++
      c.interrupted.entry.serialize.take (c.written - 8) := by
  rw [torn, WalLog.frame, List.take_append, length_toLE, List.take_of_length_le]
  rw [length_toLE]
  exact h

/-- With a cut inside the body the file cannot be read at all. -/
theorem readAll_torn_body (h : 8 ≤ c.written) :
    WalLog.readAll ⟨c.file⟩ = .error .unexpectedEof := by
  have hlt := c.written_lt
  rw [← List.append_nil c.file, readAll_file, List.append_nil, torn_eq h]
  refine WalLog.readLoop_short_body (length_toLE _ _) ?_ ?_
  · rw [WalLog.ofLE_lengthField]
    exact MessageEntry.length_serialize_lt _
  · rw [WalLog.ofLE_lengthField, List.length_take]
    rw [WalLog.length_frame] at hlt
    rw [MessageEntry.length_serialize]
    omega

/-- **A torn body hides the entries before it.** -/
theorem not_recovers_of_torn_body (h : 8 ≤ c.written) (hne : c.entries ≠ []) :
    ¬ c.Recovers := by
  intro hrec
  have hnew (policy : RetentionPolicy) :
      PartitionQueue.new policy (some ⟨c.file⟩) = _ := new_of_unexpectedEof (readAll_torn_body h)
  -- already the second restart comes back empty
  obtain ⟨q, hq, hmessages, -⟩ := hrec RetentionPolicy.default RetentionPolicy.default []
  simp only [PartitionRun.run, List.foldl_cons, List.foldl_nil, PartitionRun.step, state,
    PartitionQueue.empty, hnew, Option.getD_some, Option.some.injEq] at hq hmessages
  subst hq
  exact hne hmessages.symm

/-- The length field of the payload, inside the encoding. -/
theorem take_drop_serialize (e : MessageEntry) :
    (e.serialize.drop 8).take 8 = toLE 8 e.payload.len := by
  rw [MessageEntry.serialize, List.drop_left' (length_toLE _ _),
    List.take_left' (length_toLE _ _)]

/-- With nothing before the torn body, a frame appended after it is read as
the missing part of that body, so the entry that comes back has a payload no
longer than the torn one; and if the torn payload has 25 bytes or more, the
missing part is too short to reach back to its length field. -/
theorem payload_after_torn_body (h : 8 ≤ c.written) (hnil : c.entries = [])
    {x : MessageEntry} (hread : WalLog.readAll ⟨c.file ++ WalLog.frame x⟩ = .ok [x]) :
    x.payload.len ≤ c.interrupted.entry.payload.len ∧
      (25 ≤ c.interrupted.entry.payload.len → x.payload.len ≠ 0) := by
  have hlt := c.written_lt
  rw [WalLog.length_frame] at hlt
  rw [readAll_file, hnil, torn_eq h, List.append_assoc] at hread
  obtain ⟨hle, hdec⟩ := WalLog.deserialize_of_readLoop (length_toLE _ _) hread
  rw [WalLog.ofLE_lengthField] at hle hdec
  obtain ⟨hfield, hbound⟩ := MessageEntry.payload_of_deserialize hdec
  rw [List.length_take, MessageEntry.length_serialize] at hbound
  refine ⟨by omega, fun hbig hzero => ?_⟩
  have hbody : 17 ≤ c.written - 8 := by
    simp only [List.length_append, List.length_take, MessageEntry.length_serialize,
      WalLog.length_frame, hzero] at hle
    omega
  -- so the length field that is read is the torn entry's own
  have hsame : ((c.interrupted.entry.serialize.take (c.written - 8) ++ WalLog.frame x).take
      c.interrupted.entry.serialize.length).take 16 =
      c.interrupted.entry.serialize.take 16 := by
    have hlen := c.interrupted.entry.length_serialize
    rw [List.take_take, List.take_append_of_le_length, List.take_take]
    · congr 1
      omega
    · rw [List.length_take]
      omega
  have hswap (l : List UInt8) : (l.drop 8).take 8 = (l.take 16).drop 8 := by
    rw [List.drop_take]
  have hu64 : c.interrupted.entry.payload.len < 2 ^ 64 := by
    have := c.interrupted.entry.payload.length_lt
    simp only [Payload.len]
    omega
  rw [hswap, hsame, ← hswap, take_drop_serialize, ofLE_toLE_u64 hu64] at hfield
  omega

/-- **A torn body hides the entries after it.** -/
theorem not_recovers_of_torn_body_first (h : 8 ≤ c.written) (hnil : c.entries = []) :
    ¬ c.Recovers := by
  have hnew : PartitionQueue.new RetentionPolicy.default (some ⟨c.file⟩) = _ :=
    new_of_unexpectedEof (readAll_torn_body h)
  -- the entry to append depends on how long the torn payload is
  have hpayload : ∃ n, n ≤ 25 ∧ ∀ x : MessageEntry, x.payload.len = n →
      WalLog.readAll ⟨c.file ++ WalLog.frame x⟩ ≠ .ok [x] := by
    rcases Nat.lt_or_ge c.interrupted.entry.payload.len 25 with hshort | hlong
    · refine ⟨25, Nat.le_refl 25, fun x hx hread => ?_⟩
      have hle := (payload_after_torn_body h hnil hread).1
      omega
    · exact ⟨0, Nat.zero_le 25, fun x hx hread =>
        (payload_after_torn_body h hnil hread).2 hlong hx⟩
  obtain ⟨n, hn, hbad⟩ := hpayload
  refine not_recovers_of_append (zeros n (by omega)) hnew rfl ?_ rfl ?_
  · show (0 : Int64) ≠ Int64.maxValue
    decide
  intro x hx q' hq' hmessages
  have hlen : x.payload.len = n := by
    rw [hx]
    exact List.length_replicate
  rw [hnil, List.nil_append] at hmessages
  have hread := PartitionQueue.readAll_of_new hq' (by simp [hmessages])
  exact hbad x hlen (hmessages ▸ hread)

/-! ### When a crash is harmless -/

/-- **A crash is harmless exactly when it left no byte of the interrupted
frame.**  Then, whatever restarts and operations follow, a restart brings
back every completed entry; otherwise some restart does not. -/
theorem recovers_iff (c : Crash) : c.Recovers ↔ c.written = 0 := by
  constructor
  · intro hrec
    by_contra hne
    -- the cut is in the length prefix or in the body
    rcases Nat.lt_or_ge c.written 8 with hlt | hge
    · exact not_recovers_of_torn_length (by omega) hlt hrec
    · by_cases hnil : c.entries = []
      · exact not_recovers_of_torn_body_first hge hnil hrec
      · exact not_recovers_of_torn_body hge hnil hrec
  · exact recovers_of_written_eq_zero

/-- The crash of a second one-byte message, two bytes into its body. -/
def secondMessage : Crash where
  completed := [⟨⟨0, ⟨[97], by decide⟩, .unixEpoch, 0, ∅⟩, rfl, by decide⟩]
  interrupted := ⟨⟨1, ⟨[98], by decide⟩, .unixEpoch, 0, ∅⟩, rfl, by decide⟩
  next := by decide
  written := 10
  written_lt := by decide

/-- The first message, written completely, is lost. -/
theorem torn_tail_hides_complete_entry : ¬ secondMessage.Recovers :=
  not_recovers_of_torn_body (by decide) (by decide)

end Crash

end Rafka
