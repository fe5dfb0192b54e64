/-
Rafka/Wal.lean

The write-ahead log of a partition (`WalLog` in `crates/storage/src/db.rs`).

A log file is a byte sequence that only grows at its end.  `WalLog::append`
writes one frame per entry: the length of the encoded entry as eight bytes,
then the entry itself in the fixed-width little-endian layout of bincode 1.3

    offset i64 | payload length u64, payload | seconds u64, nanos u32 | partition i32

which is 32 bytes more than the payload; the acknowledgements are not
written.  `WalLog::read_all` reads frames until fewer than eight bytes are
left.  A frame whose body is cut short is an error, and so is a body that
does not decode; a length prefix beyond what a `Vec` can hold panics.

Main results: complete frames read back as their entries
(`readLoop_frames`, `readAll_foldl_append`); a rest of fewer than eight bytes is passed over
(`readLoop_short_length`), a length prefix that asks for more bytes than are
left loses everything read before it (`readLoop_short_body`).
-/
import Mathlib.Data.Finset.Basic
import Rafka.Time
import Rafka.Wire

namespace Rafka

/-! ### Entries -/

/-- The payload of an entry.  The encoding of the entry is a `Vec<u8>` of 32
bytes more, and a `Vec` holds at most `isize::MAX` bytes. -/
structure Payload where
  bytes : List UInt8
  length_lt : bytes.length + 32 < 2 ^ 63
deriving DecidableEq

/-- `Vec::len` of the payload. -/
def Payload.len (p : Payload) : Nat := p.bytes.length

/-- Bytes read out of a `Vec` as a payload.  The other 32 bytes of the entry
were in the same `Vec`, so the bound is met there. -/
def Payload.ofBytes (bytes : List UInt8) : Option Payload :=
  if h : bytes.length + 32 < 2 ^ 63 then some ⟨bytes, h⟩ else none

/-- `MessageEntry`.  The map `acknowledged_by` only ever holds `true`, so it
is the set of its keys. -/
structure MessageEntry where
  offset : Int64
  payload : Payload
  timestamp : EpochTime
  partitionId : Int32
  acknowledgedBy : Finset String
deriving DecidableEq

/-- The whole seconds of a clock reading. -/
def EpochTime.secs (t : EpochTime) : Nat := t.nanos / 10 ^ 9

/-- The nanoseconds past the last whole second. -/
def EpochTime.subsecNanos (t : EpochTime) : Nat := t.nanos % 10 ^ 9

/-- A clock reading from seconds and nanoseconds; refused if the seconds do
not fit an `i64`. -/
def EpochTime.ofParts (secs nanos : Nat) : Option EpochTime :=
  if h : secs * 10 ^ 9 + nanos < 2 ^ 63 * 10 ^ 9 then some ⟨secs * 10 ^ 9 + nanos, h⟩
  else none

namespace MessageEntry

/-- The entry as it comes back from a log: `acknowledged_by` is skipped by
the serializer. -/
def unacknowledged (e : MessageEntry) : MessageEntry := { e with acknowledgedBy := ∅ }

/-- `bincode::serialize` of an entry. -/
def serialize (e : MessageEntry) : List UInt8 :=
  toLE 8 e.offset.toUInt64.toNat ++
    (toLE 8 e.payload.len ++
      (e.payload.bytes ++
        (toLE 8 e.timestamp.secs ++
          (toLE 4 e.timestamp.subsecNanos ++ toLE 4 e.partitionId.toUInt32.toNat))))

/-- `bincode::deserialize` of an entry; bytes after the entry are allowed. -/
def deserialize (data : List UInt8) : Option MessageEntry := do
  let (offset, data) ← readExact 8 data
  let (len, data) ← readExact 8 data
  let (bytes, data) ← readExact (ofLE len) data
  let payload ← Payload.ofBytes bytes
  let (secs, data) ← readExact 8 data
  let (nanos, data) ← readExact 4 data
  let timestamp ← EpochTime.ofParts (ofLE secs) (ofLE nanos)
  let (partitionId, _) ← readExact 4 data
  return {
    offset := (UInt64.ofNat (ofLE offset)).toInt64
    payload := payload
    timestamp := timestamp
    partitionId := (UInt32.ofNat (ofLE partitionId)).toInt32
    acknowledgedBy := ∅ }

@[simp] theorem length_serialize (e : MessageEntry) :
    e.serialize.length = e.payload.len + 32 := by
  simp only [serialize, List.length_append, length_toLE, Payload.len]
  omega

theorem length_serialize_lt (e : MessageEntry) : e.serialize.length < 2 ^ 63 := by
  rw [length_serialize]
  exact e.payload.length_lt

end MessageEntry

theorem Payload.ofBytes_bytes (p : Payload) : Payload.ofBytes p.bytes = some p :=
  dif_pos p.length_lt

theorem EpochTime.ofParts_secs_subsecNanos (t : EpochTime) :
    EpochTime.ofParts t.secs t.subsecNanos = some t := by
  have hsum : t.secs * 10 ^ 9 + t.subsecNanos = t.nanos := by
    simp only [EpochTime.secs, EpochTime.subsecNanos]
    exact Nat.div_add_mod' _ _
  have hlt : t.secs * 10 ^ 9 + t.subsecNanos < 2 ^ 63 * 10 ^ 9 := hsum ▸ t.nanos_lt
  rw [EpochTime.ofParts, dif_pos hlt]
  cases t
  simp only [Option.some.injEq, EpochTime.mk.injEq]
  exact hsum

namespace MessageEntry

/-- Six fields of the right lengths decode to the entry they spell. -/
theorem deserialize_fields {offset len bytes secs nanos pid : List UInt8}
    {payload : Payload} {timestamp : EpochTime} (hoff : offset.length = 8)
    (hlen : len.length = 8) (hbytes : bytes.length = ofLE len) (hsecs : secs.length = 8)
    (hnanos : nanos.length = 4) (hpid : pid.length = 4)
    (hpayload : Payload.ofBytes bytes = some payload)
    (htime : EpochTime.ofParts (ofLE secs) (ofLE nanos) = some timestamp) :
    deserialize (offset ++ (len ++ (bytes ++ (secs ++ (nanos ++ pid))))) =
      some ⟨(UInt64.ofNat (ofLE offset)).toInt64, payload, timestamp,
        (UInt32.ofNat (ofLE pid)).toInt32, ∅⟩ := by
  -- one field after the other is split off the front
  have hlast : readExact 4 pid = some (pid, []) :=
    readExact_eq_some.mpr ⟨hpid, (List.append_nil pid).symm⟩
  unfold deserialize
  refine Option.bind_eq_some_iff.mpr ⟨(offset, _), readExact_append _ hoff, ?_⟩
  refine Option.bind_eq_some_iff.mpr ⟨(len, _), readExact_append _ hlen, ?_⟩
  refine Option.bind_eq_some_iff.mpr ⟨(bytes, _), readExact_append _ hbytes, ?_⟩
  refine Option.bind_eq_some_iff.mpr ⟨payload, hpayload, ?_⟩
  refine Option.bind_eq_some_iff.mpr ⟨(secs, _), readExact_append _ hsecs, ?_⟩
  refine Option.bind_eq_some_iff.mpr ⟨(nanos, _), readExact_append _ hnanos, ?_⟩
  refine Option.bind_eq_some_iff.mpr ⟨timestamp, htime, ?_⟩
  exact Option.bind_eq_some_iff.mpr ⟨(pid, _), hlast, rfl⟩

/-- **Round trip.**  An encoded entry decodes to itself, without its
acknowledgements. -/
theorem deserialize_serialize (e : MessageEntry) :
    deserialize e.serialize = some e.unacknowledged := by
  have hlen : ofLE (toLE 8 e.payload.len) = e.payload.len := by
    have := e.payload.length_lt
    exact ofLE_toLE_u64 (by simp only [Payload.len]; omega)
  have hoff : ofLE (toLE 8 e.offset.toUInt64.toNat) = e.offset.toUInt64.toNat :=
    ofLE_toLE_u64 e.offset.toUInt64.toNat_lt
  have hsecs : ofLE (toLE 8 e.timestamp.secs) = e.timestamp.secs := by
    have := e.timestamp.nanos_lt
    exact ofLE_toLE_u64 (by simp only [EpochTime.secs]; omega)
  have hnanos : ofLE (toLE 4 e.timestamp.subsecNanos) = e.timestamp.subsecNanos :=
    ofLE_toLE_u32 (by simp only [EpochTime.subsecNanos]; omega)
  have hpid : ofLE (toLE 4 e.partitionId.toUInt32.toNat) = e.partitionId.toUInt32.toNat :=
    ofLE_toLE_u32 e.partitionId.toUInt32.toNat_lt
  have htime : EpochTime.ofParts (ofLE (toLE 8 e.timestamp.secs))
      (ofLE (toLE 4 e.timestamp.subsecNanos)) = some e.timestamp := by
    rw [hsecs, hnanos, EpochTime.ofParts_secs_subsecNanos]
  rw [serialize, deserialize_fields (length_toLE _ _) (length_toLE _ _) hlen.symm
    (length_toLE _ _) (length_toLE _ _) (length_toLE _ _) e.payload.ofBytes_bytes htime,
    hoff, hpid, UInt64.ofNat_toNat, UInt32.ofNat_toNat, Int64.toInt64_toUInt64,
    Int32.toInt32_toUInt32, unacknowledged]

/-- The payload of a decoded entry has the length its length field says, and
the other fields are in the data too. -/
theorem payload_of_deserialize {data : List UInt8} {e : MessageEntry}
    (h : deserialize data = some e) :
    e.payload.len = ofLE ((data.drop 8).take 8) ∧ e.payload.len + 32 ≤ data.length := by
  simp only [deserialize, Option.bind_eq_bind, Option.bind_eq_some_iff, Option.pure_def,
    Option.some.injEq, Prod.exists, readExact_eq_some] at h
  obtain ⟨offset, d₁, ⟨hoff, rfl⟩, len, d₂, ⟨hlen, rfl⟩, bytes, d₃, ⟨hbytes, rfl⟩, payload,
    hpayload, secs, d₄, ⟨hsecs, rfl⟩, nanos, d₅, ⟨hnanos, rfl⟩, timestamp, -, partitionId,
    d₆, ⟨hpid, rfl⟩, rfl⟩ := h
  have hp : payload.len = ofLE len := by
    simp only [Payload.ofBytes] at hpayload
    split at hpayload
    · cases hpayload
      exact hbytes
    · cases hpayload
  constructor
  · rw [hp, List.drop_left' hoff, List.take_left' hlen]
  · simp only [List.length_append, hoff, hlen, hbytes, hsecs, hnanos, hpid, hp]
    omega

/-- Entries nobody has acknowledged come back as they are. -/
theorem map_unacknowledged {es : List MessageEntry} (h : ∀ e ∈ es, e.acknowledgedBy = ∅) :
    es.map unacknowledged = es := by
  refine (List.map_congr_left fun e he => ?_).trans (List.map_id es)
  cases e
  simp only [unacknowledged, id_eq, mk.injEq, true_and]
  exact (h _ he).symm

end MessageEntry

/-! ### The log file -/

/-- Why `WalLog::read_all` does not return the entries. -/
inductive ReadError
  /-- The file ends inside the body of a frame. -/
  | unexpectedEof
  /-- The body of a frame is not an entry. -/
  | invalidEntry
  /-- `vec![0u8; len]` panics: the length prefix exceeds `isize::MAX`. -/
  | capacityOverflow
deriving DecidableEq

/-- `WalLog`: the bytes of its file. -/
structure WalLog where
  file : List UInt8
deriving DecidableEq

namespace WalLog

/-- The bytes `WalLog::append` writes for an entry. -/
def frame (entry : MessageEntry) : List UInt8 :=
  toLE 8 entry.serialize.length ++ entry.serialize

/-- `WalLog::append`, the write having succeeded. -/
def append (wal : WalLog) (entry : MessageEntry) : WalLog :=
  ⟨wal.file ++ frame entry⟩

/-- The loop of `WalLog::read_all`: `entries` are those read so far and
`file` is what is left to read. -/
def readLoop (entries : List MessageEntry) (file : List UInt8) :
    Except ReadError (List MessageEntry) :=
  match _hr : readExact 8 file with
  | none => .ok entries
  | some (buffer, rest) =>
      let len := ofLE buffer
      if 2 ^ 63 ≤ len then .error .capacityOverflow
      else
        match _hd : readExact len rest with
        | none => .error .unexpectedEof
        | some (data, rest') =>
            match MessageEntry.deserialize data with
            | some entry => readLoop (entries ++ [entry]) rest'
            | none => .error .invalidEntry
termination_by file.length
decreasing_by
  obtain ⟨hb, rfl⟩ := readExact_eq_some.mp _hr
  obtain ⟨-, rfl⟩ := readExact_eq_some.mp _hd
  simp only [List.length_append, hb]
  omega

/-- `WalLog::read_all`. -/
def readAll (wal : WalLog) : Except ReadError (List MessageEntry) :=
  readLoop [] wal.file

/-! ### Reading complete frames -/

/-- The frames of `es`, one after the other. -/
def frames (es : List MessageEntry) : List UInt8 := es.flatMap frame

@[simp] theorem length_frame (e : MessageEntry) :
    (frame e).length = e.payload.len + 40 := by
  simp only [frame, List.length_append, length_toLE, MessageEntry.length_serialize]
  omega

/-- The length prefix of a frame reads back as the length of its body. -/
theorem ofLE_lengthField (e : MessageEntry) :
    ofLE (toLE 8 e.serialize.length) = e.serialize.length := by
  have := e.length_serialize_lt
  exact ofLE_toLE_u64 (by omega)

variable {entries : List MessageEntry} {file : List UInt8}

/-- Fewer than eight bytes left: the loop ends. -/
theorem readLoop_short_length (h : file.length < 8) : readLoop entries file = .ok entries := by
  have hnone : readExact 8 file = none := readExact_eq_none.mpr h
  unfold readLoop
  split
  · rfl
  · rename_i hsome
    rw [hnone] at hsome
    cases hsome

/-- One turn of the loop: a length prefix and what follows it. -/
theorem readLoop_turn {buffer rest : List UInt8} (hb : buffer.length = 8) :
    readLoop entries (buffer ++ rest) =
      if 2 ^ 63 ≤ ofLE buffer then .error .capacityOverflow
      else
        match readExact (ofLE buffer) rest with
        | none => .error .unexpectedEof
        | some (data, rest') =>
            match MessageEntry.deserialize data with
            | some entry => readLoop (entries ++ [entry]) rest'
            | none => .error .invalidEntry := by
  have hsome : readExact 8 (buffer ++ rest) = some (buffer, rest) := readExact_append rest hb
  -- only the outer call is to be unfolded
  conv_lhs => unfold readLoop
  split
  · rename_i hnone
    rw [hsome] at hnone
    cases hnone
  · rename_i b r hs
    rw [hsome] at hs
    cases hs
    dsimp only
    split
    · rfl
    · split
      · rename_i hn
        simp only [hn]
      · rename_i data rest' hd
        simp only [hd]

/-- The loop reads a complete frame and goes on after it. -/
theorem readLoop_frame (e : MessageEntry) (rest : List UInt8) :
    readLoop entries (frame e ++ rest) = readLoop (entries ++ [e.unacknowledged]) rest := by
  rw [frame, List.append_assoc, readLoop_turn (length_toLE _ _), ofLE_lengthField,
    if_neg (Nat.not_le.mpr e.length_serialize_lt), readExact_append rest rfl]
  simp only [MessageEntry.deserialize_serialize]

/-- **Complete frames are read back**, in order and without acknowledgements. -/
theorem readLoop_frames (es : List MessageEntry) (rest : List UInt8) :
    readLoop entries (frames es ++ rest) =
      readLoop (entries ++ es.map MessageEntry.unacknowledged) rest := by
  induction es generalizing entries with
  | nil => simp [frames]
  | cons e es ih =>
      have hcons : frames (e :: es) ++ rest = frame e ++ (frames es ++ rest) := by
        simp [frames]
      rw [hcons, readLoop_frame, ih, List.map_cons, List.append_assoc, List.singleton_append]

/-- A file of complete frames, with fewer than eight bytes after them, is read
back as their entries. -/
theorem readAll_frames {es : List MessageEntry} {rest : List UInt8}
    (hfresh : ∀ e ∈ es, e.acknowledgedBy = ∅) (hrest : rest.length < 8) :
    readAll ⟨frames es ++ rest⟩ = .ok es := by
  rw [readAll, readLoop_frames, MessageEntry.map_unacknowledged hfresh, List.nil_append]
  -- a short rest is taken for the end of the file
  exact readLoop_short_length hrest

theorem file_foldl_append (es : List MessageEntry) (wal : WalLog) :
    (es.foldl append wal).file = wal.file ++ frames es := by
  induction es generalizing wal with
  | nil => simp [frames]
  | cons e es ih =>
      rw [List.foldl_cons, ih, append, frames, frames, List.flatMap_cons, List.append_assoc]

/-- **Encoding round-trips.**  Whatever is appended to a new log is read back, in
order and without acknowledgements. -/
theorem readAll_foldl_append (es : List MessageEntry) :
    readAll (es.foldl append ⟨[]⟩) = .ok (es.map MessageEntry.unacknowledged) := by
  have hfile : (es.foldl append ⟨[]⟩).file = frames es ++ [] := by
    rw [file_foldl_append, List.nil_append, List.append_nil]
  rw [readAll, hfile, readLoop_frames, List.nil_append]
  exact readLoop_short_length (Nat.succ_pos 7)

/-! ### Reading a damaged frame -/

/-- A length prefix that asks for more bytes than are left: no entries are
returned. -/
theorem readLoop_short_body {buffer rest : List UInt8} (hb : buffer.length = 8)
    (hlt : ofLE buffer < 2 ^ 63) (hshort : rest.length < ofLE buffer) :
    readLoop entries (buffer ++ rest) = .error .unexpectedEof := by
  rw [readLoop_turn hb, if_neg (Nat.not_le.mpr hlt), readExact_eq_none.mpr hshort]

/-- The entries read so far stay in front. -/
theorem prefix_of_readLoop {es : List MessageEntry} (h : readLoop entries file = .ok es) :
    entries <+: es := by
  -- along the turns of the loop: it only ever adds entries
  induction entries, file using readLoop.induct with
  | case1 entries file hnone =>
      rw [readLoop_short_length (readExact_eq_none.mp hnone)] at h
      cases h
      exact List.prefix_rfl
  | case2 entries file buffer rest hr len hcap =>
      obtain ⟨hb, rfl⟩ := readExact_eq_some.mp hr
      rw [readLoop_turn hb, if_pos hcap] at h
      cases h
  | case3 entries file buffer rest hr len hcap hnone =>
      obtain ⟨hb, rfl⟩ := readExact_eq_some.mp hr
      rw [readLoop_turn hb, if_neg hcap, hnone] at h
      cases h
  | case4 entries file buffer rest hr len hcap data rest' hd entry he ih =>
      obtain ⟨hb, rfl⟩ := readExact_eq_some.mp hr
      rw [readLoop_turn hb, if_neg hcap, hd] at h
      simp only [he] at h
      exact (List.prefix_append entries [entry]).trans (ih h)
  | case5 entries file buffer rest hr len hcap data rest' hd hnone =>
      obtain ⟨hb, rfl⟩ := readExact_eq_some.mp hr
      rw [readLoop_turn hb, if_neg hcap, hd] at h
      simp only [hnone] at h
      cases h

/-- The first entry of a file is decoded from the bytes its first length
prefix asks for, and they are all there. -/
theorem deserialize_of_readLoop {buffer rest : List UInt8} {e : MessageEntry}
    {es : List MessageEntry} (hb : buffer.length = 8)
    (h : readLoop [] (buffer ++ rest) = .ok (e :: es)) :
    ofLE buffer ≤ rest.length ∧
      MessageEntry.deserialize (rest.take (ofLE buffer)) = some e := by
  rw [readLoop_turn hb] at h
  split at h
  · cases h
  · rcases hd : readExact (ofLE buffer) rest with - | ⟨data, rest'⟩
    · rw [hd] at h
      cases h
    · rw [hd] at h
      obtain ⟨hlen, rfl⟩ := readExact_eq_some.mp hd
      rcases he : MessageEntry.deserialize data with - | entry
      · simp only [he] at h
        cases h
      · simp only [he] at h
        -- what the loop reads later comes after the first entry
        have hhead : entry = e := by
          obtain ⟨t, ht⟩ := prefix_of_readLoop h
          exact (List.cons_eq_cons.mp ht).1
        refine ⟨by simp [← hlen], ?_⟩
        rw [List.take_left' hlen, he, hhead]

end WalLog

end Rafka
