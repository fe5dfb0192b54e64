/-
Rafka/Framing.lean

Parsing of framed batches (`ZeroCopyProcessor::parse_batch` in
`crates/core/src/zero_copy.rs`).

The loop walks over the bytes with an offset.  It takes four bytes as the length of
a message, most significant first, and as many bytes after them as the message.
The lengths are whatever the bytes say, so each addition to the offset and each
slice could panic; in the model they do (`none`).

Main results: on bytes that fit into memory nothing panics, and exactly the framings
of messages are accepted, each with the messages that it frames
(`parse_accepts_framings`).  Together with `process_batch`, whatever its buffers
hold, this makes a round trip of every batch within the limits
(`process_parse_roundtrip`).
-/
import Mathlib.Algebra.Order.BigOperators.Group.List
import Rafka.ZeroCopy

namespace Rafka

/-! ### Slices -/

/-- An addition of `usize`, which panics if it overflows. -/
def usizeAdd (a b : Nat) : Option Nat := if a + b < 2 ^ 64 then some (a + b) else none

/-- `data[start..stop]`, which panics if it is out of range. -/
def slice (data : List UInt8) (start stop : Nat) : Option (List UInt8) :=
  if start ≤ stop ∧ stop ≤ data.length then some ((data.take stop).drop start) else none

theorem eq_of_usizeAdd {a b c : Nat} (h : usizeAdd a b = some c) : c = a + b := by
  unfold usizeAdd at h
  split at h
  · exact (Option.some.inj h).symm
  · cases h

theorem slice_middle (front middle rest : List UInt8) :
    slice (front ++ (middle ++ rest)) front.length (front.length + middle.length) =
      some middle := by
  have hle : front.length ≤ front.length + middle.length ∧
      front.length + middle.length ≤ (front ++ (middle ++ rest)).length := by
    simp only [List.length_append]
    omega
  rw [slice, if_pos hle, ← List.append_assoc, ← List.length_append, List.take_left,
    List.drop_left]

/-! ### The parser -/

namespace ZeroCopyProcessor

/-- The loop of `parse_batch`: `messages` are those found so far. -/
def parseLoop (data : List UInt8) (offset : Nat) (messages : List (List UInt8)) :
    Option (Except String (List (List UInt8))) :=
  if offset < data.length then
    match _hprefix : usizeAdd offset 4 with
    | none => none
    | some start =>
        if start > data.length then some (.error "Incomplete length prefix")
        else
          match slice data offset start with
          | none => none
          | some lenBytes =>
              match _hmessage : usizeAdd start (ofBE lenBytes) with
              | none => none
              | some stop =>
                  if stop > data.length then some (.error "Incomplete message data")
                  else
                    match slice data start stop with
                    | none => none
                    | some message => parseLoop data stop (messages ++ [message])
  else some (.ok messages)
termination_by data.length - offset
decreasing_by
  have hstart := eq_of_usizeAdd _hprefix
  have hstop := eq_of_usizeAdd _hmessage
  omega

/-- `ZeroCopyProcessor::parse_batch`. -/
def parseBatch (data : List UInt8) : Option (Except String (List (List UInt8))) :=
  parseLoop data 0 []

end ZeroCopyProcessor

/-! ### The grammar -/

/-- The bytes are the messages, each behind its length in four bytes. -/
def Framed (messages : List (List UInt8)) (data : List UInt8) : Prop :=
  data = framing messages ∧ ∀ m ∈ messages, m.length < 2 ^ 32

theorem framing_cons (m : List UInt8) (ms : List (List UInt8)) :
    framing (m :: ms) = toBE 4 m.length ++ (m ++ framing ms) := by
  simp [framing, pieces]

theorem framed_nil_iff {data : List UInt8} : Framed [] data ↔ data = [] := by
  simp [Framed, framing, pieces]

theorem framed_cons_iff {m : List UInt8} {ms : List (List UInt8)} {data : List UInt8} :
    Framed (m :: ms) data ↔
      ∃ lenBytes rest, data = lenBytes ++ (m ++ rest) ∧ lenBytes.length = 4 ∧
        ofBE lenBytes = m.length ∧ Framed ms rest := by
  constructor
  · rintro ⟨rfl, hshort⟩
    refine ⟨toBE 4 m.length, framing ms, framing_cons m ms, length_toBE 4 _, ?_, rfl, ?_⟩
    · exact ofBE_toBE_u32 (hshort m List.mem_cons_self)
    · exact fun m' hm' => hshort m' (List.mem_cons_of_mem m hm')
  · rintro ⟨lenBytes, rest, rfl, hfour, hlen, rfl, hshort⟩
    constructor
    · rw [framing_cons, ← hlen, toBE_ofBE hfour]
    · intro m' hm'
      rcases List.mem_cons.mp hm' with rfl | hmem
      · rw [← hlen]
        exact ofBE_lt_u32 hfour
      · exact hshort m' hmem

/-- Bytes that start with a length are a framing exactly if as many bytes follow it, and
then a framing. -/
theorem framed_append_iff {lenBytes body : List UInt8} (hfour : lenBytes.length = 4)
    {found : List (List UInt8)} :
    Framed found (lenBytes ++ body) ↔ ∃ m rest found', found = m :: found' ∧
      readExact (ofBE lenBytes) body = some (m, rest) ∧ Framed found' rest := by
  cases found with
  | nil =>
      have hne : lenBytes ++ body ≠ [] := by
        intro hnil
        rw [(List.append_eq_nil_iff.mp hnil).1] at hfour
        cases hfour
      apply iff_of_false (fun h => hne (framed_nil_iff.mp h))
      rintro ⟨m, rest, found', ⟨⟩, -⟩
  | cons m found =>
      rw [framed_cons_iff]
      constructor
      · rintro ⟨lenBytes', rest, hsame, hfour', hlen, hfound⟩
        obtain ⟨rfl, rfl⟩ := List.append_inj hsame (hfour.trans hfour'.symm)
        exact ⟨m, rest, found, rfl, readExact_append rest hlen.symm, hfound⟩
      · rintro ⟨m', rest, found', hcons, hbody, hfound⟩
        obtain ⟨rfl, rfl⟩ := List.cons.inj hcons
        obtain ⟨hlen, rfl⟩ := readExact_eq_some.mp hbody
        exact ⟨lenBytes, rest, rfl, hfour, hlen.symm, hfound⟩

/-- Bytes are framed in one way at most. -/
theorem Framed.unique {ms ms' : List (List UInt8)} {data : List UInt8} (h : Framed ms data)
    (h' : Framed ms' data) : ms = ms' := by
  induction ms generalizing ms' data with
  | nil =>
      rw [framed_nil_iff] at h
      subst h
      cases ms' with
      | nil => rfl
      | cons m' ms' =>
          obtain ⟨lenBytes, rest, hdata, hfour, -⟩ := framed_cons_iff.mp h'
          rw [(List.append_eq_nil_iff.mp hdata.symm).1] at hfour
          cases hfour
  | cons m ms ih =>
      obtain ⟨lenBytes, rest, rfl, hfour, hlen, hrest⟩ := framed_cons_iff.mp h
      cases ms' with
      | nil =>
          rw [framed_nil_iff] at h'
          rw [(List.append_eq_nil_iff.mp h').1] at hfour
          cases hfour
      | cons m' ms' =>
          obtain ⟨lenBytes', rest', hdata, hfour', hlen', hrest'⟩ := framed_cons_iff.mp h'
          obtain ⟨rfl, hbody⟩ := List.append_inj hdata (hfour.trans hfour'.symm)
          obtain ⟨rfl, rfl⟩ := List.append_inj hbody (hlen.symm.trans hlen')
          rw [ih hrest hrest']

/-! ### The loop -/

namespace ZeroCopyProcessor

variable {front rest : List UInt8} {messages : List (List UInt8)}

theorem parseLoop_end (data : List UInt8) (messages : List (List UInt8)) :
    parseLoop data data.length messages = some (.ok messages) := by
  rw [parseLoop, if_neg (Nat.lt_irrefl _)]

/-- Fewer than four bytes are left, but some. -/
theorem parseLoop_short_length (hdata : (front ++ rest).length < 2 ^ 63) (hne : rest ≠ [])
    (hshort : rest.length < 4) :
    parseLoop (front ++ rest) front.length messages = some (.error "Incomplete length prefix") := by
  rw [List.length_append] at hdata
  have hpos := List.length_pos_iff.mpr hne
  have hadd : usizeAdd front.length 4 = some (front.length + 4) := if_pos (by omega)
  rw [parseLoop, if_pos (by rw [List.length_append]; omega), hadd]
  exact if_pos (by rw [List.length_append]; omega)

/-- Four bytes are read as a length. -/
theorem parseLoop_turn {lenBytes : List UInt8} (hfour : lenBytes.length = 4)
    (hdata : (front ++ (lenBytes ++ rest)).length < 2 ^ 63) :
    parseLoop (front ++ (lenBytes ++ rest)) front.length messages =
      match readExact (ofBE lenBytes) rest with
      | none => some (.error "Incomplete message data")
      | some (message, _) =>
          parseLoop (front ++ (lenBytes ++ rest)) (front ++ (lenBytes ++ message)).length
            (messages ++ [message]) := by
  have hsize := ofBE_lt_u32 hfour
  have hlength : (front ++ (lenBytes ++ rest)).length = front.length + 4 + rest.length := by
    rw [List.length_append, List.length_append, hfour, Nat.add_assoc]
  rw [hlength] at hdata
  have hprefix : usizeAdd front.length 4 = some (front.length + 4) := if_pos (by omega)
  have hlen : slice (front ++ (lenBytes ++ rest)) front.length (front.length + 4) =
      some lenBytes := by
    rw [← hfour]
    exact slice_middle front lenBytes rest
  have hmessage : usizeAdd (front.length + 4) (ofBE lenBytes) =
      some (front.length + 4 + ofBE lenBytes) := if_pos (by omega)
  rw [parseLoop, if_pos (by rw [hlength]; omega), hprefix]
  simp only
  rw [if_neg (by rw [hlength]; omega), hlen]
  simp only
  rw [hmessage]
  simp only
  cases hread : readExact (ofBE lenBytes) rest with
  | none =>
      have hless := readExact_eq_none.mp hread
      exact if_pos (by rw [hlength]; omega)
  | some pair =>
      obtain ⟨message, rest'⟩ := pair
      obtain ⟨hfits, rfl⟩ := readExact_eq_some.mp hread
      have hslice : slice (front ++ (lenBytes ++ (message ++ rest'))) (front.length + 4)
          (front.length + 4 + ofBE lenBytes) = some message := by
        have hfront : (front ++ lenBytes).length = front.length + 4 := by
          rw [List.length_append, hfour]
        rw [← List.append_assoc, ← hfront, ← hfits]
        exact slice_middle (front ++ lenBytes) message rest'
      have hstop : (front ++ (lenBytes ++ message)).length =
          front.length + 4 + ofBE lenBytes := by
        rw [List.length_append, List.length_append, hfour, hfits, Nat.add_assoc]
      have hinside : ¬ front.length + 4 + ofBE lenBytes >
          (front ++ (lenBytes ++ (message ++ rest'))).length := by
        rw [hlength, List.length_append, hfits]
        omega
      rw [if_neg hinside, hslice]
      simp only
      rw [hstop]

/-- **The loop accepts what is left exactly if it is a framing**, and it never
panics. -/
theorem parseLoop_spec (front rest : List UInt8) (messages : List (List UInt8))
    (hdata : (front ++ rest).length < 2 ^ 63) :
    ∃ result, parseLoop (front ++ rest) front.length messages = some result ∧
      ∀ ms, result = .ok ms ↔ ∃ found, ms = messages ++ found ∧ Framed found rest := by
  -- by the number of bytes that are left
  induction hk : rest.length using Nat.strongRecOn generalizing front rest messages with
  | ind k ih =>
      by_cases hempty : rest = []
      · subst hempty
        refine ⟨.ok messages, by rw [List.append_nil, parseLoop_end], fun ms => ?_⟩
        constructor
        · rintro ⟨⟩
          exact ⟨[], (List.append_nil _).symm, framed_nil_iff.mpr rfl⟩
        · rintro ⟨found, rfl, hfound⟩
          rw [Framed.unique hfound (framed_nil_iff.mpr rfl), List.append_nil]
      · cases hread : readExact 4 rest with
        | none =>
            refine ⟨_, parseLoop_short_length hdata hempty (readExact_eq_none.mp hread), ?_⟩
            intro ms
            apply iff_of_false (fun h => by cases h)
            rintro ⟨found, -, hfound⟩
            cases found with
            | nil => exact hempty (framed_nil_iff.mp hfound)
            | cons m found =>
                obtain ⟨lenBytes, rest', rfl, hfour, -⟩ := framed_cons_iff.mp hfound
                rw [readExact_append _ hfour] at hread
                cases hread
        | some pair =>
            obtain ⟨lenBytes, body⟩ := pair
            obtain ⟨hfour, rfl⟩ := readExact_eq_some.mp hread
            rw [parseLoop_turn hfour hdata]
            cases hbody : readExact (ofBE lenBytes) body with
            | none =>
                refine ⟨_, rfl, fun ms => iff_of_false (fun h => by cases h) ?_⟩
                rintro ⟨found, -, hfound⟩
                obtain ⟨m, rest', found', -, hsome, -⟩ := (framed_append_iff hfour).mp hfound
                rw [hbody] at hsome
                cases hsome
            | some pair =>
                obtain ⟨m, rest'⟩ := pair
                obtain ⟨hlen, rfl⟩ := readExact_eq_some.mp hbody
                have hshape : front ++ (lenBytes ++ (m ++ rest')) =
                    front ++ (lenBytes ++ m) ++ rest' := by
                  simp only [List.append_assoc]
                have hless : rest'.length < k := by
                  rw [← hk, List.length_append, List.length_append, hfour]
                  omega
                rw [hshape] at hdata ⊢
                obtain ⟨result, hresult, hspec⟩ :=
                  ih rest'.length hless (front ++ (lenBytes ++ m)) rest' (messages ++ [m]) hdata rfl
                refine ⟨result, hresult, fun ms => (hspec ms).trans ?_⟩
                constructor
                · rintro ⟨found, rfl, hfound⟩
                  refine ⟨m :: found, List.append_assoc _ _ _, ?_⟩
                  exact (framed_append_iff hfour).mpr ⟨m, rest', found, rfl, hbody, hfound⟩
                · rintro ⟨found, rfl, hfound⟩
                  obtain ⟨m', rest'', found', rfl, hsome, hfound'⟩ := (framed_append_iff hfour).mp hfound
                  rw [hbody] at hsome
                  cases hsome
                  exact ⟨found', (List.append_assoc _ [m] found').symm, hfound'⟩

/-- **The parser accepts exactly the framings.**  On all bytes that fit into memory it
returns, without a slice out of range; with success exactly on a framing, with the
messages that it frames; and with an error on everything else. -/
theorem parse_accepts_framings (data : List UInt8) (hdata : data.length < 2 ^ 63) :
    (parseBatch data).isSome ∧ (∀ ms, parseBatch data = some (.ok ms) ↔ Framed ms data) ∧
      (∀ ms, parseBatch data = some (.ok ms) → framing ms = data) ∧
      ((∀ ms, ¬ Framed ms data) → ∃ message, parseBatch data = some (.error message)) := by
  obtain ⟨result, hresult, hspec⟩ := parseLoop_spec [] data [] hdata
  have hparse : parseBatch data = some result := hresult
  have hok : ∀ ms, parseBatch data = some (.ok ms) ↔ Framed ms data := by
    intro ms
    rw [hparse, Option.some.injEq, hspec ms]
    constructor
    · rintro ⟨found, rfl, hfound⟩
      exact hfound
    · intro hframed
      exact ⟨ms, rfl, hframed⟩
  refine ⟨by rw [hparse]; rfl, hok, fun ms h => ((hok ms).mp h).1.symm, fun hnone => ?_⟩
  cases result with
  | error message => exact ⟨message, hparse⟩
  | ok ms => exact absurd ((hok ms).mp hparse) (hnone ms)

/-- One message of one byte, which looks like the start of a length. -/
theorem parse_accepts_one_byte :
    [0, 0, 0, 1, 0].length < 2 ^ 63 ∧ framing [[0]] = [0, 0, 0, 1, 0] ∧
      parseBatch [0, 0, 0, 1, 0] = some (.ok [[0]]) := by
  have hframed : Framed [[0]] [0, 0, 0, 1, 0] := by
    refine ⟨by decide, fun m hm => ?_⟩
    rw [List.mem_singleton.mp hm]
    decide
  exact ⟨by decide, by decide,
    ((parse_accepts_framings [0, 0, 0, 1, 0] (by decide)).2.1 [[0]]).mpr hframed⟩

/-! ### Round trips -/

/-- A processor in whose buffers earlier calls have left these bytes. -/
def holding (batchSize : Nat) (input output : List UInt8) : ZeroCopyProcessor :=
  let p := new batchSize
  { p with
    inputBuffer := { p.inputBuffer with buffer := input }
    outputBuffer := { p.outputBuffer with buffer := output } }

/-- Only the bounds tell a processor from a new one. -/
theorem eq_holding {p : ZeroCopyProcessor} {batchSize : Nat} (hbatch : p.batchSize = batchSize)
    (hinput : p.inputBuffer.maxSize = 1024 * 1024)
    (houtput : p.outputBuffer.maxSize = 1024 * 1024) :
    p = holding batchSize p.inputBuffer.buffer p.outputBuffer.buffer := by
  obtain ⟨⟨input, inputMax⟩, ⟨output, outputMax⟩, size⟩ := p
  cases hbatch
  cases hinput
  cases houtput
  rfl

theorem sameBounds_runOps (p : ZeroCopyProcessor) (ops : List BufferOp) :
    FramingCall.SameBounds p (p.runOps ops).2 := by
  induction ops generalizing p with
  | nil => exact ⟨rfl, fun _ => rfl⟩
  | cons op ops ih =>
      have hexec := FramingCall.sameBounds_exec p op
      simp only [runOps]
      split <;> rename_i heq <;> rw [heq] at hexec
      · obtain ⟨hbatch, hside⟩ := ih _
        exact ⟨hbatch.trans hexec.1, fun side => (hside side).trans (hexec.2 side)⟩
      · exact hexec
      · exact hexec

/-- Whatever calls a processor has been through, failed ones included, its buffers hold
something. -/
theorem exists_holding (batchSize : Nat) (calls : List (List (List UInt8))) :
    ∃ input output, calls.foldl (fun p messages => (p.processBatch messages).2)
      (new batchSize) = holding batchSize input output := by
  have hcall : ∀ input output messages, ∃ input' output',
      ((holding batchSize input output).processBatch messages).2 =
        holding batchSize input' output' := by
    intro input output messages
    unfold processBatch
    split
    · exact ⟨input, output, rfl⟩
    · obtain ⟨hbatch, hside⟩ :=
        sameBounds_runOps (holding batchSize input output) (processOps messages)
      exact ⟨_, _, eq_holding hbatch (hside .input) (hside .output)⟩
  have hcalls : ∀ input output, ∃ input' output',
      calls.foldl (fun p messages => (p.processBatch messages).2)
        (holding batchSize input output) = holding batchSize input' output' := by
    induction calls with
    | nil => exact fun input output => ⟨input, output, rfl⟩
    | cons messages calls ih =>
        intro input output
        obtain ⟨input', output', hnext⟩ := hcall input output messages
        rw [List.foldl_cons, hnext]
        exact ih input' output'
  exact hcalls [] []

theorem length_flatten_le_framing (messages : List (List UInt8)) :
    messages.flatten.length ≤ (framing messages).length ∧
      (framing messages).length = (messages.map fun m => m.length + 4).sum := by
  induction messages with
  | nil => exact ⟨Nat.le_refl _, rfl⟩
  | cons m messages ih =>
      rw [framing_cons, List.flatten_cons, List.map_cons, List.sum_cons]
      simp only [List.length_append, length_toBE]
      omega

theorem tooLarge_holding_iff (batchSize : Nat) (input output : List UInt8)
    (messages : List (List UInt8)) :
    ¬ (holding batchSize input output).TooLarge messages ↔
      messages.length ≤ batchSize ∧
        (messages.map fun m => m.length + 4).sum ≤ 1024 * 1024 := by
  obtain ⟨hinput, houtput⟩ := length_flatten_le_framing messages
  show ¬ (messages.length > batchSize ∨ messages.flatten.length > 1024 * 1024 ∨
    (framing messages).length > 1024 * 1024) ↔ _
  rw [← houtput]
  omega

/-- **Framing round-trips.**  Whatever is left in the buffers, a call alone succeeds
exactly on a batch within both limits, and its result is parsed as the same batch. -/
theorem process_parse_roundtrip (batchSize : Nat) (input output : List UInt8)
    (messages : List (List UInt8)) :
    ((∃ bytes, ((holding batchSize input output).processBatch messages).1 = .ok bytes) ↔
        messages.length ≤ batchSize ∧
          (messages.map fun m => m.length + 4).sum ≤ 1024 * 1024) ∧
      ∀ bytes, ((holding batchSize input output).processBatch messages).1 = .ok bytes →
        parseBatch bytes = some (.ok messages) := by
  have hfits := tooLarge_holding_iff batchSize input output messages
  constructor
  · rw [← hfits, ← not_iff_not, not_not, ← processBatch_error_iff]
    cases ((holding batchSize input output).processBatch messages).1 with
    | error message => simp
    | ok bytes => simp
  · intro bytes hbytes
    have hsmall : ¬ (holding batchSize input output).TooLarge messages := by
      rw [← processBatch_error_iff, hbytes]
      rintro ⟨message, ⟨⟩⟩
    obtain ⟨hbatch, hsum⟩ := hfits.mp hsmall
    have hroom : ¬ messages.length > (holding batchSize input output).batchSize :=
      Nat.not_lt.mpr hbatch
    rw [processBatch_fst, if_neg hroom, if_neg hsmall] at hbytes
    cases hbytes
    have hlength := (length_flatten_le_framing messages).2
    refine ((parse_accepts_framings (framing messages) (by omega)).2.1 messages).mpr ⟨rfl, ?_⟩
    intro m hm
    have hle := List.le_sum_of_mem (List.mem_map_of_mem (f := fun m => m.length + 4) hm)
    omega

end ZeroCopyProcessor

end Rafka
