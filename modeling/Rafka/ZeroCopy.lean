/-
Rafka/ZeroCopy.lean

The batch framing (`crates/core/src/zero_copy.rs`).

`ZeroCopyProcessor::process_batch` collects a batch in an input buffer, then
writes it to an output buffer, each message behind its length, and returns
the output buffer.  Both buffers belong to the processor and are bounded.
The body is a fixed sequence of buffer operations with an early return at
the first append that does not fit (`processOps`, `runOps`).

Every buffer operation takes and releases its own lock, so calls on one
processor interleave at every operation.  `ProcessorRun` is any number of
such calls; a label says which call moves next.  Main results: what a call
returns when it runs alone (`processBatch_fst`), and that concurrent calls
do not mix as long as no call clears a buffer while another one is using it
(`faithful_of_exclusive`).
-/
import Rafka.Trace
import Rafka.Wire

namespace Rafka

/-- `ZeroCopyBuffer`. -/
structure ZeroCopyBuffer where
  buffer : List UInt8
  maxSize : Nat
deriving DecidableEq

namespace ZeroCopyBuffer

/-- `ZeroCopyBuffer::new`. -/
def new (maxSize : Nat) : ZeroCopyBuffer := ⟨[], maxSize⟩

/-- `ZeroCopyBuffer::append`. -/
def append (b : ZeroCopyBuffer) (data : List UInt8) : Except String ZeroCopyBuffer :=
  if b.buffer.length + data.length > b.maxSize then .error "Buffer would exceed maximum size"
  else .ok { b with buffer := b.buffer ++ data }

/-- `ZeroCopyBuffer::get_bytes`. -/
def getBytes (b : ZeroCopyBuffer) : List UInt8 := b.buffer

/-- `ZeroCopyBuffer::clear`. -/
def clear (b : ZeroCopyBuffer) : ZeroCopyBuffer := { b with buffer := [] }

end ZeroCopyBuffer

/-- `ZeroCopyProcessor`. -/
structure ZeroCopyProcessor where
  inputBuffer : ZeroCopyBuffer
  outputBuffer : ZeroCopyBuffer
  batchSize : Nat
deriving DecidableEq

/-- The two buffers of a processor. -/
inductive BufferSide
  | input
  | output
deriving DecidableEq

/-- One operation on the buffers of a processor. -/
inductive BufferOp
  | clear (side : BufferSide)
  | append (side : BufferSide) (data : List UInt8)
  | getBytes
deriving DecidableEq

/-- What is written for the messages: each one behind its length, which is
cut to 32 bits. -/
def pieces (messages : List (List UInt8)) : List (List UInt8) :=
  messages.flatMap fun m => [toBE 4 m.length, m]

/-- The length-prefixed framing of the messages. -/
def framing (messages : List (List UInt8)) : List UInt8 := (pieces messages).flatten

namespace ZeroCopyProcessor

/-- `ZeroCopyProcessor::new`: two buffers of one megabyte. -/
def new (batchSize : Nat) : ZeroCopyProcessor where
  inputBuffer := .new (1024 * 1024)
  outputBuffer := .new (1024 * 1024)
  batchSize := batchSize

/-- One of the two buffers. -/
def buffer (p : ZeroCopyProcessor) : BufferSide → ZeroCopyBuffer
  | .input => p.inputBuffer
  | .output => p.outputBuffer

/-- Replace one of the two buffers. -/
def setBuffer (p : ZeroCopyProcessor) (side : BufferSide) (b : ZeroCopyBuffer) :
    ZeroCopyProcessor :=
  match side with
  | .input => { p with inputBuffer := b }
  | .output => { p with outputBuffer := b }

/-- The operations of `process_batch` once the input has been collected. -/
def outputOps (messages : List (List UInt8)) : List BufferOp :=
  .clear .output :: ((pieces messages).map (.append .output) ++ [.getBytes])

/-- The operations of `process_batch` after its check of the batch size. -/
def processOps (messages : List (List UInt8)) : List BufferOp :=
  .clear .input :: (messages.map (.append .input) ++ outputOps messages)

/-- One operation; `getBytes` returns from the call, and so does an append
that does not fit. -/
def exec (p : ZeroCopyProcessor) :
    BufferOp → Except String (Option (List UInt8)) × ZeroCopyProcessor
  | .clear side => (.ok none, p.setBuffer side (p.buffer side).clear)
  | .append side data =>
      match (p.buffer side).append data with
      | .ok b => (.ok none, p.setBuffer side b)
      | .error e => (.error e, p)
  | .getBytes => (.ok (some p.outputBuffer.getBytes), p)

/-- Operations one after the other, up to the one that returns. -/
def runOps (p : ZeroCopyProcessor) :
    List BufferOp → Except String (List UInt8) × ZeroCopyProcessor
  | [] => (.ok [], p)
  | op :: ops =>
      match p.exec op with
      | (.ok none, p') => p'.runOps ops
      | (.ok (some bytes), p') => (.ok bytes, p')
      | (.error e, p') => (.error e, p')

/-- `ZeroCopyProcessor::process_batch`, run alone. -/
def processBatch (p : ZeroCopyProcessor) (messages : List (List UInt8)) :
    Except String (List UInt8) × ZeroCopyProcessor :=
  if messages.length > p.batchSize then (.error "Batch size exceeded", p)
  else p.runOps (processOps messages)

@[simp] theorem buffer_setBuffer (p : ZeroCopyProcessor) (side side' : BufferSide)
    (b : ZeroCopyBuffer) :
    (p.setBuffer side b).buffer side' = if side' = side then b else p.buffer side' := by
  cases side <;> cases side' <;> rfl

@[simp] theorem batchSize_setBuffer (p : ZeroCopyProcessor) (side : BufferSide)
    (b : ZeroCopyBuffer) : (p.setBuffer side b).batchSize = p.batchSize := by
  cases side <;> rfl

@[simp] theorem setBuffer_setBuffer (p : ZeroCopyProcessor) (side : BufferSide)
    (b b' : ZeroCopyBuffer) : (p.setBuffer side b).setBuffer side b' = p.setBuffer side b' := by
  cases side <;> rfl

/-! ### A call alone -/

/-- The bytes a call puts into one of the buffers. -/
def written (messages : List (List UInt8)) : BufferSide → List UInt8
  | .input => messages.flatten
  | .output => framing messages

/-- The batch does not fit the processor. -/
def TooLarge (p : ZeroCopyProcessor) (messages : List (List UInt8)) : Prop :=
  messages.length > p.batchSize ∨
    (written messages .input).length > (p.buffer .input).maxSize ∨
    (written messages .output).length > (p.buffer .output).maxSize

instance (p : ZeroCopyProcessor) (messages : List (List UInt8)) :
    Decidable (p.TooLarge messages) :=
  inferInstanceAs (Decidable (_ ∨ _ ∨ _))

/-- A series of appends to one buffer that all fit. -/
theorem runOps_append_of_le {p : ZeroCopyProcessor} {side : BufferSide}
    {ms : List (List UInt8)} {ops : List BufferOp}
    (h : (p.buffer side).buffer.length + ms.flatten.length ≤ (p.buffer side).maxSize) :
    p.runOps (ms.map (.append side) ++ ops) =
      (p.setBuffer side { p.buffer side with
        buffer := (p.buffer side).buffer ++ ms.flatten }).runOps ops := by
  induction ms generalizing p with
  | nil => cases side <;> simp [setBuffer, buffer]
  | cons m ms ih =>
      rw [List.flatten_cons, List.length_append] at h
      have hfit : ¬ (p.buffer side).buffer.length + m.length > (p.buffer side).maxSize := by
        omega
      simp only [List.map_cons, List.cons_append, runOps, exec, ZeroCopyBuffer.append,
        if_neg hfit]
      rw [ih (by simp only [buffer_setBuffer, if_true, List.length_append]; omega)]
      simp

/-- A series of appends to one buffer that do not all fit. -/
theorem runOps_append_of_lt {p : ZeroCopyProcessor} {side : BufferSide}
    {ms : List (List UInt8)} {ops : List BufferOp}
    (hle : (p.buffer side).buffer.length ≤ (p.buffer side).maxSize)
    (h : (p.buffer side).maxSize < (p.buffer side).buffer.length + ms.flatten.length) :
    (p.runOps (ms.map (.append side) ++ ops)).1 =
      .error "Buffer would exceed maximum size" := by
  induction ms generalizing p with
  | nil =>
      simp only [List.flatten_nil, List.length_nil] at h
      omega
  | cons m ms ih =>
      rw [List.flatten_cons, List.length_append] at h
      by_cases hfit : (p.buffer side).buffer.length + m.length > (p.buffer side).maxSize
      · simp only [List.map_cons, List.cons_append, runOps, exec, ZeroCopyBuffer.append,
          if_pos hfit]
      · simp only [List.map_cons, List.cons_append, runOps, exec, ZeroCopyBuffer.append,
          if_neg hfit]
        refine ih ?_ ?_ <;>
          simp only [buffer_setBuffer, if_true, List.length_append] <;> omega

/-- A buffer cleared and filled again: what it held before does not matter. -/
theorem runOps_fill (p : ZeroCopyProcessor) (side : BufferSide) (ms : List (List UInt8))
    (ops : List BufferOp) :
    (p.runOps (.clear side :: (ms.map (.append side) ++ ops))).1 =
      if ms.flatten.length > (p.buffer side).maxSize then
        .error "Buffer would exceed maximum size"
      else
        ((p.setBuffer side { p.buffer side with buffer := ms.flatten }).runOps ops).1 := by
  simp only [runOps, exec]
  by_cases h : ms.flatten.length > (p.buffer side).maxSize
  · rw [if_pos h]
    exact runOps_append_of_lt (by simp [ZeroCopyBuffer.clear])
      (by simpa [ZeroCopyBuffer.clear] using h)
  · rw [if_neg h, runOps_append_of_le (by simpa [ZeroCopyBuffer.clear] using h)]
    simp [ZeroCopyBuffer.clear]

/-- **A call alone**: whatever earlier calls left in the buffers, it returns
the framing of its messages if the batch fits, and an error otherwise. -/
theorem processBatch_fst (p : ZeroCopyProcessor) (messages : List (List UInt8)) :
    (p.processBatch messages).1 =
      if messages.length > p.batchSize then .error "Batch size exceeded"
      else if p.TooLarge messages then .error "Buffer would exceed maximum size"
      else .ok (framing messages) := by
  by_cases hbatch : messages.length > p.batchSize
  · simp only [processBatch, if_pos hbatch]
  · rw [processBatch, if_neg hbatch, if_neg hbatch, processOps, runOps_fill]
    -- the input buffer is filled first, then the output buffer
    by_cases hin : messages.flatten.length > (p.buffer .input).maxSize
    · rw [if_pos hin, if_pos (.inr (.inl hin))]
    · rw [if_neg hin, outputOps, runOps_fill]
      by_cases hout : (framing messages).length > (p.buffer .output).maxSize
      · have hlarge : p.TooLarge messages := .inr (.inr hout)
        rw [if_pos hlarge]
        exact if_pos hout
      · have hfits : ¬ p.TooLarge messages := by
          rintro (h | h | h)
          exacts [hbatch h, hin h, hout h]
        rw [if_neg hfits]
        exact if_neg hout

/-- A call alone fails exactly on a batch that does not fit. -/
theorem processBatch_error_iff (p : ZeroCopyProcessor) (messages : List (List UInt8)) :
    (∃ e, (p.processBatch messages).1 = .error e) ↔ p.TooLarge messages := by
  rw [processBatch_fst]
  by_cases hbatch : messages.length > p.batchSize
  · simp [hbatch, TooLarge]
  · by_cases hlarge : p.TooLarge messages <;> simp [hbatch, hlarge]

end ZeroCopyProcessor

/-! ### Calls side by side -/

/-- Where a call is. -/
inductive CallStatus
  | running (rest : List BufferOp)
  | returned (result : Except String (List UInt8))

/-- A call of `process_batch`. -/
structure FramingCall where
  messages : List (List UInt8)
  status : CallStatus

namespace FramingCall

open ZeroCopyProcessor

/-- The start of a call: the check of the batch size, which touches no
buffer. -/
def invoke (p : ZeroCopyProcessor) (messages : List (List UInt8)) : FramingCall where
  messages := messages
  status :=
    if messages.length > p.batchSize then .returned (.error "Batch size exceeded")
    else .running (processOps messages)

/-- The next operation of a call. -/
def step (c : FramingCall) (p : ZeroCopyProcessor) : FramingCall × ZeroCopyProcessor :=
  match c.status with
  | .running (op :: rest) =>
      match p.exec op with
      | (.ok none, p') => ({ c with status := .running rest }, p')
      | (.ok (some bytes), p') => ({ c with status := .returned (.ok bytes) }, p')
      | (.error e, p') => ({ c with status := .returned (.error e) }, p')
  | _ => (c, p)

/-- The buffer that the next operation of the call clears. -/
def clears? (c : FramingCall) : Option BufferSide :=
  match c.status with
  | .running (.clear side :: _) => some side
  | _ => none

/-- The call has cleared this buffer and is not done with it: what it has put
there still matters to it. -/
def uses (c : FramingCall) (side : BufferSide) : Bool :=
  match c.status with
  | .running rest =>
      !rest.contains (.clear side) && rest.any fun
        | .append side' _ => side' = side
        | .getBytes => side = .output
        | .clear _ => false
  | .returned _ => false

end FramingCall

/-- A processor and the calls on it. -/
structure ProcessorRun where
  processor : ZeroCopyProcessor
  calls : List FramingCall

/-- What happens next: a new call, or the next operation of a call. -/
inductive ProcessorLabel
  | invoke (messages : List (List UInt8))
  | step (i : Nat)

namespace ProcessorRun

/-- A processor without calls. -/
def start (p : ZeroCopyProcessor) : ProcessorRun := ⟨p, []⟩

/-- One step of the system. -/
def step (s : ProcessorRun) : ProcessorLabel → ProcessorRun
  | .invoke messages =>
      { s with calls := s.calls ++ [FramingCall.invoke s.processor messages] }
  | .step i =>
      match s.calls[i]? with
      | some c =>
          let (c', p') := c.step s.processor
          { processor := p', calls := s.calls.set i c' }
      | none => s

/-- Another call than the `i`-th is using the buffer. -/
def othersUse (s : ProcessorRun) (i : Nat) (side : BufferSide) : Prop :=
  ∃ j < s.calls.length, j ≠ i ∧ (s.calls[j]?.any fun c => c.uses side) = true

/-- The step clears a buffer only if no other call is using it. -/
def Exclusive (s : ProcessorRun) : ProcessorLabel → Prop
  | .invoke _ => True
  | .step i => ∀ side ∈ s.calls[i]?.bind FramingCall.clears?, ¬ s.othersUse i side

instance (s : ProcessorRun) (i : Nat) (side : BufferSide) : Decidable (s.othersUse i side) :=
  inferInstanceAs (Decidable (∃ j < s.calls.length, _))

instance (s : ProcessorRun) : ∀ label, Decidable (s.Exclusive label)
  | .invoke _ => .isTrue trivial
  | .step i => inferInstanceAs (Decidable
      (∀ side ∈ s.calls[i]?.bind FramingCall.clears?, ¬ s.othersUse i side))

/-- A call that has returned got the framing of its own messages, or failed
as it would have failed alone. -/
def Faithful (s : ProcessorRun) : Prop :=
  ∀ c ∈ s.calls,
    match c.status with
    | .running _ => True
    | .returned (.ok bytes) => bytes = framing c.messages
    | .returned (.error _) => ∃ e, (s.processor.processBatch c.messages).1 = .error e

end ProcessorRun

/-! ### The invariant -/

namespace FramingCall

open ZeroCopyProcessor

/-- Where a call stands and what the buffers hold for it. -/
inductive Own (p : ZeroCopyProcessor) : FramingCall → Prop
  /-- It has not cleared the input buffer yet. -/
  | start (messages : List (List UInt8)) :
      Own p ⟨messages, .running (processOps messages)⟩
  /-- It is collecting; `ms` are the messages to come. -/
  | collect (messages ms : List (List UInt8))
      (hin : ms ≠ [] → (p.buffer .input).buffer ++ ms.flatten = written messages .input) :
      Own p ⟨messages, .running (ms.map (.append .input) ++ outputOps messages)⟩
  /-- It is writing; `ps` are the pieces to come. -/
  | write (messages ps : List (List UInt8))
      (hout : (p.buffer .output).buffer ++ ps.flatten = written messages .output) :
      Own p ⟨messages, .running (ps.map (.append .output) ++ [.getBytes])⟩
  | ok (messages : List (List UInt8)) : Own p ⟨messages, .returned (.ok (framing messages))⟩
  | error (messages : List (List UInt8)) (e : String) (h : p.TooLarge messages) :
      Own p ⟨messages, .returned (.error e)⟩

variable {p p' : ZeroCopyProcessor} {c : FramingCall}

theorem own_invoke (p : ZeroCopyProcessor) (messages : List (List UInt8)) :
    Own p (invoke p messages) := by
  unfold invoke
  split
  · rename_i h
    exact .error messages _ (.inl h)
  · exact .start messages

/-- Two processors with the same bounds. -/
def SameBounds (p p' : ZeroCopyProcessor) : Prop :=
  p'.batchSize = p.batchSize ∧ ∀ side, (p'.buffer side).maxSize = (p.buffer side).maxSize

theorem SameBounds.tooLarge (h : SameBounds p p') {messages : List (List UInt8)}
    (hlarge : p.TooLarge messages) : p'.TooLarge messages := by
  simp only [TooLarge, h.1, h.2]
  exact hlarge

/-- The collecting phase is over once no message is to come. -/
theorem uses_collect {messages ms : List (List UInt8)} (h : ms ≠ []) :
    uses ⟨messages, .running (ms.map (.append .input) ++ outputOps messages)⟩ .input =
      true := by
  obtain ⟨m, ms, rfl⟩ := List.exists_cons_of_ne_nil h
  simp [uses, outputOps]

theorem uses_write {messages ps : List (List UInt8)} :
    uses ⟨messages, .running (ps.map (.append .output) ++ [.getBytes])⟩ .output = true := by
  simp [uses]

/-- **Frame lemma.**  A call is not disturbed by operations on the buffers it
is not using. -/
theorem Own.frame (h : Own p c) (hb : SameBounds p p')
    (hsame : ∀ side, c.uses side = true → p'.buffer side = p.buffer side) : Own p' c := by
  cases h with
  | start messages => exact .start messages
  | collect messages ms hin =>
      refine .collect messages ms fun hms => ?_
      rw [hsame .input (uses_collect hms)]
      exact hin hms
  | write messages ps hout =>
      refine .write messages ps ?_
      rw [hsame .output uses_write]
      exact hout
  | ok messages => exact .ok messages
  | error messages e hlarge => exact .error messages e (hb.tooLarge hlarge)

/-- An append that does not fit: the batch is too large. -/
theorem tooLarge_of_append {side : BufferSide} {messages : List (List UInt8)}
    {data rest : List UInt8}
    (hbuf : (p.buffer side).buffer ++ (data ++ rest) = written messages side)
    (hfull : (p.buffer side).buffer.length + data.length > (p.buffer side).maxSize) :
    p.TooLarge messages := by
  have hlen := congrArg List.length hbuf
  simp only [List.length_append] at hlen
  cases side with
  | input => exact .inr (.inl (by omega))
  | output => exact .inr (.inr (by omega))

/-- **Step lemma** for the call that moves. -/
theorem Own.step (h : Own p c) : Own (c.step p).2 (c.step p).1 := by
  cases h with
  | start messages =>
      refine .collect messages messages fun _ => ?_
      rfl
  | collect messages ms hin =>
      cases ms with
      | nil =>
          -- the clear of the output buffer
          refine .write messages (pieces messages) ?_
          rfl
      | cons m ms =>
          have hbuf := hin (List.cons_ne_nil m ms)
          rw [List.flatten_cons] at hbuf
          by_cases hfull :
              (p.buffer .input).buffer.length + m.length > (p.buffer .input).maxSize
          · simp only [FramingCall.step, List.map_cons, List.cons_append, exec,
              ZeroCopyBuffer.append, if_pos hfull]
            exact .error messages _ (tooLarge_of_append hbuf hfull)
          · simp only [FramingCall.step, List.map_cons, List.cons_append, exec,
              ZeroCopyBuffer.append, if_neg hfull]
            refine .collect messages ms fun _ => ?_
            simpa using hbuf
  | write messages ps hout =>
      cases ps with
      | nil =>
          -- the last operation reads what has been written
          have hbytes : (p.buffer .output).buffer = framing messages := by
            simpa [written] using hout
          simp only [FramingCall.step, List.map_nil, List.nil_append, exec,
            ZeroCopyBuffer.getBytes]
          rw [show p.outputBuffer.buffer = framing messages from hbytes]
          exact .ok messages
      | cons d ps =>
          rw [List.flatten_cons] at hout
          by_cases hfull :
              (p.buffer .output).buffer.length + d.length > (p.buffer .output).maxSize
          · simp only [FramingCall.step, List.map_cons, List.cons_append, exec,
              ZeroCopyBuffer.append, if_pos hfull]
            exact .error messages _ (tooLarge_of_append hout hfull)
          · simp only [FramingCall.step, List.map_cons, List.cons_append, exec,
              ZeroCopyBuffer.append, if_neg hfull]
            refine .write messages ps ?_
            simpa using hout
  | ok messages => exact .ok messages
  | error messages e hlarge => exact .error messages e hlarge

/-- One operation keeps the bounds. -/
theorem sameBounds_exec (p : ZeroCopyProcessor) (op : BufferOp) :
    SameBounds p (p.exec op).2 := by
  cases op with
  | clear side =>
      refine ⟨batchSize_setBuffer _ _ _, fun side' => ?_⟩
      simp only [exec, buffer_setBuffer]
      split_ifs with h
      · rw [h]; rfl
      · rfl
  | append side data =>
      simp only [exec, ZeroCopyBuffer.append]
      split_ifs with hfull
      · exact ⟨rfl, fun _ => rfl⟩
      · refine ⟨batchSize_setBuffer _ _ _, fun side' => ?_⟩
        simp only [buffer_setBuffer]
        split_ifs with h
        · rw [h]
        · rfl
  | getBytes => exact ⟨rfl, fun _ => rfl⟩

theorem sameBounds_step (p : ZeroCopyProcessor) (c : FramingCall) :
    SameBounds p (c.step p).2 := by
  obtain ⟨messages, (- | ⟨op, rest⟩) | r⟩ := c
  · exact ⟨rfl, fun _ => rfl⟩
  · have hexec := sameBounds_exec p op
    simp only [FramingCall.step]
    split <;> rename_i heq <;> rw [heq] at hexec <;> exact hexec
  · exact ⟨rfl, fun _ => rfl⟩

/-- A step changes a buffer only if the call clears it or is using it. -/
theorem buffer_step (h : Own p c) {side : BufferSide} (hclear : c.clears? ≠ some side)
    (huses : c.uses side = false) : (c.step p).2.buffer side = p.buffer side := by
  cases h with
  | start messages =>
      have hside : side ≠ .input := fun h => hclear (h ▸ rfl)
      exact (buffer_setBuffer p .input side _).trans (if_neg hside)
  | collect messages ms hin =>
      cases ms with
      | nil =>
          have hside : side ≠ .output := fun h => hclear (h ▸ rfl)
          exact (buffer_setBuffer p .output side _).trans (if_neg hside)
      | cons m ms =>
          have hside : side ≠ .input := by
            rintro rfl
            rw [uses_collect (List.cons_ne_nil m ms)] at huses
            cases huses
          simp only [FramingCall.step, List.map_cons, List.cons_append, exec,
            ZeroCopyBuffer.append]
          split_ifs
          · rfl
          · exact (buffer_setBuffer p .input side _).trans (if_neg hside)
  | write messages ps hout =>
      have hside : side ≠ .output := by
        rintro rfl
        rw [uses_write] at huses
        cases huses
      cases ps with
      | nil => rfl
      | cons d ps =>
          simp only [FramingCall.step, List.map_cons, List.cons_append, exec,
            ZeroCopyBuffer.append]
          split_ifs
          · rfl
          · exact (buffer_setBuffer p .output side _).trans (if_neg hside)
  | ok messages => rfl
  | error messages e hlarge => rfl

/-- A call comes to use a buffer only by clearing it. -/
theorem uses_of_uses_step (h : Own p c) {side : BufferSide}
    (huses : (c.step p).1.uses side = true) : c.clears? = some side ∨ c.uses side = true := by
  cases h with
  | start messages =>
      cases side with
      | input => exact .inl rfl
      | output => simp [FramingCall.step, processOps, exec, uses, outputOps] at huses
  | collect messages ms hin =>
      cases ms with
      | nil =>
          cases side with
          | output => exact .inl rfl
          | input => simp [FramingCall.step, outputOps, exec, uses] at huses
      | cons m ms =>
          cases side with
          | input => exact .inr (uses_collect (List.cons_ne_nil m ms))
          | output =>
              simp only [FramingCall.step, List.map_cons, List.cons_append, exec,
                ZeroCopyBuffer.append] at huses
              split_ifs at huses <;> simp [uses, outputOps] at huses
  | write messages ps hout =>
      cases side with
      | output => exact .inr uses_write
      | input =>
          cases ps with
          | nil => simp [FramingCall.step, exec, uses] at huses
          | cons d ps =>
              simp only [FramingCall.step, List.map_cons, List.cons_append, exec,
                ZeroCopyBuffer.append] at huses
              split_ifs at huses <;> simp [uses] at huses
  | ok messages => simp [FramingCall.step, uses] at huses
  | error messages e hlarge => simp [FramingCall.step, uses] at huses

end FramingCall

namespace ProcessorRun

open FramingCall

/-- Every call finds in the buffers what it has put there, and no two calls
use one buffer at a time. -/
structure Separate (s : ProcessorRun) : Prop where
  own : ∀ {i : Nat} {c}, s.calls[i]? = some c → Own s.processor c
  alone : ∀ {side} {i j : Nat} {c c'}, s.calls[i]? = some c → s.calls[j]? = some c' →
    c.uses side = true → c'.uses side = true → i = j

variable {s : ProcessorRun}

theorem othersUse_of_uses {i j : Nat} {c : FramingCall} {side : BufferSide}
    (hc : s.calls[j]? = some c) (hne : j ≠ i) (huses : c.uses side = true) :
    s.othersUse i side :=
  ⟨j, (List.getElem?_eq_some_iff.mp hc).1, hne, by rw [hc]; exact huses⟩

/-- A call that has just been made uses no buffer. -/
theorem uses_invoke (p : ZeroCopyProcessor) (messages : List (List UInt8))
    (side : BufferSide) : (invoke p messages).uses side = false := by
  unfold invoke
  split
  · rfl
  · cases side <;> simp [uses, ZeroCopyProcessor.processOps, ZeroCopyProcessor.outputOps]

theorem Separate.invoke (h : s.Separate) (messages : List (List UInt8)) :
    (s.step (.invoke messages)).Separate := by
  constructor
  · intro i c hc
    rcases getElem?_concat_cases hc with hold | ⟨-, rfl⟩
    · exact h.own hold
    · exact own_invoke s.processor messages
  · intro side i j c c' hi hj hc hc'
    rcases getElem?_concat_cases hi with hold | ⟨-, rfl⟩
    · rcases getElem?_concat_cases hj with hold' | ⟨-, rfl⟩
      · exact h.alone hold hold' hc hc'
      · rw [uses_invoke] at hc'
        cases hc'
    · rw [uses_invoke] at hc
      cases hc

/-- **Step lemma.**  A step that meets the condition keeps the calls apart. -/
theorem Separate.step (h : s.Separate) (label : ProcessorLabel)
    (hex : s.Exclusive label) : (s.step label).Separate := by
  cases label with
  | invoke messages => exact h.invoke messages
  | step i =>
      cases hi : s.calls[i]? with
      | none =>
          simp only [ProcessorRun.step, hi]
          exact h
      | some c =>
          have hown := h.own hi
          have hstep : s.step (.step i) =
              ⟨(c.step s.processor).2, s.calls.set i (c.step s.processor).1⟩ := by
            simp only [ProcessorRun.step, hi]
          -- no other call uses a buffer that this step clears or appends to
          have hother : ∀ {j : Nat} {c' side}, s.calls[j]? = some c' → j ≠ i → c'.uses side = true →
              c.clears? ≠ some side ∧ c.uses side = false := by
            intro j c' side hj hne huses
            refine ⟨fun hclear => ?_, ?_⟩
            · exact hex side (by simp [hi, hclear]) (othersUse_of_uses hj hne huses)
            · rw [← Bool.not_eq_true]
              exact fun hc => hne (h.alone hi hj hc huses).symm
          rw [hstep]
          constructor
          · -- the call that moves keeps its place, the others are not disturbed
            intro j c' hj
            rcases getElem?_set_cases hj with ⟨-, rfl⟩ | ⟨hne, hold⟩
            · exact hown.step
            · apply (h.own hold).frame (sameBounds_step s.processor c)
              intro side huses
              obtain ⟨hclear, hc⟩ := hother hold hne huses
              exact buffer_step hown hclear hc
          · -- a call that has come to use the buffer has cleared it
            intro side j k c₁ c₂ hj hk h₁ h₂
            rcases getElem?_set_cases hj with ⟨rfl, rfl⟩ | ⟨hne, hold⟩
            · rcases getElem?_set_cases hk with ⟨rfl, rfl⟩ | ⟨hne', hold'⟩
              · rfl
              · obtain ⟨hclear, hc⟩ := hother hold' hne' h₂
                rcases uses_of_uses_step hown h₁ with hu | hu
                · exact absurd hu hclear
                · rw [hc] at hu
                  cases hu
            · rcases getElem?_set_cases hk with ⟨rfl, rfl⟩ | ⟨hne', hold'⟩
              · obtain ⟨hclear, hc⟩ := hother hold hne h₁
                rcases uses_of_uses_step hown h₂ with hu | hu
                · exact absurd hu hclear
                · rw [hc] at hu
                  cases hu
              · exact h.alone hold hold' h₁ h₂

theorem Separate.faithful (h : s.Separate) : s.Faithful := by
  intro c hc
  obtain ⟨i, hi⟩ := List.getElem?_of_mem hc
  cases h.own hi with
  | start messages => trivial
  | collect messages ms hin => trivial
  | write messages ps hout => trivial
  | ok messages => rfl
  | error messages e hlarge =>
      exact (s.processor.processBatch_error_iff messages).mpr hlarge

/-- **Concurrent calls do not mix** in a run in which no call clears a buffer
that another call is using. -/
theorem faithful_of_exclusive (p : ZeroCopyProcessor) (labels : List ProcessorLabel)
    (h : Along step Exclusive (start p) labels) :
    Always step Faithful (start p) labels := by
  have hstart : (start p).Separate := by
    constructor
    · intro i c hc
      simp [start] at hc
    · intro side i j c c' hc
      simp [start] at hc
  exact (Always.of_along hstart h fun s label hs hex => hs.step label hex).mono
    fun s hs => hs.faithful

/-- Two calls of one message each, the second one collecting while the first
one writes. -/
def pipelined : List ProcessorLabel :=
  [.invoke [[97]], .invoke [[98]]] ++ List.replicate 2 (.step 0) ++
    List.replicate 2 (.step 1) ++ List.replicate 4 (.step 0) ++ List.replicate 4 (.step 1)

/-- Such calls do not mix. -/
theorem pipelined_faithful :
    Along step Exclusive (start (.new 1000)) pipelined ∧
      Always step Faithful (start (.new 1000)) pipelined :=
  ⟨by decide, faithful_of_exclusive (.new 1000) pipelined (by decide)⟩

/-- Two calls of one message each, the second one clearing the output buffer
when the first one has written its length prefix. -/
def overlapping : List ProcessorLabel :=
  [.invoke [[97]], .invoke [[98]]] ++ List.replicate 4 (.step 0) ++
    List.replicate 3 (.step 1) ++ List.replicate 2 (.step 0)

/-- The first call returns its message without the prefix. -/
theorem overlapping_mixed : ¬ Always step Faithful (start (.new 1000)) overlapping := by
  intro h
  have hcall : (⟨[[97]], .returned (.ok [97])⟩ : FramingCall) ∈
      (overlapping.foldl step (start (.new 1000))).calls := List.mem_cons_self
  have hbytes : [97] = framing [[97]] := h.last _ hcall
  exact absurd hbytes (by decide)

end ProcessorRun

end Rafka
