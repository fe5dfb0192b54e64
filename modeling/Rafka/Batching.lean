/-
Rafka/Batching.lean

The message batcher (`crates/broker/src/batching.rs`).

Messages are collected in batches; a batch is full at `batch_size` messages
and ready when it is full or has waited long enough.  `add_message` fills the
last batch or starts a new one, `get_ready_batches` pops ready batches from
the front and stops at the first one that is not.  Both hold the lock of the
queue throughout, so each is one step.

`pending` are the messages in the queue, in order.  Main results: adding
puts a message at the end of them (`pending_addMessage`), popping splits them
(`flatMap_getReadyBatches`).  Popping stops at the first batch that is not
ready, so that nothing ready stays behind it rests on an invariant of the
queue: all batches but the last are full (`Packed`).  Over whole runs the
batcher passes on every message once and in order (`faithful_and_drained`).
-/
import Mathlib.Data.List.Basic
import Rafka.Time
import Rafka.Trace

namespace Rafka

/-- A reading of the monotonic clock, in nanoseconds. -/
abbrev Instant := Nat

variable {α : Type*}

/-- `MessageBatch`. -/
structure MessageBatch (α : Type*) where
  messages : List α
  batchSize : Nat
  maxWaitTime : Duration
  createdAt : Instant
deriving DecidableEq

namespace MessageBatch

/-- `MessageBatch::new`. -/
def new (batchSize : Nat) (maxWaitTime : Duration) (now : Instant) : MessageBatch α where
  messages := []
  batchSize := batchSize
  maxWaitTime := maxWaitTime
  createdAt := now

/-- `MessageBatch::add_message`: refused if the batch is full. -/
def addMessage (b : MessageBatch α) (message : α) : Bool × MessageBatch α :=
  if b.messages.length ≥ b.batchSize then (false, b)
  else (true, { b with messages := b.messages ++ [message] })

/-- `MessageBatch::is_ready`; `Instant::elapsed` saturates at zero. -/
def isReady (b : MessageBatch α) (now : Instant) : Bool :=
  b.messages.length ≥ b.batchSize || now - b.createdAt ≥ b.maxWaitTime

/-- `MessageBatch::is_empty`. -/
def isEmpty (b : MessageBatch α) : Bool := b.messages.isEmpty

end MessageBatch

/-- `BatchedProcessor`. -/
structure BatchedProcessor (α : Type*) where
  batches : List (MessageBatch α)
  batchSize : Nat
  maxWaitTime : Duration
deriving DecidableEq

namespace BatchedProcessor

/-- `BatchedProcessor::new`. -/
def new (batchSize : Nat) (maxWaitTime : Duration) : BatchedProcessor α :=
  ⟨[], batchSize, maxWaitTime⟩

/-- Start a new batch with one message; a batch of size zero takes none. -/
def addBatch (p : BatchedProcessor α) (message : α) (now : Instant) : BatchedProcessor α :=
  { p with
    batches := p.batches ++
      [((MessageBatch.new p.batchSize p.maxWaitTime now).addMessage message).2] }

/-- `BatchedProcessor::add_message`; it never fails. -/
def addMessage (p : BatchedProcessor α) (message : α) (now : Instant) :
    Except String (BatchedProcessor α) :=
  match p.batches.getLast? with
  | some batch =>
      match batch.addMessage message with
      | (true, batch') => .ok { p with batches := p.batches.dropLast ++ [batch'] }
      | (false, _) => .ok (p.addBatch message now)
  | none => .ok (p.addBatch message now)

/-- The loop of `get_ready_batches`; the `k`-th look at a batch reads the
clock as `now k`. -/
def takeReady (now : Nat → Instant) :
    Nat → List (MessageBatch α) → List (MessageBatch α) × List (MessageBatch α)
  | _, [] => ([], [])
  | k, b :: bs =>
      if b.isReady (now k) then
        let (ready, rest) := takeReady now (k + 1) bs
        (if b.isEmpty then ready else b :: ready, rest)
      else ([], b :: bs)

/-- `BatchedProcessor::get_ready_batches`. -/
def getReadyBatches (p : BatchedProcessor α) (now : Nat → Instant) :
    List (MessageBatch α) × BatchedProcessor α :=
  ((takeReady now 0 p.batches).1, { p with batches := (takeReady now 0 p.batches).2 })

/-! ### Nothing is lost in the queue -/

/-- The messages in the queue, in order. -/
def pending (p : BatchedProcessor α) : List α := p.batches.flatMap MessageBatch.messages

theorem pending_addBatch {p : BatchedProcessor α} (h : 0 < p.batchSize) (message : α)
    (now : Instant) : (p.addBatch message now).pending = p.pending ++ [message] := by
  have hroom : ¬ (0 ≥ p.batchSize) := by omega
  simp [pending, addBatch, MessageBatch.new, MessageBatch.addMessage, hroom]

/-- What `add_message` does: it fills the last batch if that has room, and
starts a new one otherwise. -/
theorem addMessage_cases {p p' : BatchedProcessor α} {message : α} {now : Instant}
    (hadd : p.addMessage message now = .ok p') :
    (∃ batch, p.batches.getLast? = some batch ∧ batch.messages.length < batch.batchSize ∧
      p' = { p with
        batches := p.batches.dropLast ++
          [{ batch with messages := batch.messages ++ [message] }] }) ∨
    ((∀ batch, p.batches.getLast? = some batch → batch.batchSize ≤ batch.messages.length) ∧
      p' = p.addBatch message now) := by
  unfold addMessage at hadd
  split at hadd
  · rename_i batch hlast
    by_cases hfull : batch.messages.length ≥ batch.batchSize
    · simp only [MessageBatch.addMessage, if_pos hfull] at hadd
      cases hadd
      refine .inr ⟨?_, rfl⟩
      intro batch' hlast'
      rw [hlast] at hlast'
      cases hlast'
      exact hfull
    · simp only [MessageBatch.addMessage, if_neg hfull] at hadd
      cases hadd
      exact .inl ⟨batch, hlast, by omega, rfl⟩
  · rename_i hlast
    cases hadd
    refine .inr ⟨?_, rfl⟩
    intro batch hlast'
    rw [hlast] at hlast'
    cases hlast'

/-- **Adding** puts the message behind all others. -/
theorem pending_addMessage {p p' : BatchedProcessor α} (h : 0 < p.batchSize) {message : α}
    {now : Instant} (hadd : p.addMessage message now = .ok p') :
    p'.pending = p.pending ++ [message] := by
  obtain ⟨batch, hlast, -, rfl⟩ | ⟨-, rfl⟩ := addMessage_cases hadd
  · -- only the last batch changes
    have hsplit : p.batches.dropLast ++ [batch] = p.batches :=
      List.dropLast_append_getLast? batch hlast
    have hpending : p.pending =
        p.batches.dropLast.flatMap MessageBatch.messages ++ batch.messages := by
      rw [pending, ← hsplit, List.dropLast_concat]
      simp
    rw [hpending, pending]
    simp
  · exact pending_addBatch h message now

/-- The bounds of the batcher stay. -/
theorem batchSize_addMessage {p p' : BatchedProcessor α} {message : α} {now : Instant}
    (hadd : p.addMessage message now = .ok p') : p'.batchSize = p.batchSize := by
  obtain ⟨batch, -, -, rfl⟩ | ⟨-, rfl⟩ := addMessage_cases hadd
  · rfl
  · rfl

theorem maxWaitTime_addMessage {p p' : BatchedProcessor α} {message : α} {now : Instant}
    (hadd : p.addMessage message now = .ok p') : p'.maxWaitTime = p.maxWaitTime := by
  obtain ⟨batch, -, -, rfl⟩ | ⟨-, rfl⟩ := addMessage_cases hadd
  · rfl
  · rfl

theorem addMessage_isOk (p : BatchedProcessor α) (message : α) (now : Instant) :
    ∃ p', p.addMessage message now = .ok p' := by
  unfold addMessage
  split
  · split <;> exact ⟨_, rfl⟩
  · exact ⟨_, rfl⟩

theorem flatMap_takeReady (now : Nat → Instant) (k : Nat) (bs : List (MessageBatch α)) :
    (takeReady now k bs).1.flatMap MessageBatch.messages ++
        (takeReady now k bs).2.flatMap MessageBatch.messages =
      bs.flatMap MessageBatch.messages := by
  induction bs generalizing k with
  | nil => rfl
  | cons b bs ih =>
      simp only [takeReady]
      split_ifs with hready hempty
      · -- an empty batch is dropped without loss
        have hnil : b.messages = [] := by simpa [MessageBatch.isEmpty] using hempty
        rw [ih, List.flatMap_cons, hnil, List.nil_append]
      · rw [List.flatMap_cons, List.append_assoc, ih, List.flatMap_cons]
      · rfl

/-- **Popping** splits the queue into what is popped and what stays. -/
theorem flatMap_getReadyBatches (p : BatchedProcessor α) (now : Nat → Instant) :
    (p.getReadyBatches now).1.flatMap MessageBatch.messages ++
      (p.getReadyBatches now).2.pending = p.pending :=
  flatMap_takeReady now 0 p.batches

/-! ### Only the last batch is partly filled

`get_ready_batches` stops at the first batch that is not ready.  Nothing
ready is left behind it, because all batches but the last are full. -/

/-- What the loop pops is a piece of the front; it stops at the end of the
queue or at a batch that is not ready when it is looked at. -/
theorem takeReady_spec (now : Nat → Instant) (k : Nat) (bs : List (MessageBatch α)) :
    ∃ popped, bs = popped ++ (takeReady now k bs).2 ∧
      (takeReady now k bs).1 = popped.filter (fun b => !b.isEmpty) ∧
      ∀ b, (takeReady now k bs).2.head? = some b → ¬ b.isReady (now (k + popped.length)) := by
  induction bs generalizing k with
  | nil =>
      refine ⟨[], rfl, rfl, ?_⟩
      intro b hb
      cases hb
  | cons b bs ih =>
      by_cases hready : b.isReady (now k)
      · obtain ⟨popped, hsplit, hfilter, hhead⟩ := ih (k + 1)
        simp only [takeReady, if_pos hready]
        refine ⟨b :: popped, ?_, ?_, ?_⟩
        · rw [List.cons_append, ← hsplit]
        · rw [List.filter_cons, hfilter]
          cases b.isEmpty <;> rfl
        · intro b' hb'
          have hlook : k + (b :: popped).length = k + 1 + popped.length := by
            rw [List.length_cons]
            omega
          rw [hlook]
          exact hhead b' hb'
      · simp only [takeReady, if_neg hready]
        refine ⟨[], rfl, rfl, ?_⟩
        intro b' hb'
        cases hb'
        exact hready

/-- A queue as the batcher builds it: its batches have the batcher's bounds,
none is empty or overfull, and all but the last are full. -/
structure Packed (p : BatchedProcessor α) : Prop where
  size : ∀ b ∈ p.batches, b.batchSize = p.batchSize
  wait : ∀ b ∈ p.batches, b.maxWaitTime = p.maxWaitTime
  nonempty : ∀ b ∈ p.batches, b.messages ≠ []
  bounded : ∀ b ∈ p.batches, b.messages.length ≤ p.batchSize
  full : ∀ b ∈ p.batches.dropLast, b.messages.length = p.batchSize

theorem Packed.new (batchSize : Nat) (maxWaitTime : Duration) :
    (BatchedProcessor.new (α := α) batchSize maxWaitTime).Packed where
  size := by simp [BatchedProcessor.new]
  wait := by simp [BatchedProcessor.new]
  nonempty := by simp [BatchedProcessor.new]
  bounded := by simp [BatchedProcessor.new]
  full := by simp [BatchedProcessor.new]

/-- The batches after `add_message` are old ones, with one grown or new at
the end; the condition on the new one is all there is to check. -/
theorem Packed.concat {p : BatchedProcessor α} {bs : List (MessageBatch α)} {b : MessageBatch α}
    (hbs : ∀ c ∈ bs, c ∈ p.batches ∧ c.messages.length = p.batchSize) (hp : p.Packed)
    (hsize : b.batchSize = p.batchSize) (hwait : b.maxWaitTime = p.maxWaitTime)
    (hne : b.messages ≠ []) (hle : b.messages.length ≤ p.batchSize) :
    ({ p with batches := bs ++ [b] } : BatchedProcessor α).Packed where
  size := by
    intro c hc
    rcases List.mem_append.mp hc with hc | hc
    · exact hp.size c (hbs c hc).1
    · rwa [List.mem_singleton.mp hc]
  wait := by
    intro c hc
    rcases List.mem_append.mp hc with hc | hc
    · exact hp.wait c (hbs c hc).1
    · rwa [List.mem_singleton.mp hc]
  nonempty := by
    intro c hc
    rcases List.mem_append.mp hc with hc | hc
    · exact hp.nonempty c (hbs c hc).1
    · rwa [List.mem_singleton.mp hc]
  bounded := by
    intro c hc
    rcases List.mem_append.mp hc with hc | hc
    · exact (hbs c hc).2.le
    · rwa [List.mem_singleton.mp hc]
  full := by
    intro c hc
    rw [List.dropLast_concat] at hc
    exact (hbs c hc).2

/-- **Step lemma**, adding: a new batch is started only behind a full one. -/
theorem Packed.addMessage {p p' : BatchedProcessor α} (hp : p.Packed) (h : 0 < p.batchSize)
    {message : α} {now : Instant} (hadd : p.addMessage message now = .ok p') : p'.Packed := by
  obtain ⟨batch, hlast, hroom, rfl⟩ | ⟨hfull, rfl⟩ := addMessage_cases hadd
  · have hmem : batch ∈ p.batches := List.mem_of_getLast? hlast
    refine hp.concat ?_ (hp.size batch hmem) (hp.wait batch hmem) (by simp) ?_
    · intro c hc
      exact ⟨List.dropLast_subset _ hc, hp.full c hc⟩
    · rw [hp.size batch hmem] at hroom
      rw [List.length_append, List.length_singleton]
      exact hroom
  · have hroom : ¬ (0 ≥ p.batchSize) := by omega
    have hnew : ((MessageBatch.new p.batchSize p.maxWaitTime now).addMessage message).2 =
        ⟨[message], p.batchSize, p.maxWaitTime, now⟩ := by
      simp [MessageBatch.new, MessageBatch.addMessage, hroom]
    rw [addBatch, hnew]
    refine hp.concat ?_ rfl rfl (by simp) h
    intro c hc
    -- the last batch is full as well: it has just refused the message
    rcases List.eq_nil_or_concat p.batches with hnil | ⟨bs, batch, hbs⟩
    · rw [hnil] at hc
      cases hc
    · refine ⟨hc, ?_⟩
      rw [hbs, List.concat_eq_append] at hc
      rcases List.mem_append.mp hc with hc | hc
      · apply hp.full c
        rw [hbs, List.concat_eq_append, List.dropLast_concat]
        exact hc
      · have hmem : c ∈ p.batches := by
          rw [hbs, List.mem_singleton.mp hc]
          simp
        have hlast : p.batches.getLast? = some c := by
          rw [hbs, List.mem_singleton.mp hc]
          simp
        have hle := hfull c hlast
        rw [hp.size c hmem] at hle
        exact Nat.le_antisymm (hp.bounded c hmem) hle

/-- **Step lemma**, popping: the queue keeps its back end. -/
theorem Packed.of_suffix {p : BatchedProcessor α} (hp : p.Packed)
    {popped rest : List (MessageBatch α)} (hsplit : p.batches = popped ++ rest) :
    ({ p with batches := rest } : BatchedProcessor α).Packed := by
  have hmem : ∀ b ∈ rest, b ∈ p.batches := by
    intro b hb
    rw [hsplit]
    exact List.mem_append_right popped hb
  refine ⟨fun b hb => hp.size b (hmem b hb), fun b hb => hp.wait b (hmem b hb),
    fun b hb => hp.nonempty b (hmem b hb), fun b hb => hp.bounded b (hmem b hb), ?_⟩
  intro b hb
  have hrest : rest ≠ [] := by
    rintro rfl
    cases hb
  apply hp.full b
  rw [hsplit, List.dropLast_append_of_ne_nil hrest]
  exact List.mem_append_right popped hb

/-- A queue that stops at a batch that is not ready has only that one: a
batch in front of another is full. -/
theorem Packed.length_le_one {p : BatchedProcessor α} (hp : p.Packed) {now : Instant}
    (hhead : ∀ b, p.batches.head? = some b → ¬ b.isReady now) : p.batches.length ≤ 1 := by
  match hbs : p.batches with
  | [] => simp
  | [b] => simp
  | b :: c :: bs =>
      exfalso
      have hfull : b.messages.length = p.batchSize := hp.full b (by simp [hbs])
      have hsize : b.batchSize = p.batchSize := hp.size b (by simp [hbs])
      apply hhead b (by simp [hbs])
      simp [MessageBatch.isReady, hfull, hsize]

end BatchedProcessor

/-! ### Whole runs -/

/-- A batcher, what has been added to it and what it has returned. -/
structure BatcherRun (α : Type*) where
  processor : BatchedProcessor α
  added : List α
  returned : List (MessageBatch α)
deriving DecidableEq

/-- The calls, each with its readings of the clock. -/
inductive BatcherOp (α : Type*) where
  | addMessage (message : α) (now : Instant)
  | getReadyBatches (now : Nat → Instant)

namespace BatcherRun

open BatchedProcessor

/-- A new batcher. -/
def start (batchSize : Nat) (maxWaitTime : Duration) : BatcherRun α :=
  ⟨.new batchSize maxWaitTime, [], []⟩

/-- One call. -/
def step (s : BatcherRun α) : BatcherOp α → BatcherRun α
  | .addMessage message now =>
      match s.processor.addMessage message now with
      | .ok p => { s with processor := p, added := s.added ++ [message] }
      | .error _ => s
  | .getReadyBatches now =>
      let (ready, p) := s.processor.getReadyBatches now
      { s with processor := p, returned := s.returned ++ ready }

/-- The batcher passes on what it is given: what it has returned and what is
pending make up the added messages, in order; returned batches have between
one and `batch_size` messages; all pending batches but the last are full. -/
structure Faithful (batchSize : Nat) (s : BatcherRun α) : Prop where
  inOrder : s.returned.flatMap MessageBatch.messages ++ s.processor.pending = s.added
  returned : ∀ b ∈ s.returned, b.messages ≠ [] ∧ b.messages.length ≤ batchSize
  full : ∀ b ∈ s.processor.batches.dropLast, b.messages.length = batchSize

/-- After `get_ready_batches` at most one batch is pending.  It has room and,
when the call last read the clock, had not waited long enough. -/
def Drains (batchSize : Nat) (maxWaitTime : Duration) (s : BatcherRun α) :
    BatcherOp α → Prop
  | .addMessage _ _ => True
  | .getReadyBatches now =>
      let rest := (s.step (.getReadyBatches now)).processor.batches
      rest.length ≤ 1 ∧ ∀ b ∈ rest, b.messages.length < batchSize ∧
        now (s.processor.batches.length - rest.length) - b.createdAt < maxWaitTime

/-- The invariant of the runs of a batcher with the given bounds. -/
structure Inv (batchSize : Nat) (maxWaitTime : Duration) (s : BatcherRun α) : Prop where
  size : s.processor.batchSize = batchSize
  wait : s.processor.maxWaitTime = maxWaitTime
  packed : s.processor.Packed
  inOrder : s.returned.flatMap MessageBatch.messages ++ s.processor.pending = s.added
  returned : ∀ b ∈ s.returned, b.messages ≠ [] ∧ b.messages.length ≤ batchSize

theorem Inv.faithful {batchSize : Nat} {maxWaitTime : Duration} {s : BatcherRun α}
    (hs : s.Inv batchSize maxWaitTime) : s.Faithful batchSize where
  inOrder := hs.inOrder
  returned := hs.returned
  full := by
    rw [← hs.size]
    exact hs.packed.full

theorem Inv.start (batchSize : Nat) (maxWaitTime : Duration) :
    (start (α := α) batchSize maxWaitTime).Inv batchSize maxWaitTime where
  size := rfl
  wait := rfl
  packed := .new batchSize maxWaitTime
  inOrder := rfl
  returned := by simp [BatcherRun.start]

/-- What `get_ready_batches` does to the queue and what it returns. -/
theorem getReadyBatches_step (s : BatcherRun α) (now : Nat → Instant) :
    ∃ popped rest, s.processor.batches = popped ++ rest ∧
      s.step (.getReadyBatches now) =
        { s with
          processor := { s.processor with batches := rest }
          returned := s.returned ++ popped.filter (fun b => !b.isEmpty) } ∧
      ∀ b, rest.head? = some b → ¬ b.isReady (now popped.length) := by
  obtain ⟨popped, hsplit, hfilter, hhead⟩ := takeReady_spec now 0 s.processor.batches
  refine ⟨popped, _, hsplit, ?_, ?_⟩
  · rw [← hfilter]
    rfl
  · rwa [Nat.zero_add] at hhead

/-- **Step lemma.** -/
theorem Inv.step {batchSize : Nat} {maxWaitTime : Duration} {s : BatcherRun α}
    (h : 0 < batchSize) (hs : s.Inv batchSize maxWaitTime) (op : BatcherOp α) :
    (s.step op).Inv batchSize maxWaitTime := by
  cases op with
  | addMessage message now =>
      obtain ⟨p, hadd⟩ := addMessage_isOk s.processor message now
      have hroom : 0 < s.processor.batchSize := by rwa [hs.size]
      simp only [BatcherRun.step, hadd]
      refine ⟨?_, ?_, hs.packed.addMessage hroom hadd, ?_, hs.returned⟩
      · rw [← hs.size]
        exact batchSize_addMessage hadd
      · rw [← hs.wait]
        exact maxWaitTime_addMessage hadd
      · show s.returned.flatMap MessageBatch.messages ++ p.pending = s.added ++ [message]
        rw [pending_addMessage hroom hadd, ← List.append_assoc, hs.inOrder]
  | getReadyBatches now =>
      have hflat := flatMap_getReadyBatches s.processor now
      obtain ⟨popped, rest, hsplit, hstep, -⟩ := getReadyBatches_step s now
      refine ⟨hs.size, hs.wait, ?_, ?_, ?_⟩
      · rw [hstep]
        exact hs.packed.of_suffix hsplit
      · show (s.returned ++ (s.processor.getReadyBatches now).1).flatMap MessageBatch.messages ++
            (s.processor.getReadyBatches now).2.pending = s.added
        rw [List.flatMap_append, List.append_assoc, hflat, hs.inOrder]
      · rw [hstep]
        intro b hb
        rcases List.mem_append.mp hb with hb | hb
        · exact hs.returned b hb
        · have hmem : b ∈ s.processor.batches := by
            rw [hsplit]
            exact List.mem_append_left rest (List.mem_of_mem_filter hb)
          rw [← hs.size]
          exact ⟨hs.packed.nonempty b hmem, hs.packed.bounded b hmem⟩

/-- What is left by `get_ready_batches` is the batch it stopped at. -/
theorem Inv.drains {batchSize : Nat} {maxWaitTime : Duration} {s : BatcherRun α}
    (hs : s.Inv batchSize maxWaitTime) (op : BatcherOp α) :
    s.Drains batchSize maxWaitTime op := by
  cases op with
  | addMessage message now => trivial
  | getReadyBatches now =>
      obtain ⟨popped, rest, hsplit, hstep, hhead⟩ := getReadyBatches_step s now
      have hpacked := hs.packed.of_suffix hsplit
      have hone : rest.length ≤ 1 := hpacked.length_le_one hhead
      have hlook : s.processor.batches.length - rest.length = popped.length := by
        rw [hsplit, List.length_append]
        omega
      simp only [Drains, hstep, hlook]
      refine ⟨hone, ?_⟩
      intro b hb
      have hrest : rest = [b] := by
        match rest, hone, hb with
        | [c], _, hb => rw [List.mem_singleton.mp hb]
      have hwaits := hhead b (by rw [hrest]; rfl)
      have hsize : b.batchSize = batchSize := (hpacked.size b hb).trans hs.size
      have hwait : b.maxWaitTime = maxWaitTime := (hpacked.wait b hb).trans hs.wait
      simpa [MessageBatch.isReady, hsize, hwait] using hwaits

/-- **The batcher neither loses, duplicates nor reorders**, along every run
and whatever the clock shows; every `get_ready_batches` leaves at most one
batch, which is not ready. -/
theorem faithful_and_drained {batchSize : Nat} (h : 0 < batchSize) (maxWaitTime : Duration)
    (ops : List (BatcherOp α)) :
    Always step (Faithful batchSize) (start batchSize maxWaitTime) ops ∧
      Along step (Drains batchSize maxWaitTime) (start batchSize maxWaitTime) ops := by
  have hall : Along step (fun (_ : BatcherRun α) _ => True) (start batchSize maxWaitTime) ops :=
    .of_forall fun _ _ => trivial
  have hstart := Inv.start (α := α) batchSize maxWaitTime
  constructor
  · refine (Always.of_along hstart hall ?_).mono fun _ hs => hs.faithful
    intro s op hs _
    exact hs.step h op
  · refine Along.of_along hstart hall ?_ ?_
    · intro s op hs _
      exact hs.step h op
    · intro s op hs _
      exact hs.drains op

/-- Three messages in batches of two: one pop for size, one for time. -/
theorem faithful_and_drained_three :
    0 < 2 ∧
      Always step (Faithful 2) (start 2 10)
        [.addMessage 'a' 0, .addMessage 'b' 1, .addMessage 'c' 2,
          .getReadyBatches fun _ => 3, .getReadyBatches fun _ => 12] ∧
      Along step (Drains 2 10) (start 2 10)
        [.addMessage 'a' 0, .addMessage 'b' 1, .addMessage 'c' 2,
          .getReadyBatches fun _ => 3, .getReadyBatches fun _ => 12] ∧
      ([.addMessage 'a' 0, .addMessage 'b' 1, .addMessage 'c' 2,
          .getReadyBatches fun _ => 3, .getReadyBatches fun _ => 12].foldl step
        (start 2 10)).returned = [⟨['a', 'b'], 2, 10, 0⟩, ⟨['c'], 2, 10, 2⟩] := by
  have h : 0 < 2 := by decide
  obtain ⟨hfaithful, hdrained⟩ := faithful_and_drained h 10
    [.addMessage 'a' 0, .addMessage 'b' 1, .addMessage 'c' 2,
      .getReadyBatches fun _ => 3, .getReadyBatches fun _ => 12]
  exact ⟨h, hfaithful, hdrained, by decide⟩

end BatcherRun

end Rafka
