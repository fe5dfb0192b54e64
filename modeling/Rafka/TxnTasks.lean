/-
Rafka/TxnTasks.lean

Concurrent calls on the transaction coordinator (`crates/broker/src/transactions.rs`).

There is one lock on all transactions and one on all producers.  Most calls take one
of them; `begin_transaction` takes the second while it has the first, so a call on
the producers may come between the two halves of it.  A call that has been made is
not dropped before it returns.

Main results: the calls are linearizable all the same (`txn_calls_linearizable`), no
call waits for ever (`txn_calls_answered`), and the numbers that `next_sequence`
hands out to a producer are 1, 2, 3 and so on, in the order in which the calls
return, and those that `validate_sequence` accepts
(`sequence_numbers_are_consecutive`).
-/
import Rafka.TransactionHistory
import Rafka.TwoPhase

namespace Rafka

/-! ### Calls that happen at once -/

/-- What a call returns; a panic is `none`. -/
inductive TxnReply
  | begun (result : Except String String)
  | added (result : Except String Unit)
  | prepared (result : Except String Unit)
  | committed (result : Except String (List TransactionalWrite))
  | aborted (result : Except String Unit)
  | cleanedUp
  | sequence (result : Option (Except String Int64))
  | valid (result : Option (Except String Bool))
  | state (result : Option TransactionState)

/-- One call after the other. -/
def TransactionCoordinator.answer (c : TransactionCoordinator) :
    CoordinatorOp → TxnReply × TransactionCoordinator
  | .transaction (.beginTransaction p uuid now now') =>
      let (result, c) := c.beginTransaction p uuid now now'
      (.begun result, c)
  | .transaction (.addWrite id write now) =>
      let (result, c) := c.addWrite id write now
      (.added result, c)
  | .transaction (.prepareTransaction id now) =>
      let (result, c) := c.prepareTransaction id now
      (.prepared result, c)
  | .transaction (.commitTransaction id) =>
      let (result, c) := c.commitTransaction id
      (.committed result, c)
  | .transaction (.abortTransaction id) =>
      let (result, c) := c.abortTransaction id
      (.aborted result, c)
  | .transaction (.cleanupOldTransactions clock) => (.cleanedUp, c.cleanupOldTransactions clock)
  | .nextSequence p now =>
      let (result, c) := c.nextSequence p now
      (.sequence result, c)
  | .validateSequence p sequence => (.valid (c.validateSequence p sequence), c)
  | .getTransactionState id => (.state (c.getTransactionState id), c)

/-! ### Calls under locks -/

/-- The two locks of the coordinator. -/
inductive TxnLock
  | transactions
  | producers
deriving DecidableEq

/-- What is under a lock. -/
abbrev TxnData : TxnLock → Type
  | .transactions => HashMap String Transaction
  | .producers => HashMap String ProducerState

/-- A call under the locks of the coordinator. -/
abbrev TxnScript := LockedCall TxnData TxnReply

namespace TxnScript

/-- `TransactionCoordinator::begin_transaction`. -/
def beginTransaction (producerId uuid : String) (now now' : SystemTime) : TxnScript :=
  .lock .transactions .write <|
  .read .transactions fun transactions : HashMap String Transaction =>
    if transactions.any fun _ t => t.producerId = producerId && t.isActive then
      .ret (.begun (.error "Producer already has an active transaction"))
    else
      .write .transactions (transactions.insert uuid
        (Transaction.new uuid producerId TransactionCoordinator.new.defaultTimeout now)) <|
      .lock .producers .write <|
      .read .producers fun producers : HashMap String ProducerState =>
      .write .producers (match producers.lookup producerId with
        | some _ => producers
        | none => producers.insert producerId (ProducerState.new producerId now')) <|
      .ret (.begun (.ok uuid))

/-- The shape of the four calls on one transaction. -/
def onTransaction {β : Type} (transactionId : String)
    (f : Transaction → Except String β × Transaction) (reply : Except String β → TxnReply) :
    TxnScript :=
  .lock .transactions .write <|
  .read .transactions fun transactions : HashMap String Transaction =>
    match transactions.lookup transactionId with
    | some t =>
        .write .transactions (transactions.insert transactionId (f t).2) <|
        .ret (reply (f t).1)
    | none => .ret (reply (.error "Transaction not found"))

/-- `TransactionCoordinator::cleanup_old_transactions`. -/
def cleanupOldTransactions (clock : String → SystemTime) : TxnScript :=
  .lock .transactions .write <|
  .read .transactions fun transactions : HashMap String Transaction =>
  .write .transactions
    (transactions.retain fun id t => t.isActive || !t.isTimedOut (clock id)) <|
  .ret .cleanedUp

/-- `TransactionCoordinator::next_sequence`. -/
def nextSequence (producerId : String) (now : SystemTime) : TxnScript :=
  .lock .producers .write <|
  .read .producers fun producers : HashMap String ProducerState =>
    match producers.lookup producerId with
    | some producer =>
        match producer.nextSequence now with
        | some (sequence, producer) =>
            .write .producers (producers.insert producerId producer) <|
            .ret (.sequence (some (.ok sequence)))
        | none => .ret (.sequence none)
    | none => .ret (.sequence (some (.error "Producer not found")))

/-- `TransactionCoordinator::validate_sequence`. -/
def validateSequence (producerId : String) (sequence : Int64) : TxnScript :=
  .lock .producers .read <|
  .read .producers fun producers : HashMap String ProducerState =>
    match producers.lookup producerId with
    | some producer =>
        if producer.sequenceNumber = Int64.maxValue then .ret (.valid none)
        else .ret (.valid (some (.ok (sequence = producer.sequenceNumber + 1))))
    | none => .ret (.valid (some (.error "Producer not found")))

/-- `TransactionCoordinator::get_transaction_state`. -/
def getTransactionState (transactionId : String) : TxnScript :=
  .lock .transactions .read <|
  .read .transactions fun transactions : HashMap String Transaction =>
  .ret (.state ((transactions.lookup transactionId).map Transaction.state))

end TxnScript

/-- What a call does, step by step. -/
def CoordinatorOp.script : CoordinatorOp → TxnScript
  | .transaction (.beginTransaction p uuid now now') => TxnScript.beginTransaction p uuid now now'
  | .transaction (.addWrite id write now) =>
      TxnScript.onTransaction id (fun t => t.timedAddWrite write now) .added
  | .transaction (.prepareTransaction id now) =>
      TxnScript.onTransaction id (fun t => t.prepare now) .prepared
  | .transaction (.commitTransaction id) =>
      TxnScript.onTransaction id Transaction.commit .committed
  | .transaction (.abortTransaction id) => TxnScript.onTransaction id Transaction.abort .aborted
  | .transaction (.cleanupOldTransactions clock) => TxnScript.cleanupOldTransactions clock
  | .nextSequence p now => TxnScript.nextSequence p now
  | .validateSequence p sequence => TxnScript.validateSequence p sequence
  | .getTransactionState id => TxnScript.getTransactionState id

/-- `TransactionCoordinator::new`. -/
def txnData : ∀ l, TxnData l
  | .transactions => (∅ : HashMap String Transaction)
  | .producers => (∅ : HashMap String ProducerState)

/-- The lock on the transactions comes before that on the producers. -/
def TxnLock.rank : TxnLock → ℕ
  | .transactions => 0
  | .producers => 1

/-! ### One call at a time -/

/-- The coordinator has what is under the locks. -/
structure TxnsAre (data : ∀ l, TxnData l) (c : TransactionCoordinator) : Prop where
  transactions : c.transactions = data .transactions
  producers : c.producers = data .producers
  defaultTimeout : c.defaultTimeout = TransactionCoordinator.new.defaultTimeout

theorem txnsAre_new : TxnsAre txnData TransactionCoordinator.new := ⟨rfl, rfl, rfl⟩

variable {data : ∀ l, TxnData l} {c : TransactionCoordinator}

theorem TxnsAre.setTransactions (h : TxnsAre data c) (transactions : HashMap String Transaction) :
    TxnsAre (Function.update data .transactions transactions)
      { c with transactions := transactions } where
  transactions := by rw [Function.update_self]
  producers := by
    rw [Function.update_of_ne (by rintro ⟨⟩)]
    exact h.producers
  defaultTimeout := h.defaultTimeout

theorem TxnsAre.setProducers (h : TxnsAre data c) (producers : HashMap String ProducerState) :
    TxnsAre (Function.update data .producers producers) { c with producers := producers } where
  transactions := by
    rw [Function.update_of_ne (by rintro ⟨⟩)]
    exact h.transactions
  producers := by rw [Function.update_self]
  defaultTimeout := h.defaultTimeout

theorem TxnsAre.onTransaction {β : Type} (h : TxnsAre data c) (id : String)
    (f : Transaction → Except String β × Transaction) (reply : Except String β → TxnReply) :
    ((TxnScript.onTransaction id f reply).run data).1 = reply (c.onTransaction id f).1 ∧
      TxnsAre ((TxnScript.onTransaction id f reply).run data).2 (c.onTransaction id f).2 := by
  simp only [TxnScript.onTransaction, LockedCall.run, TransactionCoordinator.onTransaction,
    h.transactions]
  cases hfound : (data .transactions : HashMap String Transaction).lookup id with
  | some t => exact ⟨rfl, h.setTransactions _⟩
  | none => exact ⟨rfl, h⟩

/-- One at a time, the steps of a call do what the call does at once. -/
theorem TxnsAre.answer (h : TxnsAre data c) (call : CoordinatorOp) :
    (call.script.run data).1 = (c.answer call).1 ∧
      TxnsAre (call.script.run data).2 (c.answer call).2 := by
  match call with
  | .transaction (.beginTransaction p uuid now now') =>
      -- the second lock is not touched by the first half
      have hread : ∀ transactions : HashMap String Transaction,
          Function.update data .transactions transactions .producers = data .producers :=
        fun _ => Function.update_of_ne (by rintro ⟨⟩) _ _
      simp only [CoordinatorOp.script, TxnScript.beginTransaction, LockedCall.run,
        TransactionCoordinator.answer, TransactionCoordinator.beginTransaction, h.transactions,
        h.producers, h.defaultTimeout]
      split
      · exact ⟨rfl, h⟩
      · simp only [LockedCall.run, hread]
        have hboth := (h.setTransactions ((data .transactions : HashMap String Transaction).insert
          uuid (Transaction.new uuid p TransactionCoordinator.new.defaultTimeout now))).setProducers
        refine ⟨trivial, ?_⟩
        rw [← h.defaultTimeout] at hboth ⊢
        exact hboth _
  | .transaction (.addWrite id write now) => exact h.onTransaction id _ .added
  | .transaction (.prepareTransaction id now) => exact h.onTransaction id _ .prepared
  | .transaction (.commitTransaction id) => exact h.onTransaction id _ .committed
  | .transaction (.abortTransaction id) => exact h.onTransaction id _ .aborted
  | .transaction (.cleanupOldTransactions clock) =>
      simp only [CoordinatorOp.script, TxnScript.cleanupOldTransactions, LockedCall.run,
        TransactionCoordinator.answer, TransactionCoordinator.cleanupOldTransactions,
        h.transactions]
      exact ⟨trivial, h.setTransactions _⟩
  | .nextSequence p now =>
      simp only [CoordinatorOp.script, TxnScript.nextSequence, LockedCall.run,
        TransactionCoordinator.answer, TransactionCoordinator.nextSequence, h.producers]
      cases (data .producers : HashMap String ProducerState).lookup p with
      | some producer =>
          dsimp only
          cases producer.nextSequence now with
          | some next => exact ⟨rfl, h.setProducers _⟩
          | none => exact ⟨rfl, h⟩
      | none => exact ⟨rfl, h⟩
  | .validateSequence p sequence =>
      simp only [CoordinatorOp.script, TxnScript.validateSequence, LockedCall.run,
        TransactionCoordinator.answer, TransactionCoordinator.validateSequence, h.producers]
      cases (data .producers : HashMap String ProducerState).lookup p with
      | some producer =>
          dsimp only
          split <;> exact ⟨rfl, h⟩
      | none => exact ⟨rfl, h⟩
  | .getTransactionState id =>
      simp only [CoordinatorOp.script, TxnScript.getTransactionState, LockedCall.run,
        TransactionCoordinator.answer, TransactionCoordinator.getTransactionState, h.transactions]
      exact ⟨trivial, h⟩

/-- Every call locks what it touches, and the transactions before the producers. -/
theorem CoordinatorOp.guarded (call : CoordinatorOp) : call.script.Guarded TxnLock.rank [] := by
  have honTransaction : ∀ {β : Type} (id : String) (f : Transaction → Except String β × Transaction)
      (reply : Except String β → TxnReply),
      (TxnScript.onTransaction id f reply).Guarded TxnLock.rank [] := by
    intro β id f reply
    refine ⟨by rintro g ⟨⟩, ⟨.write, List.mem_cons_self⟩, fun transactions => ?_⟩
    dsimp only
    split
    · exact ⟨List.mem_cons_self, trivial⟩
    · trivial
  match call with
  | .transaction (.beginTransaction p uuid now now') =>
      refine ⟨by rintro g ⟨⟩, ⟨.write, List.mem_cons_self⟩, fun transactions => ?_⟩
      dsimp only
      split
      · trivial
      · refine ⟨List.mem_cons_self, ?_, ⟨.write, List.mem_cons_self⟩, fun producers =>
          ⟨List.mem_cons_self, trivial⟩⟩
        intro g hg
        rw [List.mem_singleton.mp hg]
        exact Nat.zero_lt_one
  | .transaction (.addWrite id write now) => exact honTransaction id _ _
  | .transaction (.prepareTransaction id now) => exact honTransaction id _ _
  | .transaction (.commitTransaction id) => exact honTransaction id _ _
  | .transaction (.abortTransaction id) => exact honTransaction id _ _
  | .transaction (.cleanupOldTransactions clock) =>
      exact ⟨by rintro g ⟨⟩, ⟨.write, List.mem_cons_self⟩, fun _ => ⟨List.mem_cons_self, trivial⟩⟩
  | .nextSequence p now =>
      refine ⟨by rintro g ⟨⟩, ⟨.write, List.mem_cons_self⟩, fun producers => ?_⟩
      dsimp only
      split
      · split
        · exact ⟨List.mem_cons_self, trivial⟩
        · trivial
      · trivial
  | .validateSequence p sequence =>
      refine ⟨by rintro g ⟨⟩, ⟨.read, List.mem_cons_self⟩, fun producers => ?_⟩
      dsimp only
      split
      · split <;> trivial
      · trivial
  | .getTransactionState id =>
      exact ⟨by rintro g ⟨⟩, ⟨.read, List.mem_cons_self⟩, fun _ => trivial⟩

/-! ### Calls at the same time -/

namespace TxnTasks

open LockedSystem

/-- The calls on a new coordinator. -/
def start : LockedSystem CoordinatorOp TxnData TxnReply := init txnData

/-- A call is made, or one of the calls goes on. -/
def step : LockedSystem CoordinatorOp TxnData TxnReply → SystemLabel CoordinatorOp →
    LockedSystem CoordinatorOp TxnData TxnReply := LockedSystem.step CoordinatorOp.script

/-- The calls that have returned, as a run. -/
def servedRun (s : LockedSystem CoordinatorOp TxnData TxnReply) : TxnHistory :=
  (s.served.map ServedCall.call).foldl TxnHistory.step TxnHistory.init

/-- What answers the calls is the coordinator of the run. -/
theorem coordinator_answers (calls : List CoordinatorOp) :
    (answers TransactionCoordinator.answer .new calls).2 =
      (calls.foldl TxnHistory.step TxnHistory.init).run.coordinator := by
  induction calls using List.reverseRecOn with
  | nil => rfl
  | append_singleton calls call ih =>
      rw [answers_concat, List.foldl_append, ih]
      generalize calls.foldl TxnHistory.step TxnHistory.init = r
      cases call with
      | transaction op => cases op <;> rfl
      | nextSequence producerId now => rfl
      | validateSequence producerId sequence => rfl
      | getTransactionState transactionId => rfl

/-- The calls are linearizable; when all have returned, the tables are those of a run. -/
structure AsOneAtATime (s : LockedSystem CoordinatorOp TxnData TxnReply) : Prop where
  linearizable : Linearizable TransactionCoordinator.answer TxnsAre .new s
  run : s.AllAnswered → TxnsAre s.data (servedRun s).run.coordinator

theorem asOneAtATime_always (labels : List (SystemLabel CoordinatorOp)) :
    Always step AsOneAtATime start labels := by
  apply (linearizable_always CoordinatorOp.guarded txnsAre_new
    (fun _ _ call h => TxnsAre.answer h call) labels).mono
  intro s h
  refine ⟨h, fun hall => ?_⟩
  have hquiet := h.quiet hall
  rw [coordinator_answers] at hquiet
  exact hquiet

/-- **Concurrent calls are linearizable**: whatever the interleaving, the calls that have
returned are answered as one at a time, in the order in which they returned, and a call
that is made later comes later in it. -/
theorem txn_calls_linearizable (labels : List (SystemLabel CoordinatorOp)) :
    Always step AsOneAtATime start labels ∧
      ∀ later, (labels.foldl step start).served <+: ((labels ++ later).foldl step start).served := by
  refine ⟨asOneAtATime_always labels, fun later => ?_⟩
  rw [List.foldl_append]
  exact served_prefix CoordinatorOp.script _ later

/-- **Every call is answered**: unless all have returned, one of them can go on, and they
do not go on for ever. -/
theorem txn_calls_answered (labels : List (SystemLabel CoordinatorOp)) :
    Always step (fun s => (¬ s.AllAnswered → ∃ i, s.canStep i = true) ∧
      ∀ schedule : ℕ → ℕ, ∃ n, ((List.range n).foldl
        (fun s k => step s (.task (schedule k))) s).canStep (schedule n) = false) start labels := by
  apply (serializes_always CoordinatorOp.guarded txnData labels).mono
  intro s h
  exact ⟨h.1.canStep, fun schedule => schedule_ends CoordinatorOp.script s schedule⟩

/-! ### Sequence numbers -/

/-- The number, if the call was one for the producer and got one. -/
def number? (p : String) : ServedCall CoordinatorOp TxnReply → Option Int64
  | ⟨_, .nextSequence p' _, .sequence (some (.ok sequence))⟩ =>
      if p' = p then some sequence else none
  | _ => none

/-- The numbers that the producer was given, in the order in which the calls returned. -/
def handedOut (p : String) (served : List (ServedCall CoordinatorOp TxnReply)) : List Int64 :=
  served.filterMap (number? p)

/-- The calls are answered as one at a time. -/
def Told (served : List (ServedCall CoordinatorOp TxnReply)) : Prop :=
  (answers TransactionCoordinator.answer .new (served.map ServedCall.call)).1 =
    served.map ServedCall.reply

/-- The coordinator that has answered the calls. -/
def afterCalls (served : List (ServedCall CoordinatorOp TxnReply)) : TransactionCoordinator :=
  (answers TransactionCoordinator.answer .new (served.map ServedCall.call)).2

variable {served : List (ServedCall CoordinatorOp TxnReply)} {p : String}

theorem told_concat {e : ServedCall CoordinatorOp TxnReply} :
    Told (served ++ [e]) ↔ Told served ∧ ((afterCalls served).answer e.call).1 = e.reply := by
  unfold Told afterCalls
  rw [List.map_append, List.map_singleton, answers_concat, List.map_append, List.map_singleton]
  exact List.append_singleton_inj

theorem Told.of_append {later : List (ServedCall CoordinatorOp TxnReply)}
    (h : Told (served ++ later)) : Told served := by
  induction later using List.reverseRecOn with
  | nil => rwa [List.append_nil] at h
  | append_singleton later e ih =>
      rw [← List.append_assoc] at h
      exact ih (told_concat.mp h).1

theorem afterCalls_concat (e : ServedCall CoordinatorOp TxnReply) :
    afterCalls (served ++ [e]) = ((afterCalls served).answer e.call).2 := by
  unfold afterCalls
  rw [List.map_append, List.map_singleton, answers_concat]

/-- The producer has been given the numbers up to that in its state. -/
structure Counts (c : TransactionCoordinator) (p : String) (numbers : List Int64) : Prop where
  consecutive : numbers = (List.range' 1 numbers.length).map Int64.ofNat
  bounded : numbers.length < 2 ^ 63
  unknown : c.producers.lookup p = none → numbers = []
  known : ∀ producer, c.producers.lookup p = some producer →
    producer.sequenceNumber = Int64.ofNat numbers.length

/-- A call that leaves the number of the producer as it is, or gives it a state. -/
theorem Counts.congr {c c' : TransactionCoordinator} {numbers : List Int64}
    (h : Counts c p numbers)
    (hsame : c'.producers.lookup p = c.producers.lookup p ∨ c.producers.lookup p = none ∧
      ∃ now, c'.producers.lookup p = some (ProducerState.new p now)) : Counts c' p numbers := by
  refine ⟨h.consecutive, h.bounded, ?_, ?_⟩
  · intro hnone
    rcases hsame with hsame | ⟨hbefore, -⟩
    · exact h.unknown (hsame ▸ hnone)
    · exact h.unknown hbefore
  · intro producer hproducer
    rcases hsame with hsame | ⟨hbefore, now, hnew⟩
    · exact h.known producer (hsame ▸ hproducer)
    · rw [hnew] at hproducer
      cases hproducer
      rw [h.unknown hbefore]
      rfl

/-- The next number. -/
theorem Counts.next {c : TransactionCoordinator} {numbers : List Int64} (h : Counts c p numbers)
    {producer : ProducerState} (hproducer : c.producers.lookup p = some producer)
    (hroom : producer.sequenceNumber ≠ Int64.maxValue) :
    numbers.length + 1 < 2 ^ 63 ∧
      producer.sequenceNumber + 1 = Int64.ofNat (numbers.length + 1) := by
  have hnumber := h.known producer hproducer
  have hbounded := h.bounded
  constructor
  · have hne : numbers.length ≠ 2 ^ 63 - 1 := by
      intro hlast
      apply hroom
      rw [hnumber, hlast]
      rfl
    omega
  · rw [hnumber, Int64.ofNat_add]
    rfl

/-- The calls on transactions leave the numbers. -/
theorem lookup_producers_transaction (c : TransactionCoordinator) (op : TxnOp) (p : String) :
    (c.answer (.transaction op)).2.producers.lookup p = c.producers.lookup p ∨
      c.producers.lookup p = none ∧
        ∃ now, (c.answer (.transaction op)).2.producers.lookup p =
          some (ProducerState.new p now) := by
  have honTransaction : ∀ {β : Type} (id : String) (f : Transaction → Except String β × Transaction),
      (c.onTransaction id f).2.producers = c.producers := by
    intro β id f
    unfold TransactionCoordinator.onTransaction
    split <;> rfl
  cases op with
  | beginTransaction q uuid now now' =>
      simp only [TransactionCoordinator.answer, TransactionCoordinator.beginTransaction]
      split
      · exact .inl rfl
      · cases hq : c.producers.lookup q with
        | some producer => exact .inl rfl
        | none =>
            by_cases hp : p = q
            · subst hp
              exact .inr ⟨hq, now', Finmap.lookup_insert _⟩
            · exact .inl (Finmap.lookup_insert_of_ne _ hp)
  | addWrite id write now => exact .inl (congrArg (Finmap.lookup p) (honTransaction id _))
  | prepareTransaction id now => exact .inl (congrArg (Finmap.lookup p) (honTransaction id _))
  | commitTransaction id => exact .inl (congrArg (Finmap.lookup p) (honTransaction id _))
  | abortTransaction id => exact .inl (congrArg (Finmap.lookup p) (honTransaction id _))
  | cleanupOldTransactions clock => exact .inl rfl

/-- **Step lemma.** -/
theorem Counts.answer {c : TransactionCoordinator} {numbers : List Int64} (h : Counts c p numbers)
    {call : CoordinatorOp} {reply : TxnReply} (hreply : (c.answer call).1 = reply) (i : ℕ) :
    Counts (c.answer call).2 p (numbers ++ (number? p ⟨i, call, reply⟩).toList) := by
  cases call with
  | transaction op =>
      rw [show number? p ⟨i, .transaction op, reply⟩ = none from rfl, Option.toList_none,
        List.append_nil]
      exact h.congr (lookup_producers_transaction c op p)
  | validateSequence q sequence =>
      rw [show number? p ⟨i, .validateSequence q sequence, reply⟩ = none from rfl,
        Option.toList_none, List.append_nil]
      exact h
  | getTransactionState id =>
      rw [show number? p ⟨i, .getTransactionState id, reply⟩ = none from rfl, Option.toList_none,
        List.append_nil]
      exact h
  | nextSequence q now =>
      subst hreply
      simp only [TransactionCoordinator.answer, TransactionCoordinator.nextSequence]
      cases hq : c.producers.lookup q with
      | none => exact (List.append_nil numbers).symm ▸ h
      | some producer =>
          dsimp only
          unfold ProducerState.nextSequence
          by_cases hroom : producer.sequenceNumber = Int64.maxValue
          · rw [if_pos hroom]
            exact (List.append_nil numbers).symm ▸ h
          · rw [if_neg hroom]
            dsimp only [number?]
            by_cases hqp : q = p
            · subst hqp
              obtain ⟨hbounded, hnext⟩ := h.next hq hroom
              rw [if_pos rfl, Option.toList_some]
              refine ⟨?_, by simpa using hbounded, ?_, ?_⟩
              · rw [List.length_append, List.length_singleton, List.range'_concat, List.map_append,
                  ← h.consecutive, hnext]
                simp [Nat.add_comm]
              · intro hnone
                rw [Finmap.lookup_insert] at hnone
                cases hnone
              · intro producer' hproducer'
                rw [Finmap.lookup_insert] at hproducer'
                cases hproducer'
                simpa using hnext
            · -- the number of another producer
              rw [if_neg hqp, Option.toList_none, List.append_nil]
              exact h.congr (.inl (Finmap.lookup_insert_of_ne _ (Ne.symm hqp)))

theorem counts_afterCalls (h : Told served) (p : String) :
    Counts (afterCalls served) p (handedOut p served) := by
  induction served using List.reverseRecOn with
  | nil => exact ⟨rfl, Nat.two_pow_pos 63, fun _ => rfl, by rintro producer ⟨⟩⟩
  | append_singleton served e ih =>
      obtain ⟨htold, hreply⟩ := told_concat.mp h
      have hcounts := (ih htold).answer hreply e.task
      rw [afterCalls_concat, handedOut, List.filterMap_append]
      have hlast : [e].filterMap (number? p) = (number? p e).toList := by
        rw [List.filterMap_cons]
        cases number? p e <;> rfl
      rw [hlast]
      exact hcounts

/-- The numbers of every producer are 1, 2, 3 and so on, and what `validate_sequence`
accepts is the next of them. -/
structure Consecutive (s : LockedSystem CoordinatorOp TxnData TxnReply) : Prop where
  numbers : ∀ p, ∃ n < 2 ^ 63, handedOut p s.served = (List.range' 1 n).map Int64.ofNat
  valid : ∀ before i p sequence accepted later,
    s.served = before ++ ⟨i, .validateSequence p sequence, .valid (some (.ok accepted))⟩ :: later →
      (accepted = true ↔ sequence.toInt = ((handedOut p before).length : ℤ) + 1)

/-- **Sequence numbers are consecutive**, however many producers and calls there are at the
same time. -/
theorem sequence_numbers_are_consecutive (labels : List (SystemLabel CoordinatorOp)) :
    Always step Consecutive start labels := by
  apply (asOneAtATime_always labels).mono
  intro s h
  have htold : Told s.served := h.linearizable.replies
  constructor
  · intro p
    have hcounts := counts_afterCalls htold p
    exact ⟨_, hcounts.bounded, hcounts.consecutive⟩
  · intro before i p sequence accepted later hserved
    rw [hserved, List.append_cons] at htold
    obtain ⟨hbefore, hreply⟩ := told_concat.mp htold.of_append
    have hcounts := counts_afterCalls hbefore p
    have hvalid : (afterCalls before).validateSequence p sequence = some (.ok accepted) :=
      TxnReply.valid.inj hreply
    unfold TransactionCoordinator.validateSequence at hvalid
    cases hp : (afterCalls before).producers.lookup p with
    | none =>
        rw [hp] at hvalid
        cases hvalid
    | some producer =>
        rw [hp] at hvalid
        dsimp only at hvalid
        split at hvalid
        · cases hvalid
        · rename_i hroom
          obtain ⟨hbounded, hnext⟩ := hcounts.next hp hroom
          cases hvalid
          rw [decide_eq_true_eq, hnext, ← Int64.toInt_inj, Int64.toInt_ofNat_of_lt hbounded]
          rfl

end TxnTasks

end Rafka
