/-
Rafka/TransactionHistory.lean

What the transaction coordinator has told its callers
(`crates/broker/src/transactions.rs`).

A run of the coordinator leaves a history: the writes that were accepted,
the transactions that were prepared, committed (with the writes the commit
returned) or aborted, and those that were marked as timed out, in the order
of the calls.  No operation reads it.  Machine arithmetic is checked: a call on a
producer panics (`none`) where a sequence number overflows.

Main results: each producer has at most one active transaction
(`oneActive_always`); once its transactions have expired, a cleanup lets it
begin another one exactly if the expiry of each has been recorded
(`begins_after_cleanup_iff`); and a commit returns exactly the writes that
were accepted for its transaction, all of them before its prepare, at most
once and never after an abort or a timeout (`commit_delivers`).
-/
import Rafka.Transactions

namespace Rafka

/-- What a call did to a transaction. -/
inductive TxnEvent
  /-- `add_write` returned `Ok`. -/
  | accepted (id : String) (write : TransactionalWrite)
  /-- `prepare_transaction` returned `Ok`. -/
  | prepared (id : String)
  /-- `commit_transaction` returned these writes. -/
  | committed (id : String) (writes : List TransactionalWrite)
  /-- `abort_transaction` returned `Ok`. -/
  | aborted (id : String)
  /-- The call found the transaction past its deadline and marked it. -/
  | timedOut (id : String)
deriving DecidableEq

namespace TxnEvent

/-- The transaction it happened to. -/
def id : TxnEvent → String
  | .accepted id _ => id
  | .prepared id => id
  | .committed id _ => id
  | .aborted id => id
  | .timedOut id => id

/-- The write, if one to `id` was accepted. -/
def write? (id : String) : TxnEvent → Option TransactionalWrite
  | .accepted id' w => if id' = id then some w else none
  | _ => none

/-- The transaction is decided or given up. -/
def isFinal : TxnEvent → Bool
  | .committed _ _ => true
  | .aborted _ => true
  | .timedOut _ => true
  | _ => false

/-- The writes to `id` that were accepted, in order. -/
def acceptedWrites (id : String) (events : List TxnEvent) : List TransactionalWrite :=
  events.filterMap (write? id)

end TxnEvent

/-! ### Runs with their history -/

/-- `ProducerState::next_sequence`; the increment may overflow. -/
def ProducerState.nextSequence (p : ProducerState) (now : SystemTime) :
    Option (Int64 × ProducerState) :=
  if p.sequenceNumber = Int64.maxValue then none
  else
    some (p.sequenceNumber + 1,
      { p with sequenceNumber := p.sequenceNumber + 1, lastUpdate := now })

namespace TransactionCoordinator

/-- `TransactionCoordinator::next_sequence`; a panic (`none`) leaves the
producers as they were. -/
def nextSequence (c : TransactionCoordinator) (producerId : String) (now : SystemTime) :
    Option (Except String Int64) × TransactionCoordinator :=
  match c.producers.lookup producerId with
  | some p =>
      match p.nextSequence now with
      | some (sequence, p') =>
          (some (.ok sequence), { c with producers := c.producers.insert producerId p' })
      | none => (none, c)
  | none => (some (.error "Producer not found"), c)

/-- `TransactionCoordinator::validate_sequence`; the sum may overflow, which
panics (`none`). -/
def validateSequence (c : TransactionCoordinator) (producerId : String) (sequence : Int64) :
    Option (Except String Bool) :=
  match c.producers.lookup producerId with
  | some p =>
      if p.sequenceNumber = Int64.maxValue then none
      else some (.ok (sequence = p.sequenceNumber + 1))
  | none => some (.error "Producer not found")

/-- `TransactionCoordinator::get_transaction_state`. -/
def getTransactionState (c : TransactionCoordinator) (transactionId : String) :
    Option TransactionState :=
  (c.transactions.lookup transactionId).map Transaction.state

/-- What `begin_transaction` looks for: an active transaction of the producer. -/
theorem any_active_iff {c : TransactionCoordinator} {producerId : String} :
    (c.transactions.any fun _ t => t.producerId = producerId && t.isActive) = true ↔
      ¬ ∀ id t, c.transactions.lookup id = some t → t.producerId = producerId →
        t.isActive = false := by
  rw [HashMap.any_eq_true]
  constructor
  · rintro ⟨id, t, ht, hactive⟩ hidle
    simp only [Bool.and_eq_true, decide_eq_true_eq] at hactive
    rw [hidle id t ht hactive.1] at hactive
    cases hactive.2
  · intro hsome
    push Not at hsome
    obtain ⟨id, t, ht, hp, hactive⟩ := hsome
    exact ⟨id, t, ht, by simpa [hp] using hactive⟩

end TransactionCoordinator

/-- Any call on the coordinator. -/
inductive CoordinatorOp
  | transaction (op : TxnOp)
  | nextSequence (producerId : String) (now : SystemTime)
  | validateSequence (producerId : String) (sequence : Int64)
  | getTransactionState (transactionId : String)

/-- A run with its history. -/
structure TxnHistory where
  run : TxnRun
  events : List TxnEvent

namespace TxnRun

/-- The deadline check of a call on `id` marks the transaction. -/
def marked (r : TxnRun) (id : String) (now : SystemTime) : Option TxnEvent :=
  match r.txn id with
  | some t => if t.isTimedOut now then some (.timedOut id) else none
  | none => none

/-- What the call does, if it changes a transaction. -/
def event (r : TxnRun) : TxnOp → Option TxnEvent
  | .beginTransaction .. => none
  | .addWrite id w now =>
      match (r.coordinator.addWrite id w now).1 with
      | .ok _ => some (.accepted id w)
      | .error _ => r.marked id now
  | .prepareTransaction id now =>
      match (r.coordinator.prepareTransaction id now).1 with
      | .ok _ => some (.prepared id)
      | .error _ => r.marked id now
  | .commitTransaction id =>
      match (r.coordinator.commitTransaction id).1 with
      | .ok writes => some (.committed id writes)
      | .error _ => none
  | .abortTransaction id =>
      match (r.coordinator.abortTransaction id).1 with
      | .ok _ => some (.aborted id)
      | .error _ => none
  | .cleanupOldTransactions _ => none

end TxnRun

namespace TxnHistory

/-- A coordinator that has not been called yet. -/
def init : TxnHistory := ⟨.init, []⟩

/-- The run after one more call; two of the calls only read. -/
def step (h : TxnHistory) : CoordinatorOp → TxnHistory
  | .transaction op => ⟨h.run.step op, h.events ++ (h.run.event op).toList⟩
  | .nextSequence producerId now =>
      { h with
        run := { h.run with
          coordinator := (h.run.coordinator.nextSequence producerId now).2 } }
  | .validateSequence _ _ => h
  | .getTransactionState _ => h

/-- The transaction found under `id`. -/
def txn (h : TxnHistory) (id : String) : Option Transaction := h.run.txn id

/-- `begin_transaction` draws an id that was not drawn before. -/
def FreshId (h : TxnHistory) : CoordinatorOp → Prop
  | .transaction op => h.run.FreshId op
  | _ => True

/-- Sequence numbers do not touch the transactions. -/
theorem txn_nextSequence (h : TxnHistory) (producerId : String) (now : SystemTime)
    (id : String) : (h.step (.nextSequence producerId now)).txn id = h.txn id := by
  have hsame : (h.run.coordinator.nextSequence producerId now).2.transactions =
      h.run.coordinator.transactions := by
    unfold TransactionCoordinator.nextSequence
    split
    · split <;> rfl
    · rfl
  exact congrArg (fun m => Finmap.lookup id m) hsame

end TxnHistory

/-! ### One active transaction per producer -/

namespace TxnHistory

/-- No producer has two transactions in state `Preparing` or `Prepared`. -/
def OneActive (h : TxnHistory) : Prop :=
  ∀ id id' t t', h.txn id = some t → h.txn id' = some t' → t.producerId = t'.producerId →
    t.isActive = true → t'.isActive = true → id = id'

/-- No call moves a transaction to another producer. -/
theorem producerId_of_effect {op : TxnOp} {id : String} {t t' : Transaction}
    (h : op.effect id t = some t') : t'.producerId = t.producerId := by
  have hite : ∀ (c : Prop) [Decidable c] (t₁ : Transaction),
      t₁.producerId = t.producerId → (if c then t₁ else t).producerId = t.producerId := by
    intro c _ t₁ h₁
    split
    · exact h₁
    · rfl
  cases op with
  | beginTransaction p uuid now now' =>
      obtain rfl := Option.some.inj h
      rfl
  | addWrite id' w now =>
      obtain rfl := Option.some.inj h
      apply hite _ _
      simp only [Transaction.timedAddWrite, Transaction.addWrite]
      split_ifs <;> rfl
  | prepareTransaction id' now =>
      obtain rfl := Option.some.inj h
      apply hite _ _
      simp only [Transaction.prepare]
      split_ifs <;> rfl
  | commitTransaction id' =>
      obtain rfl := Option.some.inj h
      apply hite _ _
      simp only [Transaction.commit]
      split_ifs <;> rfl
  | abortTransaction id' =>
      obtain rfl := Option.some.inj h
      apply hite _ _
      simp only [Transaction.abort]
      split_ifs <;> rfl
  | cleanupOldTransactions clock =>
      simp only [TxnOp.effect] at h
      split at h
      · obtain rfl := Option.some.inj h
        rfl
      · cases h

/-- No call moves a transaction back to an active state. -/
theorem active_of_effect {op : TxnOp} {id : String} {t t' : Transaction}
    (h : op.effect id t = some t') (hactive : t'.isActive = true) : t.isActive = true := by
  cases Transition.of_effect h with
  | same hs _ => simpa only [Transaction.isActive, hs] using hactive
  | late _ _ hs => simp [Transaction.isActive, hs] at hactive
  | prepared _ hbefore _ => simp [Transaction.isActive, hbefore]
  | committed hbefore _ => simp [Transaction.isActive, hbefore]
  | aborted _ hs => simp [Transaction.isActive, hs] at hactive

/-- A begun transaction is the only active one of its producer. -/
theorem beginTransaction_spec (c : TransactionCoordinator) (p uuid : String)
    (now now' : SystemTime) :
    (c.beginTransaction p uuid now now').2 = c ∨
      (c.beginTransaction p uuid now now').2.transactions =
          c.transactions.insert uuid (Transaction.new uuid p c.defaultTimeout now) ∧
        ∀ id t, c.transactions.lookup id = some t → t.producerId = p →
          t.isActive = false := by
  unfold TransactionCoordinator.beginTransaction
  split
  · exact .inl rfl
  · rename_i hnone
    rw [TransactionCoordinator.any_active_iff, not_not] at hnone
    exact .inr ⟨rfl, hnone⟩

/-- An active transaction after a call other than a begin was active before,
under the same id and for the same producer. -/
theorem active_before {r : TxnRun} {op : TxnOp} {id : String} {t' : Transaction}
    (hop : ∀ p uuid now now', op ≠ .beginTransaction p uuid now now')
    (h' : (r.step op).txn id = some t') (hactive : t'.isActive = true) :
    ∃ t, r.txn id = some t ∧ t.producerId = t'.producerId ∧ t.isActive = true := by
  rcases e : r.txn id with - | t
  · obtain ⟨-, -, p, now, now', rfl⟩ := TxnRun.txn_step_none e h'
    exact absurd rfl (hop p id now now')
  · rw [TxnRun.txn_step e fun p now now' => hop p id now now'] at h'
    exact ⟨t, rfl, (producerId_of_effect h').symm, active_of_effect h' hactive⟩

variable {h : TxnHistory}

/-- **Step lemma.**  No call gives a producer a second active transaction. -/
theorem OneActive.step (hone : h.OneActive) (op : CoordinatorOp) : (h.step op).OneActive := by
  cases op with
  | validateSequence producerId sequence => exact hone
  | getTransactionState id => exact hone
  | nextSequence producerId now =>
      intro id id' t t' ht ht'
      rw [txn_nextSequence] at ht ht'
      exact hone id id' t t' ht ht'
  | transaction op =>
      intro id id' t t' ht ht' hp hactive hactive'
      by_cases hbegin : ∃ p uuid now now', op = .beginTransaction p uuid now now'
      · obtain ⟨p, uuid, now, now', rfl⟩ := hbegin
        rcases beginTransaction_spec h.run.coordinator p uuid now now' with hsame | ⟨hins, hidle⟩
        · -- refused
          simp only [TxnHistory.txn, TxnHistory.step, TxnRun.txn, TxnRun.step, hsame] at ht ht'
          exact hone id id' t t' ht ht' hp hactive hactive'
        · -- the new transaction belongs to a producer that had no active one
          simp only [TxnHistory.txn, TxnHistory.step, TxnRun.txn, TxnRun.step, hins,
            HashMap.lookup_insert_eq] at ht ht'
          split at ht <;> split at ht'
          · rename_i hid hid'
            exact hid.trans hid'.symm
          · cases ht
            exact absurd hactive' (by simp [hidle id' t' ht' hp.symm])
          · cases ht'
            exact absurd hactive (by simp [hidle id t ht hp])
          · exact hone id id' t t' ht ht' hp hactive hactive'
      · have hop : ∀ p uuid now now', op ≠ .beginTransaction p uuid now now' :=
          fun p uuid now now' heq => hbegin ⟨p, uuid, now, now', heq⟩
        obtain ⟨t₀, ht₀, hp₀, hactive₀⟩ := active_before hop ht hactive
        obtain ⟨t₁, ht₁, hp₁, hactive₁⟩ := active_before hop ht' hactive'
        exact hone id id' t₀ t₁ ht₀ ht₁ (hp₀.trans (hp.trans hp₁.symm)) hactive₀ hactive₁

/-- **One active transaction per producer**, in every state of every run. -/
theorem oneActive_always (ops : List CoordinatorOp) : Always step OneActive init ops := by
  have hinit : init.OneActive := by
    intro id id' t t' ht
    simp [txn, init, TxnRun.txn, TxnRun.init, TransactionCoordinator.new] at ht
  exact Always.of_along hinit (Along.of_forall (C := fun _ _ => True) fun _ _ => trivial)
    fun _ op hone _ => hone.step op

end TxnHistory

/-! ### Expired transactions -/

namespace TransactionCoordinator

variable {c : TransactionCoordinator} {producerId : String}

/-- At the cleanup all transactions of the producer are past their timeout, and none of them
is prepared. -/
structure Expired (c : TransactionCoordinator) (producerId : String)
    (clock : String → SystemTime) : Prop where
  timedOut : ∀ id t, c.transactions.lookup id = some t → t.producerId = producerId →
    t.isTimedOut (clock id) = true
  undecided : ∀ id t, c.transactions.lookup id = some t → t.producerId = producerId →
    t.state ≠ .prepared

/-- A producer may begin exactly if it has no active transaction. -/
theorem beginTransaction_ok_iff (uuid : String) (now now' : SystemTime) :
    (c.beginTransaction producerId uuid now now').1 = .ok uuid ↔
      ∀ id t, c.transactions.lookup id = some t → t.producerId = producerId →
        t.isActive = false := by
  unfold beginTransaction
  split
  · rename_i hany
    exact iff_of_false (fun h => by cases h) (any_active_iff.mp hany)
  · rename_i hnone
    rw [any_active_iff, not_not] at hnone
    exact iff_of_true rfl hnone

/-- **When an expired transaction does not lock its producer out.**  In whatever state the
coordinator is, after a cleanup that finds all transactions of the producer past their
timeout and none of them prepared, the producer can begin a transaction exactly if none
of them was left in state `Preparing`. -/
theorem begins_after_cleanup_iff (c : TransactionCoordinator) (producerId uuid : String)
    (clock : String → SystemTime) (now now' : SystemTime) (h : c.Expired producerId clock) :
    ((c.cleanupOldTransactions clock).beginTransaction producerId uuid now now').1 = .ok uuid ↔
      ∀ id t, c.transactions.lookup id = some t → t.producerId = producerId →
        t.state ≠ .preparing := by
  rw [beginTransaction_ok_iff]
  simp only [cleanupOldTransactions, HashMap.lookup_retain, Option.filter_eq_some_iff]
  constructor
  · -- the cleanup keeps what is preparing, however old it is
    intro hidle id t ht hp hpreparing
    have hactive : t.isActive = true := by simp [Transaction.isActive, hpreparing]
    have hnot := hidle id t ⟨ht, by simp [hactive]⟩ hp
    rw [hactive] at hnot
    cases hnot
  · rintro hdone id t ⟨ht, -⟩ hp
    have hpreparing := hdone id t ht hp
    have hprepared := h.undecided id t ht hp
    simp [Transaction.isActive, hpreparing, hprepared]

/-- The producer has begun one transaction. -/
def begun : TransactionCoordinator := (new.beginTransaction "p" "t" .unixEpoch .unixEpoch).2

/-- It has written to it, after its 60 seconds. -/
def lateWrite : TransactionCoordinator :=
  (begun.addWrite "t" ⟨"topic", 0, "k", [], none⟩ ⟨61000000000, by decide, by decide⟩).2

/-- A coordinator with one transaction, which is past its timeout and not prepared. -/
theorem expired_of_one {t : Transaction} {clock : String → SystemTime}
    (h : c.transactions = (∅ : HashMap String Transaction).insert "t" t)
    (htimedOut : t.isTimedOut (clock "t") = true) (hstate : t.state ≠ .prepared) :
    c.Expired producerId clock := by
  constructor
  · intro id t' ht' _
    rw [h] at ht'
    obtain ⟨rfl, rfl⟩ := HashMap.of_lookup_insert_empty ht'
    exact htimedOut
  · intro id t' ht' _
    rw [h] at ht'
    obtain ⟨rfl, rfl⟩ := HashMap.of_lookup_insert_empty ht'
    exact hstate

theorem begins_after_cleanup_lateWrite :
    lateWrite.Expired "p" (fun _ => TxnRun.clockAt 61) ∧
    (((lateWrite.cleanupOldTransactions fun _ => TxnRun.clockAt 61).beginTransaction "p" "u"
        (TxnRun.clockAt 61) (TxnRun.clockAt 61)).1 = .ok "u" ↔
      ∀ id t, lateWrite.transactions.lookup id = some t → t.producerId = "p" →
        t.state ≠ .preparing) := by
  have h : lateWrite.Expired "p" fun _ => TxnRun.clockAt 61 :=
    expired_of_one
      (t := { Transaction.new "t" "p" (.fromSecs 60) .unixEpoch with state := .timedOut })
      (by decide +kernel) (by decide +kernel) (by decide)
  exact ⟨h, begins_after_cleanup_iff lateWrite "p" "u" (fun _ => TxnRun.clockAt 61)
    (TxnRun.clockAt 61) (TxnRun.clockAt 61) h⟩

/-- A transaction that nobody has touched since it began is kept by the cleanup, and its
producer is refused. -/
theorem untouched_transaction_locks_out :
    begun.Expired "p" (fun _ => TxnRun.clockAt 61) ∧
      ((begun.cleanupOldTransactions fun _ => TxnRun.clockAt 61).beginTransaction "p" "u"
        (TxnRun.clockAt 61) (TxnRun.clockAt 61)).1 =
          .error "Producer already has an active transaction" := by
  refine ⟨expired_of_one (t := Transaction.new "t" "p" (.fromSecs 60) .unixEpoch)
    (by decide +kernel) (by decide +kernel) (by decide), ?_⟩
  rw [beginTransaction, if_pos (by decide +kernel)]

end TransactionCoordinator

/-! ### Every change leaves an event -/

/-- The transaction the call names. -/
def TxnOp.target : TxnOp → Option String
  | .addWrite id _ _ => some id
  | .prepareTransaction id _ => some id
  | .commitTransaction id => some id
  | .abortTransaction id => some id
  | .beginTransaction .. => none
  | .cleanupOldTransactions _ => none

/-- How the transaction `t` changed when the event was left. -/
def TxnEvent.Changes (t t' : Transaction) : TxnEvent → Prop
  | .accepted _ w => t.state = .preparing ∧ t' = { t with writes := t.writes ++ [w] }
  | .prepared _ => t.state = .preparing ∧ t' = { t with state := .prepared }
  | .committed _ writes =>
      t.state = .prepared ∧ writes = t.writes ∧ t' = { t with state := .committed }
  | .aborted _ => t' = { t with writes := [], state := .aborted }
  | .timedOut _ => t' = { t with state := .timedOut }

namespace TxnRun

variable {r : TxnRun} {op : TxnOp} {id : String} {t : Transaction} {e : TxnEvent}

theorem marked_of_txn (h : r.txn id = some t) (now : SystemTime) :
    r.marked id now = if t.isTimedOut now then some (.timedOut id) else none := by
  simp only [marked, h]

/-- The result of the four calls that work on one transaction. -/
theorem onTransaction_fst {β : Type} (h : r.txn id = some t)
    (f : Transaction → Except String β × Transaction) :
    (r.coordinator.onTransaction id f).1 = (f t).1 := by
  have h' : r.coordinator.transactions.lookup id = some t := h
  simp only [TransactionCoordinator.onTransaction, h']

theorem onTransaction_fst_none {β : Type} (h : r.txn id = none)
    (f : Transaction → Except String β × Transaction) :
    (r.coordinator.onTransaction id f).1 = .error "Transaction not found" := by
  have h' : r.coordinator.transactions.lookup id = none := h
  simp only [TransactionCoordinator.onTransaction, h']

theorem txn_of_marked {now : SystemTime} (h : r.marked id now = some e) :
    e.id = id ∧ ∃ t, r.txn id = some t := by
  unfold marked at h
  split at h
  · rename_i t ht
    split at h
    · cases h
      exact ⟨rfl, t, ht⟩
    · cases h
  · cases h

/-- A call that succeeds has found its transaction. -/
theorem txn_of_onTransaction {β : Type} {f : Transaction → Except String β × Transaction} {b : β}
    (h : (r.coordinator.onTransaction id f).1 = .ok b) : ∃ t, r.txn id = some t := by
  rcases hid : r.txn id with - | t
  · rw [onTransaction_fst_none hid] at h
    cases h
  · exact ⟨t, rfl⟩

/-- An event is about the transaction the call names, and it is there. -/
theorem txn_of_event (h : r.event op = some e) :
    op.target = some e.id ∧ ∃ t, r.txn e.id = some t := by
  cases op with
  | beginTransaction p uuid now now' => cases h
  | cleanupOldTransactions clock => cases h
  | addWrite id w now =>
      simp only [event] at h
      split at h
      · rename_i hok
        cases h
        exact ⟨rfl, txn_of_onTransaction hok⟩
      · obtain ⟨rfl, ht⟩ := txn_of_marked h
        exact ⟨rfl, ht⟩
  | prepareTransaction id now =>
      simp only [event] at h
      split at h
      · rename_i hok
        cases h
        exact ⟨rfl, txn_of_onTransaction hok⟩
      · obtain ⟨rfl, ht⟩ := txn_of_marked h
        exact ⟨rfl, ht⟩
  | commitTransaction id =>
      simp only [event] at h
      split at h
      · rename_i hok
        cases h
        exact ⟨rfl, txn_of_onTransaction hok⟩
      · cases h
  | abortTransaction id =>
      simp only [event] at h
      split at h
      · rename_i hok
        cases h
        exact ⟨rfl, txn_of_onTransaction hok⟩
      · cases h

/-- A call that does not name the transaction leaves it alone or drops it. -/
theorem effect_of_target_ne (h : op.target ≠ some id) :
    op.effect id t = some t ∨ op.effect id t = none := by
  cases op with
  | beginTransaction p uuid now now' => exact .inl rfl
  | cleanupOldTransactions clock =>
      simp only [TxnOp.effect]
      split
      · exact .inl rfl
      · exact .inr rfl
  | addWrite id' w now =>
      have hne : id ≠ id' := fun heq => h (by rw [heq]; rfl)
      exact .inl (by simp only [TxnOp.effect, if_neg hne])
  | prepareTransaction id' now =>
      have hne : id ≠ id' := fun heq => h (by rw [heq]; rfl)
      exact .inl (by simp only [TxnOp.effect, if_neg hne])
  | commitTransaction id' =>
      have hne : id ≠ id' := fun heq => h (by rw [heq]; rfl)
      exact .inl (by simp only [TxnOp.effect, if_neg hne])
  | abortTransaction id' =>
      have hne : id ≠ id' := fun heq => h (by rw [heq]; rfl)
      exact .inl (by simp only [TxnOp.effect, if_neg hne])

/-- A call that names the transaction changes nothing and leaves no event, or
leaves the event of its change. -/
theorem effect_of_target (h : r.txn id = some t) (hop : op.target = some id) :
    (r.event op = none ∧ op.effect id t = some t) ∨
      ∃ e t', r.event op = some e ∧ op.effect id t = some t' ∧ e.Changes t t' := by
  cases op with
  | beginTransaction p uuid now now' => cases hop
  | cleanupOldTransactions clock => cases hop
  | addWrite id' w now =>
      cases hop
      simp only [event, TransactionCoordinator.addWrite, onTransaction_fst h, marked_of_txn h,
        TxnOp.effect, if_true, Transaction.timedAddWrite, Transaction.addWrite]
      by_cases hlate : t.isTimedOut now = true
      · simp only [hlate, if_true]
        exact .inr ⟨_, _, rfl, rfl, rfl⟩
      · by_cases hs : t.state = .preparing
        · rw [if_neg hlate, if_neg (not_not.mpr hs)]
          exact .inr ⟨_, _, rfl, rfl, hs, rfl⟩
        · simp [hlate, hs]
  | prepareTransaction id' now =>
      cases hop
      simp only [event, TransactionCoordinator.prepareTransaction, onTransaction_fst h,
        marked_of_txn h, TxnOp.effect, if_true, Transaction.prepare]
      by_cases hlate : t.isTimedOut now = true
      · simp only [hlate, if_true]
        exact .inr ⟨_, _, rfl, rfl, rfl⟩
      · by_cases hs : t.state = .preparing
        · rw [if_neg hlate, if_neg (not_not.mpr hs)]
          exact .inr ⟨_, _, rfl, rfl, hs, rfl⟩
        · simp [hlate, hs]
  | commitTransaction id' =>
      cases hop
      simp only [event, TransactionCoordinator.commitTransaction, onTransaction_fst h,
        TxnOp.effect, if_true, Transaction.commit]
      by_cases hs : t.state = .prepared
      · rw [if_neg (not_not.mpr hs)]
        exact .inr ⟨_, _, rfl, rfl, hs, rfl, rfl⟩
      · simp [hs]
  | abortTransaction id' =>
      cases hop
      simp only [event, TransactionCoordinator.abortTransaction, onTransaction_fst h,
        TxnOp.effect, if_true, Transaction.abort]
      by_cases hs : t.state = .committed
      · simp [hs]
      · simp only [hs, if_false]
        exact .inr ⟨_, _, rfl, rfl, rfl⟩

end TxnRun

/-! ### What a commit delivers -/

namespace TxnEvent

/-- A commit of `id` that returned `writes`, between these events: the writes
are those accepted for `id`, in order and all before its prepare, no other
commit of `id` succeeds, and none follows an abort or a timeout. -/
structure Delivered (before : List TxnEvent) (id : String) (writes : List TransactionalWrite)
    (after : List TxnEvent) : Prop where
  writes_eq : writes = acceptedWrites id (before ++ .committed id writes :: after)
  prepared : ∃ b₁ b₂, before = b₁ ++ .prepared id :: b₂ ∧ acceptedWrites id b₁ = writes
  once : ∀ writes', .committed id writes' ∉ before ∧ .committed id writes' ∉ after
  not_aborted : .aborted id ∉ before
  not_timedOut : .timedOut id ∉ before

/-- Every commit of the history delivers. -/
def AllDelivered (events : List TxnEvent) : Prop :=
  ∀ before id writes after, events = before ++ .committed id writes :: after →
    Delivered before id writes after

/-- The event may follow a final one: it is neither an accepted write nor a
commit. -/
def isIdle : TxnEvent → Bool
  | .accepted _ _ => false
  | .committed _ _ => false
  | _ => true

theorem acceptedWrites_append (id : String) (l₁ l₂ : List TxnEvent) :
    acceptedWrites id (l₁ ++ l₂) = acceptedWrites id l₁ ++ acceptedWrites id l₂ :=
  List.filterMap_append

/-- An event that is about another transaction, or idle, adds no write. -/
theorem acceptedWrites_singleton {id : String} {e : TxnEvent}
    (h : e.id = id → e.isIdle = true) : acceptedWrites id [e] = [] := by
  cases e with
  | accepted id' w =>
      have hne : id' ≠ id := by
        intro heq
        simpa [isIdle] using h heq
      simp [acceptedWrites, write?, hne]
  | _ => rfl

/-- One more event keeps the history delivered, if it respects the final ones
and delivers itself. -/
theorem AllDelivered.concat {events : List TxnEvent} {e : TxnEvent}
    (h : AllDelivered events)
    (hidle : ∀ e' ∈ events, e'.isFinal = true → e'.id = e.id → e.isIdle = true)
    (hnew : ∀ id writes, e = .committed id writes → Delivered events id writes []) :
    AllDelivered (events ++ [e]) := by
  intro before id writes after hsplit
  rcases List.eq_nil_or_concat' after with rfl | ⟨after', e', rfl⟩
  · -- the new event is the commit
    obtain ⟨rfl, hlast⟩ := List.append_inj' hsplit rfl
    exact hnew id writes (List.cons.inj hlast).1
  · -- the commit was there before
    rw [← List.cons_append, ← List.append_assoc] at hsplit
    obtain ⟨hevents, hlast⟩ := List.append_inj' hsplit rfl
    obtain rfl := (List.cons.inj hlast).1
    have hold := h before id writes after' hevents
    have hmem : TxnEvent.committed id writes ∈ events := by
      rw [hevents]
      exact List.mem_append_right before List.mem_cons_self
    have hquiet : e.id = id → e.isIdle = true := fun heq => hidle _ hmem rfl heq.symm
    refine ⟨?_, hold.prepared, fun writes' => ?_, hold.not_aborted, hold.not_timedOut⟩
    · rw [← List.cons_append, ← List.append_assoc, acceptedWrites_append,
        acceptedWrites_singleton hquiet, List.append_nil]
      exact hold.writes_eq
    · refine ⟨(hold.once writes').1, fun hin => ?_⟩
      rcases List.mem_append.mp hin with hafter | hlast'
      · exact (hold.once writes').2 hafter
      · obtain rfl := List.mem_singleton.mp hlast'
        simpa [isIdle] using hquiet rfl

end TxnEvent

namespace TxnHistory

open TxnEvent

/-- The history and the table of transactions agree: an active transaction
holds the writes accepted for it and has met no final event, and a prepared
one has got all its writes before its prepare. -/
structure Faithful (h : TxnHistory) : Prop where
  used_of_txn : ∀ id t, h.txn id = some t → id ∈ h.run.used
  used_of_event : ∀ e ∈ h.events, e.id ∈ h.run.used
  writes : ∀ id t, h.txn id = some t → t.isActive = true →
    t.writes = acceptedWrites id h.events
  open_ : ∀ id t, h.txn id = some t → t.isActive = true →
    ∀ e ∈ h.events, e.id = id → e.isFinal = false
  prepared : ∀ id t, h.txn id = some t → t.state = .prepared →
    ∃ b₁ b₂, h.events = b₁ ++ .prepared id :: b₂ ∧ acceptedWrites id b₁ = t.writes
  delivered : AllDelivered h.events

theorem faithful_init : init.Faithful := by
  have hnone : ∀ id t, init.txn id ≠ some t := by
    intro id t ht
    simp [txn, init, TxnRun.txn, TxnRun.init, TransactionCoordinator.new] at ht
  constructor
  · exact fun id t ht => absurd ht (hnone id t)
  · intro e he
    cases he
  · exact fun id t ht => absurd ht (hnone id t)
  · exact fun id t ht => absurd ht (hnone id t)
  · exact fun id t ht => absurd ht (hnone id t)
  · intro before id writes after hsplit
    simp [init] at hsplit

/-- A transaction that enters the table has no writes. -/
theorem writes_of_new {r : TxnRun} {op : TxnOp} {id : String} {t' : Transaction}
    (h : r.txn id = none) (h' : (r.step op).txn id = some t') :
    t'.writes = [] ∧ r.event op = none := by
  obtain ⟨-, -, p, now, now', rfl⟩ := TxnRun.txn_step_none h h'
  refine ⟨?_, rfl⟩
  have e : r.coordinator.transactions.lookup id = none := h
  simp only [TxnRun.step, TxnRun.txn] at h'
  rcases TxnRun.beginTransaction_cases r.coordinator p id now now' with ⟨hc, -⟩ | ⟨hc, -⟩
  · rw [hc, e] at h'
    cases h'
  · rw [hc, HashMap.lookup_insert_eq, if_pos rfl] at h'
    cases h'
    rfl

variable {h : TxnHistory} {op : TxnOp} {id : String} {t' : Transaction}

/-- A transaction in the table after a call: nothing happened to it, or the
call left the event of its change, or it is new. -/
theorem Faithful.cases (hf : h.Faithful) (hfresh : h.run.FreshId op)
    (h' : (h.run.step op).txn id = some t') :
    (h.txn id = some t' ∧ ∀ e ∈ h.run.event op, e.id ≠ id) ∨
      (∃ t e, h.txn id = some t ∧ h.run.event op = some e ∧ e.id = id ∧ e.Changes t t') ∨
      (t'.writes = [] ∧ t'.state = .preparing ∧ id ∉ h.run.used ∧ h.run.event op = none) := by
  rcases e : h.run.txn id with - | t
  · obtain ⟨hs, -, p, now, now', rfl⟩ := TxnRun.txn_step_none e h'
    exact .inr (.inr ⟨(writes_of_new e h').1, hs, hfresh, rfl⟩)
  · have hbegin : ∀ p now now', op ≠ .beginTransaction p id now now' := by
      rintro p now now' rfl
      exact hfresh (hf.used_of_txn id t e)
    rw [TxnRun.txn_step e hbegin] at h'
    by_cases htarget : op.target = some id
    · rcases TxnRun.effect_of_target e htarget with ⟨hnone, hsame⟩ | ⟨ev, t₁, hev, heff, hch⟩
      · obtain rfl := Option.some.inj (hsame.symm.trans h')
        exact .inl ⟨e, by simp [hnone]⟩
      · obtain rfl := Option.some.inj (heff.symm.trans h')
        have hid : ev.id = id :=
          Option.some.inj ((TxnRun.txn_of_event hev).1.symm.trans htarget)
        exact .inr (.inl ⟨t, ev, e, hev, hid, hch⟩)
    · rcases TxnRun.effect_of_target_ne (t := t) htarget with hsame | hgone
      · obtain rfl := Option.some.inj (hsame.symm.trans h')
        refine .inl ⟨e, fun ev hev hid => htarget ?_⟩
        rw [← hid]
        exact (TxnRun.txn_of_event hev).1
      · rw [hgone] at h'
        cases h'

/-- Events about other transactions add no writes. -/
theorem acceptedWrites_events (hne : ∀ e ∈ h.run.event op, e.id ≠ id) :
    acceptedWrites id (h.events ++ (h.run.event op).toList) = acceptedWrites id h.events := by
  rw [acceptedWrites_append]
  cases hev : h.run.event op with
  | none => exact List.append_nil _
  | some e =>
      have hnil : acceptedWrites id [e] = [] :=
        acceptedWrites_singleton fun heq => absurd heq (hne e (by simp [hev]))
      rw [Option.toList_some, hnil, List.append_nil]

/-- No write was accepted for an id that was not drawn yet. -/
theorem Faithful.acceptedWrites_of_not_used (hf : h.Faithful) (hid : id ∉ h.run.used) :
    acceptedWrites id h.events = [] := by
  apply List.filterMap_eq_nil_iff.mpr
  intro e he
  have hne : e.id ≠ id := fun heq => hid (heq ▸ hf.used_of_event e he)
  cases e with
  | accepted id' w =>
      have hne' : id' ≠ id := hne
      simp only [write?, if_neg hne']
  | _ => rfl

theorem Faithful.writes_step (hf : h.Faithful) (hfresh : h.run.FreshId op)
    (h' : (h.run.step op).txn id = some t') (hactive : t'.isActive = true) :
    t'.writes = acceptedWrites id (h.events ++ (h.run.event op).toList) := by
  rcases hf.cases hfresh h' with ⟨ht, hne⟩ | ⟨t, e, ht, hev, rfl, hch⟩ | ⟨hw, -, hid, hnone⟩
  · rw [acceptedWrites_events hne]
    exact hf.writes id t' ht hactive
  · rw [hev, Option.toList_some, acceptedWrites_append]
    cases e with
    | accepted id w =>
        obtain ⟨hs, rfl⟩ := hch
        have hold := hf.writes id t ht (by simp [Transaction.isActive, hs])
        simp [acceptedWrites, write?, TxnEvent.id, hold]
    | prepared id =>
        obtain ⟨hs, rfl⟩ := hch
        have hold := hf.writes id t ht (by simp [Transaction.isActive, hs])
        simp [acceptedWrites, write?, TxnEvent.id, hold]
    | committed id ws =>
        obtain ⟨-, -, rfl⟩ := hch
        simp [Transaction.isActive] at hactive
    | aborted id =>
        obtain rfl := hch
        simp [Transaction.isActive] at hactive
    | timedOut id =>
        obtain rfl := hch
        simp [Transaction.isActive] at hactive
  · rw [hnone, Option.toList_none, List.append_nil, hw, hf.acceptedWrites_of_not_used hid]

theorem Faithful.open_step (hf : h.Faithful) (hfresh : h.run.FreshId op)
    (h' : (h.run.step op).txn id = some t') (hactive : t'.isActive = true) :
    ∀ e ∈ h.events ++ (h.run.event op).toList, e.id = id → e.isFinal = false := by
  intro e he hid
  rcases hf.cases hfresh h' with ⟨ht, hne⟩ | ⟨t, e', ht, hev, rfl, hch⟩ | ⟨-, -, hused, hnone⟩
  · rcases List.mem_append.mp he with hold | hnew
    · exact hf.open_ id t' ht hactive e hold hid
    · exact absurd hid (hne e (by simpa using hnew))
  · -- a change that leaves the transaction active is no final event
    have hnew : e'.isFinal = false ∧ t.isActive = true := by
      cases e' with
      | accepted id w => exact ⟨rfl, by simp [Transaction.isActive, hch.1]⟩
      | prepared id => exact ⟨rfl, by simp [Transaction.isActive, hch.1]⟩
      | committed id ws =>
          obtain ⟨-, -, rfl⟩ := hch
          simp [Transaction.isActive] at hactive
      | aborted id =>
          obtain rfl := hch
          simp [Transaction.isActive] at hactive
      | timedOut id =>
          obtain rfl := hch
          simp [Transaction.isActive] at hactive
    rcases List.mem_append.mp he with hold | hlast
    · exact hf.open_ _ t ht hnew.2 e hold hid
    · have heq : e = e' := by simpa [hev] using hlast
      exact heq ▸ hnew.1
  · rw [hnone, Option.toList_none, List.append_nil] at he
    exact absurd (hid ▸ hf.used_of_event e he) hused

theorem Faithful.prepared_step (hf : h.Faithful) (hfresh : h.run.FreshId op)
    (h' : (h.run.step op).txn id = some t') (hs' : t'.state = .prepared) :
    ∃ b₁ b₂, h.events ++ (h.run.event op).toList = b₁ ++ .prepared id :: b₂ ∧
      acceptedWrites id b₁ = t'.writes := by
  rcases hf.cases hfresh h' with ⟨ht, -⟩ | ⟨t, e, ht, hev, rfl, hch⟩ | ⟨-, hs, -⟩
  · obtain ⟨b₁, b₂, hsplit, hw⟩ := hf.prepared id t' ht hs'
    refine ⟨b₁, b₂ ++ (h.run.event op).toList, ?_, hw⟩
    rw [hsplit, List.append_assoc, List.cons_append]
  · cases e with
    | prepared id =>
        -- prepared by this very call
        obtain ⟨hs, rfl⟩ := hch
        refine ⟨h.events, [], by rw [hev]; rfl, ?_⟩
        exact (hf.writes id t ht (by simp [Transaction.isActive, hs])).symm
    | accepted id w =>
        obtain ⟨hs, rfl⟩ := hch
        simp [hs] at hs'
    | committed id ws =>
        obtain ⟨-, -, rfl⟩ := hch
        cases hs'
    | aborted id =>
        obtain rfl := hch
        cases hs'
    | timedOut id =>
        obtain rfl := hch
        cases hs'
  · simp [hs] at hs'

/-- The event of a call respects the final ones, and a commit delivers. -/
theorem Faithful.delivered_step (hf : h.Faithful) :
    AllDelivered (h.events ++ (h.run.event op).toList) := by
  cases hev : h.run.event op with
  | none => simpa using hf.delivered
  | some e =>
      obtain ⟨htarget, t, ht⟩ := TxnRun.txn_of_event hev
      obtain ⟨t', hch⟩ : ∃ t', e.Changes t t' := by
        rcases TxnRun.effect_of_target ht htarget with ⟨hnone, -⟩ | ⟨e', t', he', -, hch⟩
        · rw [hev] at hnone
          cases hnone
        · obtain rfl := Option.some.inj (hev.symm.trans he')
          exact ⟨t', hch⟩
      -- writes are accepted, and commits done, on active transactions only
      have hactive : e.isIdle = false → t.isActive = true := by
        intro hidle
        cases e with
        | accepted id w => simp [Transaction.isActive, hch.1]
        | committed id ws => simp [Transaction.isActive, hch.1]
        | prepared id => cases hidle
        | aborted id => cases hidle
        | timedOut id => cases hidle
      refine hf.delivered.concat ?_ ?_
      · intro e' he' hfinal hid
        by_contra hidle
        have hopen := hf.open_ e.id t ht (hactive (by simpa using hidle)) e' he' hid
        rw [hfinal] at hopen
        cases hopen
      · rintro id writes rfl
        obtain ⟨hs, rfl, -⟩ := hch
        have hopen := hf.open_ id t ht (hactive rfl)
        refine ⟨?_, hf.prepared id t ht hs, fun writes' => ⟨fun hin => ?_, by simp⟩,
          fun hin => ?_, fun hin => ?_⟩
        · have hnil : acceptedWrites id [.committed id t.writes] = [] := rfl
          rw [acceptedWrites_append, hnil, List.append_nil]
          exact hf.writes id t ht (hactive rfl)
        · cases hopen _ hin rfl
        · cases hopen _ hin rfl
        · cases hopen _ hin rfl

/-- **Step lemma.**  Every call with a fresh id keeps history and table
together. -/
theorem Faithful.step (hf : h.Faithful) (op : CoordinatorOp) (hfresh : h.FreshId op) :
    (h.step op).Faithful := by
  cases op with
  | validateSequence producerId sequence => exact hf
  | getTransactionState id => exact hf
  | nextSequence producerId now =>
      have hsame := h.txn_nextSequence producerId now
      exact ⟨fun id t ht => hf.used_of_txn id t (hsame id ▸ ht), hf.used_of_event,
        fun id t ht => hf.writes id t (hsame id ▸ ht), fun id t ht => hf.open_ id t (hsame id ▸ ht),
        fun id t ht => hf.prepared id t (hsame id ▸ ht), hf.delivered⟩
  | transaction op =>
      refine ⟨fun id t' h' => ?_, fun e he => ?_, fun id t' h' => hf.writes_step hfresh h',
        fun id t' h' => hf.open_step hfresh h', fun id t' h' => hf.prepared_step hfresh h',
        hf.delivered_step⟩
      · rcases e : h.run.txn id with - | t
        · exact (TxnRun.txn_step_none e h').2.1
        · exact TxnRun.used_step_subset (hf.used_of_txn id t e) op
      · rcases List.mem_append.mp he with hold | hnew
        · exact TxnRun.used_step_subset (hf.used_of_event e hold) op
        · obtain ⟨-, t, ht⟩ := TxnRun.txn_of_event (Option.mem_toList.mp hnew)
          exact TxnRun.used_step_subset (hf.used_of_txn _ t ht) op

/-- **A commit delivers exactly the accepted writes, at most once.**  In every
run with fresh ids, wherever the history has a commit of `id` with `writes`:
these are the writes to `id` that were accepted, in order, all before the
prepare of `id`; no other commit of `id` succeeds; and `id` was neither
aborted nor marked as timed out before. -/
theorem commit_delivers (ops : List CoordinatorOp) (hfresh : Along step FreshId init ops) :
    AllDelivered (ops.foldl step init).events :=
  (Always.of_along faithful_init hfresh fun _ op hf hop => hf.step op hop).last.delivered

/-- One write, then prepare and commit. -/
def oneWriteRun : List CoordinatorOp :=
  [.transaction (.beginTransaction "p" "t" .unixEpoch .unixEpoch),
   .transaction (.addWrite "t" ⟨"topic", 0, "k", [7], none⟩ .unixEpoch),
   .transaction (.prepareTransaction "t" .unixEpoch),
   .transaction (.commitTransaction "t")]

/-- `commit_delivers` at `oneWriteRun`: the commit is there and returns the
write. -/
theorem oneWriteRun_delivers :
    Along step FreshId init oneWriteRun ∧
      (oneWriteRun.foldl step init).events =
        [.accepted "t" ⟨"topic", 0, "k", [7], none⟩, .prepared "t",
          .committed "t" [⟨"topic", 0, "k", [7], none⟩]] ∧
      AllDelivered (oneWriteRun.foldl step init).events := by
  have hfresh : Along step FreshId init oneWriteRun :=
    ⟨List.not_mem_nil, trivial, trivial, trivial, trivial⟩
  exact ⟨hfresh, by decide, commit_delivers oneWriteRun hfresh⟩

end TxnHistory

end Rafka
