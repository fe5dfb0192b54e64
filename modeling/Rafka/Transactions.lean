/-
Rafka/Transactions.lean

The transaction coordinator (`crates/broker/src/transactions.rs`).

A transaction goes from `preparing` through `prepared` to `committed`, or to
`aborted`; a transaction found past its deadline is marked `timedOut`.  Each
operation runs under the write lock of the transaction table, so a run is a
sequence of operations, each with the clock readings it makes and, for
`begin_transaction`, the fresh id it draws.

`add_write` and `prepare_transaction` look at the deadline before they look
at the state, so on a late call they mark *any* transaction as timed out, a
prepared or committed one included.  Main result (`decided_iff`): in a run
with fresh ids, a decided transaction stays decided exactly when no such
late call reaches a transaction that has been prepared.
-/
import Rafka.HashMap
import Rafka.Time
import Rafka.Trace

namespace Rafka

/-- `TransactionState`. -/
inductive TransactionState
  | preparing
  | prepared
  | committing
  | committed
  | aborting
  | aborted
  | timedOut
deriving DecidableEq

/-- The `Debug` rendering used in error texts. -/
def TransactionState.debug : TransactionState → String
  | .preparing => "Preparing"
  | .prepared => "Prepared"
  | .committing => "Committing"
  | .committed => "Committed"
  | .aborting => "Aborting"
  | .aborted => "Aborted"
  | .timedOut => "TimedOut"

/-- `TransactionalWrite`. -/
structure TransactionalWrite where
  topic : String
  partition : Int32
  key : String
  value : List UInt8
  offset : Option Int64
deriving DecidableEq

/-- `Transaction`. -/
structure Transaction where
  transactionId : String
  producerId : String
  state : TransactionState
  writes : List TransactionalWrite
  startedAt : SystemTime
  timeout : Duration
deriving DecidableEq

namespace Transaction

/-- `Transaction::new`, with the id and the clock reading it draws. -/
def new (uuid producerId : String) (timeout : Duration) (now : SystemTime) : Transaction where
  transactionId := uuid
  producerId := producerId
  state := .preparing
  writes := []
  startedAt := now
  timeout := timeout

/-- `Transaction::add_write`. -/
def addWrite (t : Transaction) (write : TransactionalWrite) :
    Except String Unit × Transaction :=
  if t.state ≠ .preparing then
    (.error ("Cannot add writes in state " ++ t.state.debug), t)
  else (.ok (), { t with writes := t.writes ++ [write] })

/-- `Transaction::is_timed_out`; a clock behind `started_at` reads as zero. -/
def isTimedOut (t : Transaction) (now : SystemTime) : Bool :=
  (now.durationSince t.startedAt).getD 0 > t.timeout

/-- The state check of `begin_transaction` and `cleanup_old_transactions`. -/
def isActive (t : Transaction) : Bool :=
  t.state = .preparing || t.state = .prepared

/-- What `TransactionCoordinator::add_write` does to the transaction it finds:
the deadline is checked before the state. -/
def timedAddWrite (t : Transaction) (write : TransactionalWrite) (now : SystemTime) :
    Except String Unit × Transaction :=
  if t.isTimedOut now then
    (.error "Transaction timed out", { t with state := .timedOut })
  else t.addWrite write

/-- What `prepare_transaction` does to the transaction it finds. -/
def prepare (t : Transaction) (now : SystemTime) : Except String Unit × Transaction :=
  if t.isTimedOut now then
    (.error "Transaction timed out", { t with state := .timedOut })
  else if t.state ≠ .preparing then
    (.error ("Cannot prepare transaction in state " ++ t.state.debug), t)
  else (.ok (), { t with state := .prepared })

/-- What `commit_transaction` does to the transaction it finds. -/
def commit (t : Transaction) : Except String (List TransactionalWrite) × Transaction :=
  if t.state ≠ .prepared then
    (.error ("Cannot commit transaction in state " ++ t.state.debug), t)
  else
    let t := { t with state := .committing }
    let writes := t.writes
    let t := { t with state := .committed }
    (.ok writes, t)

/-- What `abort_transaction` does to the transaction it finds. -/
def abort (t : Transaction) : Except String Unit × Transaction :=
  if t.state = .committed then (.error "Cannot abort committed transaction", t)
  else
    let t := { t with state := .aborting }
    let t := { t with writes := [] }
    let t := { t with state := .aborted }
    (.ok (), t)

end Transaction

/-- `ProducerState`. -/
structure ProducerState where
  producerId : String
  producerEpoch : Int64
  sequenceNumber : Int64
  lastUpdate : SystemTime
deriving DecidableEq

/-- `ProducerState::new`. -/
def ProducerState.new (producerId : String) (now : SystemTime) : ProducerState where
  producerId := producerId
  producerEpoch := 0
  sequenceNumber := 0
  lastUpdate := now

/-- `TransactionCoordinator`. -/
structure TransactionCoordinator where
  transactions : HashMap String Transaction
  producers : HashMap String ProducerState
  defaultTimeout : Duration

namespace TransactionCoordinator

/-- `TransactionCoordinator::new`. -/
def new : TransactionCoordinator where
  transactions := ∅
  producers := ∅
  defaultTimeout := Duration.fromSecs 60

/-- `begin_transaction`, with the id and the two clock readings it draws. -/
def beginTransaction (c : TransactionCoordinator) (producerId uuid : String)
    (now now' : SystemTime) : Except String String × TransactionCoordinator :=
  if c.transactions.any fun _ t => t.producerId = producerId && t.isActive then
    (.error "Producer already has an active transaction", c)
  else
    (.ok uuid,
      { c with
        transactions := c.transactions.insert uuid
          (Transaction.new uuid producerId c.defaultTimeout now)
        producers := match c.producers.lookup producerId with
          | some _ => c.producers
          | none => c.producers.insert producerId (ProducerState.new producerId now') })

/-- Run `f` on the transaction found under `transactionId` and write it back:
the shape of the four operations below. -/
def onTransaction {β : Type} (c : TransactionCoordinator) (transactionId : String)
    (f : Transaction → Except String β × Transaction) :
    Except String β × TransactionCoordinator :=
  match c.transactions.lookup transactionId with
  | some t =>
      ((f t).1, { c with transactions := c.transactions.insert transactionId (f t).2 })
  | none => (.error "Transaction not found", c)

/-- `TransactionCoordinator::add_write`. -/
def addWrite (c : TransactionCoordinator) (transactionId : String)
    (write : TransactionalWrite) (now : SystemTime) :
    Except String Unit × TransactionCoordinator :=
  c.onTransaction transactionId fun t => t.timedAddWrite write now

/-- `TransactionCoordinator::prepare_transaction`. -/
def prepareTransaction (c : TransactionCoordinator) (transactionId : String)
    (now : SystemTime) : Except String Unit × TransactionCoordinator :=
  c.onTransaction transactionId fun t => t.prepare now

/-- `TransactionCoordinator::commit_transaction`. -/
def commitTransaction (c : TransactionCoordinator) (transactionId : String) :
    Except String (List TransactionalWrite) × TransactionCoordinator :=
  c.onTransaction transactionId Transaction.commit

/-- `TransactionCoordinator::abort_transaction`. -/
def abortTransaction (c : TransactionCoordinator) (transactionId : String) :
    Except String Unit × TransactionCoordinator :=
  c.onTransaction transactionId Transaction.abort

/-- `TransactionCoordinator::cleanup_old_transactions`; `clock id` is the
reading made when the transaction `id` is visited. -/
def cleanupOldTransactions (c : TransactionCoordinator) (clock : String → SystemTime) :
    TransactionCoordinator :=
  { c with
    transactions := c.transactions.retain fun id t => t.isActive || !t.isTimedOut (clock id) }

end TransactionCoordinator

/-! ### Runs

The run records, beside the coordinator, the ids drawn so far and the
transactions whose prepare, commit or abort has succeeded; no operation
reads the records. -/

/-- One call on the coordinator with the clock readings it makes. -/
inductive TxnOp
  | beginTransaction (producerId uuid : String) (now now' : SystemTime)
  | addWrite (transactionId : String) (write : TransactionalWrite) (now : SystemTime)
  | prepareTransaction (transactionId : String) (now : SystemTime)
  | commitTransaction (transactionId : String)
  | abortTransaction (transactionId : String)
  | cleanupOldTransactions (clock : String → SystemTime)

/-- The transaction whose deadline the call checks, and the clock reading it
checks it with. -/
def TxnOp.checksDeadline : TxnOp → Option (String × SystemTime)
  | .addWrite id _ now => some (id, now)
  | .prepareTransaction id now => some (id, now)
  | _ => none

/-- A coordinator with the record of its run. -/
structure TxnRun where
  coordinator : TransactionCoordinator
  used : List String
  prepared : List String
  committed : List String
  aborted : List String

namespace TxnRun

/-- A coordinator that has not been called yet. -/
def init : TxnRun := ⟨.new, [], [], [], []⟩

/-- The transaction found under `id`. -/
def txn (r : TxnRun) (id : String) : Option Transaction :=
  r.coordinator.transactions.lookup id

/-- Add `id` to a record if the call succeeded. -/
def record {β : Type} (result : Except String β) (id : String) (l : List String) :
    List String :=
  if result.isOk then id :: l else l

/-- The run after one more call. -/
def step (r : TxnRun) : TxnOp → TxnRun
  | .beginTransaction p uuid now now' =>
      let (result, c) := r.coordinator.beginTransaction p uuid now now'
      { r with coordinator := c, used := record result uuid r.used }
  | .addWrite id w now =>
      { r with coordinator := (r.coordinator.addWrite id w now).2 }
  | .prepareTransaction id now =>
      let (result, c) := r.coordinator.prepareTransaction id now
      { r with coordinator := c, prepared := record result id r.prepared }
  | .commitTransaction id =>
      let (result, c) := r.coordinator.commitTransaction id
      { r with coordinator := c, committed := record result id r.committed }
  | .abortTransaction id =>
      let (result, c) := r.coordinator.abortTransaction id
      { r with coordinator := c, aborted := record result id r.aborted }
  | .cleanupOldTransactions clock =>
      { r with coordinator := r.coordinator.cleanupOldTransactions clock }

/-! ### The properties -/

/-- The call commits or aborts `id` successfully. -/
def Decides (r : TxnRun) (id : String) : TxnOp → Prop
  | .commitTransaction id' => id' = id ∧ (r.coordinator.commitTransaction id').1.isOk
  | .abortTransaction id' => id' = id ∧ (r.coordinator.abortTransaction id').1.isOk
  | _ => False

/-- The call respects every decision made so far: the state of a transaction
whose prepare succeeded changes only if the call decides it, a prepared
transaction is not dropped, and a committed one keeps its state and its
writes as long as it is kept at all. -/
structure Respects (r : TxnRun) (op : TxnOp) : Prop where
  changed : ∀ id ∈ r.prepared, ∀ t t', r.txn id = some t → (r.step op).txn id = some t' →
    t'.state ≠ t.state → r.Decides id op
  kept : ∀ id t, r.txn id = some t → t.state = .prepared → (r.step op).txn id ≠ none
  committed : ∀ id t t', r.txn id = some t → t.state = .committed →
    (r.step op).txn id = some t' → t'.state = .committed ∧ t'.writes = t.writes

/-- No transaction was both committed and aborted. -/
def NeverBoth (r : TxnRun) : Prop := ∀ id ∈ r.committed, id ∉ r.aborted

/-- `begin_transaction` draws an id that was not drawn before
(`Uuid::new_v4`). -/
def FreshId (r : TxnRun) : TxnOp → Prop
  | .beginTransaction _ uuid _ _ => uuid ∉ r.used
  | _ => True

/-- `add_write` and `prepare_transaction` do not find a transaction that has
been prepared past its deadline. -/
def Timely (r : TxnRun) (op : TxnOp) : Prop :=
  ∀ id now, op.checksDeadline = some (id, now) → id ∈ r.prepared →
    ∀ t, r.txn id = some t → t.isTimedOut now = false

end TxnRun

/-! ### What a call does to one transaction -/

/-- The transaction `t` under `id` after the call, if it is still there; the
id a `begin_transaction` draws is taken to be another one. -/
def TxnOp.effect (id : String) (t : Transaction) : TxnOp → Option Transaction
  | .beginTransaction .. => some t
  | .addWrite id' w now => some (if id = id' then (t.timedAddWrite w now).2 else t)
  | .prepareTransaction id' now => some (if id = id' then (t.prepare now).2 else t)
  | .commitTransaction id' => some (if id = id' then t.commit.2 else t)
  | .abortTransaction id' => some (if id = id' then t.abort.2 else t)
  | .cleanupOldTransactions clock =>
      if t.isActive || !t.isTimedOut (clock id) then some t else none

/-- How `t` came out of a call as `t'`: untouched but for an accepted write,
marked as timed out, prepared, committed or aborted. -/
inductive Transition (id : String) (t t' : Transaction) : TxnOp → Prop
  | same {op : TxnOp} (state_eq : t'.state = t.state)
      (writes_eq : t.state ≠ .preparing → t'.writes = t.writes) : Transition id t t' op
  | late {op : TxnOp} {now : SystemTime} (checks : op.checksDeadline = some (id, now))
      (timedOut : t.isTimedOut now = true) (state_eq : t'.state = .timedOut) :
      Transition id t t' op
  | prepared {now : SystemTime} (inTime : t.isTimedOut now = false)
      (before : t.state = .preparing) (state_eq : t'.state = .prepared) :
      Transition id t t' (.prepareTransaction id now)
  | committed (before : t.state = .prepared) (state_eq : t'.state = .committed) :
      Transition id t t' (.commitTransaction id)
  | aborted (before : t.state ≠ .committed) (state_eq : t'.state = .aborted) :
      Transition id t t' (.abortTransaction id)

namespace Transition

variable {id : String} {t : Transaction}

/-- A call that names another transaction leaves this one alone. -/
theorem of_ite {op : TxnOp} {id' : String} {t₁ : Transaction}
    (h : id = id' → Transition id t t₁ op) :
    Transition id t (if id = id' then t₁ else t) op := by
  by_cases hid : id = id'
  · rw [if_pos hid]
    exact h hid
  · rw [if_neg hid]
    exact .same rfl fun _ => rfl

theorem timedAddWrite (w : TransactionalWrite) (now : SystemTime) :
    Transition id t (t.timedAddWrite w now).2 (.addWrite id w now) := by
  by_cases hlate : t.isTimedOut now = true
  · -- the deadline is checked first, whatever the state is
    exact .late rfl hlate (by simp [Transaction.timedAddWrite, hlate])
  · by_cases hs : t.state = .preparing
    · refine .same ?_ fun hne => absurd hs hne
      simp [Transaction.timedAddWrite, Transaction.addWrite, hlate, hs]
    · have hsame : (t.timedAddWrite w now).2 = t := by
        simp [Transaction.timedAddWrite, Transaction.addWrite, hlate, hs]
      rw [hsame]
      exact .same rfl fun _ => rfl

theorem prepare (now : SystemTime) :
    Transition id t (t.prepare now).2 (.prepareTransaction id now) := by
  by_cases hlate : t.isTimedOut now = true
  · -- the same here
    exact .late rfl hlate (by simp [Transaction.prepare, hlate])
  · by_cases hs : t.state = .preparing
    · exact .prepared (by simpa using hlate) hs (by simp [Transaction.prepare, hlate, hs])
    · have hsame : (t.prepare now).2 = t := by simp [Transaction.prepare, hlate, hs]
      rw [hsame]
      exact .same rfl fun _ => rfl

theorem commit : Transition id t t.commit.2 (.commitTransaction id) := by
  by_cases hs : t.state = .prepared
  · exact .committed hs (by simp [Transaction.commit, hs])
  · have hsame : t.commit.2 = t := by simp [Transaction.commit, hs]
    rw [hsame]
    exact .same rfl fun _ => rfl

theorem abort : Transition id t t.abort.2 (.abortTransaction id) := by
  by_cases hs : t.state = .committed
  · have hsame : t.abort.2 = t := by simp [Transaction.abort, hs]
    rw [hsame]
    exact .same rfl fun _ => rfl
  · exact .aborted hs (by simp [Transaction.abort, hs])

theorem of_effect {t' : Transaction} {op : TxnOp} (h : op.effect id t = some t') :
    Transition id t t' op := by
  cases op with
  | beginTransaction p uuid now now' =>
      obtain rfl := Option.some.inj h
      exact .same rfl fun _ => rfl
  | addWrite id' w now =>
      obtain rfl := Option.some.inj h
      exact .of_ite fun hid => hid ▸ .timedAddWrite w now
  | prepareTransaction id' now =>
      obtain rfl := Option.some.inj h
      exact .of_ite fun hid => hid ▸ .prepare now
  | commitTransaction id' =>
      obtain rfl := Option.some.inj h
      exact .of_ite fun hid => hid ▸ .commit
  | abortTransaction id' =>
      obtain rfl := Option.some.inj h
      exact .of_ite fun hid => hid ▸ .abort
  | cleanupOldTransactions clock =>
      simp only [TxnOp.effect] at h
      split at h
      · obtain rfl := Option.some.inj h
        exact .same rfl fun _ => rfl
      · cases h

end Transition

namespace TransactionCoordinator

variable {β : Type} (c : TransactionCoordinator)

theorem lookup_onTransaction (id id' : String)
    (f : Transaction → Except String β × Transaction) :
    (c.onTransaction id f).2.transactions.lookup id' =
      if id' = id then (c.transactions.lookup id).map fun t => (f t).2
      else c.transactions.lookup id' := by
  unfold onTransaction
  rcases e : c.transactions.lookup id with - | t
  · exact (HashMap.ite_lookup_eq e).symm
  · exact HashMap.lookup_insert_eq ..

theorem onTransaction_isOk (id : String)
    (f : Transaction → Except String β × Transaction) :
    (c.onTransaction id f).1.isOk = true ↔
      ∃ t, c.transactions.lookup id = some t ∧ (f t).1.isOk = true := by
  unfold onTransaction
  rcases e : c.transactions.lookup id with - | t
  · simp [Except.isOk, Except.toBool]
  · simp

end TransactionCoordinator

namespace Transaction

variable (t : Transaction)

theorem prepare_isOk (now : SystemTime) :
    (t.prepare now).1.isOk = true ↔ t.isTimedOut now = false ∧ t.state = .preparing := by
  unfold prepare
  split
  · simp_all [Except.isOk, Except.toBool]
  · split <;> simp_all [Except.isOk, Except.toBool]

theorem commit_isOk : t.commit.1.isOk = true ↔ t.state = .prepared := by
  unfold commit
  split <;> simp_all [Except.isOk, Except.toBool]

theorem abort_isOk : t.abort.1.isOk = true ↔ t.state ≠ .committed := by
  unfold abort
  split <;> simp_all [Except.isOk, Except.toBool]

end Transaction

namespace TxnRun

variable {r : TxnRun} {op : TxnOp} {id : String} {t : Transaction}

theorem mem_record {β : Type} {result : Except String β} {id id' : String} {l : List String} :
    id ∈ record result id' l ↔ id ∈ l ∨ id = id' ∧ result.isOk = true := by
  unfold record
  split
  · rename_i h
    simp [h, or_comm]
  · rename_i h
    simp [h]

theorem beginTransaction_cases (c : TransactionCoordinator) (p uuid : String)
    (now now' : SystemTime) :
    (c.beginTransaction p uuid now now').2 = c ∧
        (c.beginTransaction p uuid now now').1.isOk = false ∨
      (c.beginTransaction p uuid now now').2.transactions =
          c.transactions.insert uuid (Transaction.new uuid p c.defaultTimeout now) ∧
        (c.beginTransaction p uuid now now').1.isOk = true := by
  unfold TransactionCoordinator.beginTransaction
  split
  · exact .inl ⟨rfl, rfl⟩
  · exact .inr ⟨rfl, rfl⟩

/-- A transaction in the table comes out of a call as `TxnOp.effect` says. -/
theorem txn_step (h : r.txn id = some t)
    (hne : ∀ p now now', op ≠ .beginTransaction p id now now') :
    (r.step op).txn id = op.effect id t := by
  have h' : r.coordinator.transactions.lookup id = some t := h
  -- the four calls that work on one transaction
  have hon : ∀ {β : Type} (id' : String) (f : Transaction → Except String β × Transaction),
      (r.coordinator.onTransaction id' f).2.transactions.lookup id =
        some (if id = id' then (f t).2 else t) := by
    intro β id' f
    rw [TransactionCoordinator.lookup_onTransaction]
    by_cases hid : id = id'
    · subst hid
      rw [if_pos rfl, if_pos rfl, h', Option.map_some]
    · rw [if_neg hid, if_neg hid, h']
  cases op with
  | beginTransaction p uuid now now' =>
      have hid : id ≠ uuid := by
        rintro rfl
        exact hne p now now' rfl
      rcases beginTransaction_cases r.coordinator p uuid now now' with ⟨hc, -⟩ | ⟨hc, -⟩
      · simp only [step, txn, hc, TxnOp.effect, h']
      · simp only [step, txn, hc, TxnOp.effect, HashMap.lookup_insert_eq, if_neg hid, h']
  | addWrite id' w now => exact hon id' _
  | prepareTransaction id' now => exact hon id' _
  | commitTransaction id' => exact hon id' _
  | abortTransaction id' => exact hon id' _
  | cleanupOldTransactions clock =>
      simp only [step, txn, TransactionCoordinator.cleanupOldTransactions,
        HashMap.lookup_retain, h', Option.filter, TxnOp.effect]

/-- A transaction enters the table only as a new one. -/
theorem txn_step_none (h : r.txn id = none) (h' : (r.step op).txn id = some t) :
    t.state = .preparing ∧ id ∈ (r.step op).used ∧
      ∃ p now now', op = .beginTransaction p id now now' := by
  have e : r.coordinator.transactions.lookup id = none := h
  -- only `begin_transaction` inserts
  have hon : ∀ {β : Type} (id' : String) (f : Transaction → Except String β × Transaction),
      (r.coordinator.onTransaction id' f).2.transactions.lookup id = none := by
    intro β id' f
    rw [TransactionCoordinator.lookup_onTransaction]
    by_cases hid : id = id'
    · subst hid
      rw [if_pos rfl, e, Option.map_none]
    · rw [if_neg hid, e]
  cases op with
  | beginTransaction p uuid now now' =>
      simp only [step, txn] at h' ⊢
      rcases beginTransaction_cases r.coordinator p uuid now now' with ⟨hc, -⟩ | ⟨hc, hok⟩
      · rw [hc, e] at h'
        cases h'
      · rw [hc, HashMap.lookup_insert_eq] at h'
        by_cases hid : id = uuid
        · subst hid
          rw [if_pos rfl] at h'
          obtain rfl := Option.some.inj h'
          exact ⟨rfl, mem_record.mpr (.inr ⟨rfl, hok⟩), p, now, now', rfl⟩
        · rw [if_neg hid, e] at h'
          cases h'
  | addWrite id' w now => exact absurd ((hon id' _).symm.trans h') (by simp)
  | prepareTransaction id' now => exact absurd ((hon id' _).symm.trans h') (by simp)
  | commitTransaction id' => exact absurd ((hon id' _).symm.trans h') (by simp)
  | abortTransaction id' => exact absurd ((hon id' _).symm.trans h') (by simp)
  | cleanupOldTransactions clock =>
      simp only [step, txn, TransactionCoordinator.cleanupOldTransactions,
        HashMap.lookup_retain, e, Option.filter] at h'
      cases h'

/-! ### What a call records -/

theorem mem_prepared_step (h : id ∈ (r.step op).prepared) :
    id ∈ r.prepared ∨ ∃ now t, op = .prepareTransaction id now ∧ r.txn id = some t ∧
      t.isTimedOut now = false ∧ t.state = .preparing := by
  cases op with
  | prepareTransaction id' now =>
      rcases mem_record.mp h with h | ⟨rfl, hok⟩
      · exact .inl h
      · obtain ⟨t, ht, hok⟩ := (r.coordinator.onTransaction_isOk _ _).mp hok
        exact .inr ⟨now, t, rfl, ht, (t.prepare_isOk now).mp hok⟩
  | _ => exact .inl h

theorem mem_committed_step (h : id ∈ (r.step op).committed) :
    id ∈ r.committed ∨ ∃ t, op = .commitTransaction id ∧ r.txn id = some t ∧
      t.state = .prepared := by
  cases op with
  | commitTransaction id' =>
      rcases mem_record.mp h with h | ⟨rfl, hok⟩
      · exact .inl h
      · obtain ⟨t, ht, hok⟩ := (r.coordinator.onTransaction_isOk _ _).mp hok
        exact .inr ⟨t, rfl, ht, t.commit_isOk.mp hok⟩
  | _ => exact .inl h

theorem mem_aborted_step (h : id ∈ (r.step op).aborted) :
    id ∈ r.aborted ∨ ∃ t, op = .abortTransaction id ∧ r.txn id = some t ∧
      t.state ≠ .committed := by
  cases op with
  | abortTransaction id' =>
      rcases mem_record.mp h with h | ⟨rfl, hok⟩
      · exact .inl h
      · obtain ⟨t, ht, hok⟩ := (r.coordinator.onTransaction_isOk _ _).mp hok
        exact .inr ⟨t, rfl, ht, t.abort_isOk.mp hok⟩
  | _ => exact .inl h

theorem prepared_step_subset (h : id ∈ r.prepared) (op : TxnOp) :
    id ∈ (r.step op).prepared := by
  cases op with
  | prepareTransaction id' now => exact mem_record.mpr (.inl h)
  | _ => exact h

theorem used_step_subset (h : id ∈ r.used) (op : TxnOp) : id ∈ (r.step op).used := by
  cases op with
  | beginTransaction p uuid now now' => exact mem_record.mpr (.inl h)
  | _ => exact h

end TxnRun

/-! ### The invariant -/

namespace TxnRun

variable {r : TxnRun} {op : TxnOp} {id : String} {t t' : Transaction}

/-- What every timely run with fresh ids keeps.  The records tell the state
of a transaction as far as the properties need it: the prepared ones are
past `preparing` and not timed out, the committed ones are committed, the
aborted ones are aborted or timed out. -/
structure Tracked (r : TxnRun) : Prop where
  used_of_txn : ∀ id t, r.txn id = some t → id ∈ r.used
  used_of_prepared : ∀ id ∈ r.prepared, id ∈ r.used
  used_of_aborted : ∀ id ∈ r.aborted, id ∈ r.used
  prepared_of_state : ∀ id t, r.txn id = some t →
    t.state = .prepared ∨ t.state = .committed → id ∈ r.prepared
  prepared_of_committed : ∀ id ∈ r.committed, id ∈ r.prepared
  state_of_prepared : ∀ id ∈ r.prepared, ∀ t, r.txn id = some t →
    t.state ≠ .preparing ∧ t.state ≠ .timedOut
  state_of_committed : ∀ id ∈ r.committed, ∀ t, r.txn id = some t → t.state = .committed
  state_of_aborted : ∀ id ∈ r.aborted, ∀ t, r.txn id = some t →
    t.state = .aborted ∨ t.state = .timedOut
  neverBoth : r.NeverBoth

theorem tracked_init : init.Tracked where
  used_of_txn := by
    intro id t h
    simp [txn, init, TransactionCoordinator.new] at h
  used_of_prepared := by
    intro id h
    cases h
  used_of_aborted := by
    intro id h
    cases h
  prepared_of_state := by
    intro id t h
    simp [txn, init, TransactionCoordinator.new] at h
  prepared_of_committed := by
    intro id h
    cases h
  state_of_prepared := by
    intro id h
    cases h
  state_of_committed := by
    intro id h
    cases h
  state_of_aborted := by
    intro id h
    cases h
  neverBoth := by
    intro id h
    cases h

/-- A fresh id is not that of a transaction in the table. -/
theorem Tracked.not_begin (hr : r.Tracked) (hfresh : r.FreshId op) (h : r.txn id = some t)
    (p : String) (now now' : SystemTime) : op ≠ .beginTransaction p id now now' := by
  rintro rfl
  exact hfresh (hr.used_of_txn id t h)

/-- A transaction in the table after the call has made a `Transition`, or is
a new one whose id no record mentions. -/
theorem Tracked.transition (hr : r.Tracked) (hfresh : r.FreshId op)
    (h' : (r.step op).txn id = some t') :
    (∃ t, r.txn id = some t ∧ Transition id t t' op) ∨
      (t'.state = .preparing ∧ id ∉ r.used ∧ id ∈ (r.step op).used ∧
        ∃ p now now', op = .beginTransaction p id now now') := by
  rcases e : r.txn id with - | t
  · obtain ⟨hs, hused, p, now, now', rfl⟩ := txn_step_none e h'
    exact .inr ⟨hs, hfresh, hused, p, now, now', rfl⟩
  · rw [txn_step e (hr.not_begin hfresh e)] at h'
    exact .inl ⟨t, rfl, .of_effect h'⟩

theorem Tracked.state_of_prepared_step (hr : r.Tracked) (hfresh : r.FreshId op)
    (htime : r.Timely op) (hid : id ∈ (r.step op).prepared)
    (h' : (r.step op).txn id = some t') : t'.state ≠ .preparing ∧ t'.state ≠ .timedOut := by
  rcases mem_prepared_step hid with hold | ⟨now, t, rfl, ht, hin, hs⟩
  · -- prepared before: the only way to `timedOut` is a late call
    rcases hr.transition hfresh h' with ⟨t, ht, htrans⟩ | ⟨-, hused, -⟩
    · obtain ⟨hne, hnt⟩ := hr.state_of_prepared id hold t ht
      cases htrans with
      | same hs _ => exact hs ▸ ⟨hne, hnt⟩
      | late hop hlate _ => simp [htime id _ hop hold t ht] at hlate
      | prepared _ hbefore _ => exact absurd hbefore hne
      | committed _ hs => simp [hs]
      | aborted _ hs => simp [hs]
    · exact absurd (hr.used_of_prepared id hold) hused
  · -- prepared by this very call
    rw [txn_step ht (hr.not_begin hfresh ht)] at h'
    simp only [TxnOp.effect, if_true, Transaction.prepare, hin, hs, Option.some.injEq] at h'
    subst h'
    simp

theorem Tracked.prepared_of_state_step (hr : r.Tracked) (hfresh : r.FreshId op)
    (h' : (r.step op).txn id = some t')
    (hs' : t'.state = .prepared ∨ t'.state = .committed) : id ∈ (r.step op).prepared := by
  rcases hr.transition hfresh h' with ⟨t, ht, htrans⟩ | ⟨hs, -⟩
  · cases htrans with
    | same hs _ =>
        exact prepared_step_subset (hr.prepared_of_state id t ht (hs ▸ hs')) op
    | late _ _ hs => simp [hs] at hs'
    | prepared hin hbefore _ =>
        refine mem_record.mpr (.inr ⟨rfl, ?_⟩)
        exact (r.coordinator.onTransaction_isOk _ _).mpr
          ⟨t, ht, (t.prepare_isOk _).mpr ⟨hin, hbefore⟩⟩
    | committed hbefore _ =>
        exact prepared_step_subset (hr.prepared_of_state id t ht (.inl hbefore)) _
    | aborted _ hs => simp [hs] at hs'
  · simp [hs] at hs'

theorem Tracked.state_of_committed_step (hr : r.Tracked) (hfresh : r.FreshId op)
    (htime : r.Timely op) (hid : id ∈ (r.step op).committed)
    (h' : (r.step op).txn id = some t') : t'.state = .committed := by
  rcases mem_committed_step hid with hold | ⟨t, rfl, ht, hs⟩
  · have hprep := hr.prepared_of_committed id hold
    rcases hr.transition hfresh h' with ⟨t, ht, htrans⟩ | ⟨-, hused, -⟩
    · have hc := hr.state_of_committed id hold t ht
      cases htrans with
      | same hs _ => rw [hs, hc]
      | late hop hlate _ => simp [htime id _ hop hprep t ht] at hlate
      | prepared _ hbefore _ => simp [hc] at hbefore
      | committed _ hs => exact hs
      | aborted hbefore _ => exact absurd hc hbefore
    · exact absurd (hr.used_of_prepared id hprep) hused
  · rw [txn_step ht (hr.not_begin hfresh ht)] at h'
    simp only [TxnOp.effect, if_true, Transaction.commit, hs, Option.some.injEq] at h'
    subst h'
    simp

theorem Tracked.state_of_aborted_step (hr : r.Tracked) (hfresh : r.FreshId op)
    (hid : id ∈ (r.step op).aborted) (h' : (r.step op).txn id = some t') :
    t'.state = .aborted ∨ t'.state = .timedOut := by
  rcases mem_aborted_step hid with hold | ⟨t, rfl, ht, hs⟩
  · rcases hr.transition hfresh h' with ⟨t, ht, htrans⟩ | ⟨-, hused, -⟩
    · have ha := hr.state_of_aborted id hold t ht
      cases htrans with
      | same hs _ => rwa [hs]
      | late _ _ hs => exact .inr hs
      | prepared _ hbefore _ => simp [hbefore] at ha
      | committed hbefore _ => simp [hbefore] at ha
      | aborted _ hs => exact .inl hs
    · exact absurd (hr.used_of_aborted id hold) hused
  · rw [txn_step ht (hr.not_begin hfresh ht)] at h'
    simp only [TxnOp.effect, if_true, Transaction.abort, hs, if_false, Option.some.injEq] at h'
    subst h'
    exact .inl rfl

theorem Tracked.neverBoth_step (hr : r.Tracked) : (r.step op).NeverBoth := by
  intro id hc ha
  -- each call decides at most one way, so one of the two was earlier
  rcases mem_committed_step hc with hc | ⟨t, rfl, ht, hs⟩
  · rcases mem_aborted_step ha with ha | ⟨t, rfl, ht, hs⟩
    · exact hr.neverBoth id hc ha
    · exact hs (hr.state_of_committed id hc t ht)
  · rcases mem_aborted_step ha with ha | ⟨t', hop, -⟩
    · rcases hr.state_of_aborted id ha t ht with h | h <;> simp [hs] at h
    · cases hop

theorem Tracked.step (hr : r.Tracked) (hfresh : r.FreshId op) (htime : r.Timely op) :
    (r.step op).Tracked where
  used_of_txn := by
    intro id t' h'
    rcases hr.transition hfresh h' with ⟨t, ht, -⟩ | ⟨-, -, hused, -⟩
    · exact used_step_subset (hr.used_of_txn id t ht) op
    · exact hused
  used_of_prepared := by
    intro id hid
    rcases mem_prepared_step hid with hold | ⟨now, t, rfl, ht, -⟩
    · exact used_step_subset (hr.used_of_prepared id hold) op
    · exact used_step_subset (hr.used_of_txn id t ht) _
  used_of_aborted := by
    intro id hid
    rcases mem_aborted_step hid with hold | ⟨t, rfl, ht, -⟩
    · exact used_step_subset (hr.used_of_aborted id hold) op
    · exact used_step_subset (hr.used_of_txn id t ht) _
  prepared_of_state := fun _ _ h' hs => hr.prepared_of_state_step hfresh h' hs
  prepared_of_committed := by
    intro id hid
    rcases mem_committed_step hid with hold | ⟨t, rfl, ht, hs⟩
    · exact prepared_step_subset (hr.prepared_of_committed id hold) op
    · exact prepared_step_subset (hr.prepared_of_state id t ht (.inl hs)) _
  state_of_prepared := fun _ hid _ h' => hr.state_of_prepared_step hfresh htime hid h'
  state_of_committed := fun _ hid _ h' => hr.state_of_committed_step hfresh htime hid h'
  state_of_aborted := fun _ hid _ h' => hr.state_of_aborted_step hfresh hid h'
  neverBoth := hr.neverBoth_step

/-! ### A decided transaction stays decided -/

theorem effect_ne_none_of_prepared (hs : t.state = .prepared) (op : TxnOp) :
    op.effect id t ≠ none := by
  cases op with
  | cleanupOldTransactions clock =>
      have hactive : t.isActive = true := by simp [Transaction.isActive, hs]
      simp [TxnOp.effect, hactive]
  | _ => simp [TxnOp.effect]

theorem Tracked.respects (hr : r.Tracked) (hfresh : r.FreshId op) (htime : r.Timely op) :
    r.Respects op where
  changed := by
    intro id hid t t' ht h' hne
    rw [txn_step ht (hr.not_begin hfresh ht)] at h'
    cases Transition.of_effect h' with
    | same hs _ => exact absurd hs hne
    | late hop hlate _ => simp [htime id _ hop hid t ht] at hlate
    | prepared _ hbefore _ => exact absurd hbefore (hr.state_of_prepared id hid t ht).1
    | committed hbefore _ =>
        exact ⟨rfl, (r.coordinator.onTransaction_isOk _ _).mpr
          ⟨t, ht, t.commit_isOk.mpr hbefore⟩⟩
    | aborted hbefore _ =>
        exact ⟨rfl, (r.coordinator.onTransaction_isOk _ _).mpr
          ⟨t, ht, t.abort_isOk.mpr hbefore⟩⟩
  kept := by
    intro id t ht hs
    rw [txn_step ht (hr.not_begin hfresh ht)]
    exact effect_ne_none_of_prepared hs op
  committed := by
    intro id t t' ht hs h'
    have hprep := hr.prepared_of_state id t ht (.inr hs)
    rw [txn_step ht (hr.not_begin hfresh ht)] at h'
    cases Transition.of_effect h' with
    | same hs' hw => exact ⟨hs'.trans hs, hw (by simp [hs])⟩
    | late hop hlate _ => simp [htime id _ hop hprep t ht] at hlate
    | prepared _ hbefore _ => simp [hs] at hbefore
    | committed hbefore _ => simp [hs] at hbefore
    | aborted hbefore _ => exact absurd hs hbefore

/-- A late call on a prepared transaction changes its state and decides
nothing. -/
theorem Tracked.timely (hr : r.Tracked) (hfresh : r.FreshId op) (h : r.Respects op) :
    r.Timely op := by
  intro id now hop hid t ht
  by_contra hlate
  simp only [Bool.not_eq_false] at hlate
  -- the call would move the transaction to `timedOut`, where it was not before
  have hne := (hr.state_of_prepared id hid t ht).2
  have hstep := txn_step ht (hr.not_begin hfresh ht)
  cases op with
  | addWrite id' w now' =>
      obtain ⟨rfl, rfl⟩ := Prod.mk.inj (Option.some.inj hop)
      simp only [TxnOp.effect, if_true, Transaction.timedAddWrite, hlate] at hstep
      exact h.changed id' hid t _ ht hstep hne.symm
  | prepareTransaction id' now' =>
      obtain ⟨rfl, rfl⟩ := Prod.mk.inj (Option.some.inj hop)
      simp only [TxnOp.effect, if_true, Transaction.prepare, hlate] at hstep
      exact h.changed id' hid t _ ht hstep hne.symm
  | _ => cases hop

/-- **A decided transaction stays decided exactly in timely runs.**  In a run
with fresh ids, every call respects the decisions made before it and no
transaction is both committed and aborted, if and only if no `add_write` or
`prepare_transaction` finds a prepared transaction past its deadline. -/
theorem decided_iff (ops : List TxnOp) (hfresh : Along step FreshId init ops) :
    (Along step Respects init ops ∧ Always step NeverBoth init ops) ↔
      Along step Timely init ops := by
  constructor
  · rintro ⟨hresp, -⟩
    refine Along.of_along tracked_init (hfresh.and hresp) ?_ ?_
    · intro r op hr hop
      exact hr.step hop.1 (hr.timely hop.1 hop.2)
    · intro r op hr hop
      exact hr.timely hop.1 hop.2
  · intro htime
    have hboth := hfresh.and htime
    refine ⟨?_, ?_⟩
    · exact Along.of_along tracked_init hboth (fun _ _ hr hop => hr.step hop.1 hop.2)
        (fun _ _ hr hop => hr.respects hop.1 hop.2)
    · apply (Always.of_along tracked_init hboth fun _ _ hr hop => hr.step hop.1 hop.2).mono
      intro r hr
      exact hr.neverBoth

/-- The clock `secs` seconds after the epoch. -/
def clockAt (secs : Fin 1000) : SystemTime :=
  ⟨secs * 10 ^ 9, by have := secs.isLt; omega, by have := secs.isLt; omega⟩

/-- A transaction is begun, prepared and committed in time. -/
def commitRun : List TxnOp :=
  [.beginTransaction "p" "t" (clockAt 0) (clockAt 0),
   .prepareTransaction "t" (clockAt 1),
   .commitTransaction "t"]

/-- `decided_iff` at `commitRun`. -/
theorem commitRun_decided :
    Along step FreshId init commitRun ∧
      Along step Respects init commitRun ∧ Always step NeverBoth init commitRun := by
  have hfresh : Along step FreshId init commitRun :=
    ⟨List.not_mem_nil, trivial, trivial, trivial⟩
  refine ⟨hfresh, (decided_iff commitRun hfresh).mpr ⟨?_, ?_, ?_, trivial⟩⟩
  · intro id now hop
    cases hop
  · intro id now _ hid
    exact absurd hid List.not_mem_nil
  · intro id now hop
    cases hop

/-- `commitRun`, then a write after the transaction's 60 seconds, then an
abort. -/
def lateWriteRun : List TxnOp :=
  commitRun ++
    [.addWrite "t" ⟨"topic", 0, "k", [], none⟩ (clockAt 61), .abortTransaction "t"]

/-- After `lateWriteRun` the transaction has been committed and aborted. -/
theorem late_write_undoes_commit :
    (lateWriteRun.foldl step init).committed = ["t"] ∧
      (lateWriteRun.foldl step init).aborted = ["t"] ∧
      ¬ ∀ ops, Along step FreshId init ops →
        Along step Respects init ops ∧ Always step NeverBoth init ops := by
  have hc : (lateWriteRun.foldl step init).committed = ["t"] := by decide
  have ha : (lateWriteRun.foldl step init).aborted = ["t"] := by decide
  refine ⟨hc, ha, fun h => ?_⟩
  have hfresh : Along step FreshId init lateWriteRun := by
    refine ⟨?_, trivial, trivial, trivial, trivial, trivial⟩
    exact List.not_mem_nil
  have hboth := (h lateWriteRun hfresh).2.last "t"
  rw [hc, ha] at hboth
  exact hboth List.mem_cons_self List.mem_cons_self

end TxnRun

end Rafka
