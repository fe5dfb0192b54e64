/-
Rafka/PolicyChange.lean

Changing the retention policy (`Storage::update_retention_policy` in
`crates/storage/src/db.rs`).

The policy of the storage is copied into a queue when its partition is created, and a
queue checks its messages against the copy.  A change sets the policy of the storage and
then has every queue check its messages, each against the copy it has.

`Binds policy s` says what a change should do: once it has returned, every partition keeps
to the new policy, and so does every later append.  Main result (`binds_when_within`): it
does if every partition has been created under a policy that allows no more than the new
one; and as far as counters, clock and payloads have room for it, only then.
-/
import Rafka.Retention
import Rafka.ConsumerOffsets

namespace Rafka

/-! ### A check of a queue -/

namespace PartitionQueue

/-- The retention check at `now`. -/
def check (policy : RetentionPolicy) (now : EpochTime) : Expiry.Check MessageEntry where
  size e := e.payload.len
  age? e := now.durationSince e.timestamp
  maxAge := policy.maxAge
  maxTotal := policy.maxBytes

/-- The message is older than the policy allows. -/
def TooOld (policy : RetentionPolicy) (now : EpochTime) (e : MessageEntry) : Prop :=
  ∃ age, now.durationSince e.timestamp = some age ∧ policy.maxAge < age

/-- The queue keeps to a policy at `now`.  The first message is taken for the
oldest one, as in `get_metrics`; if the stamps rise along the queue, no message
at all is too old. -/
structure Honours (q : PartitionQueue) (policy : RetentionPolicy) (now : EpochTime) : Prop where
  bytes : payloadBytes q.messages ≤ policy.maxBytes
  oldest : ∀ first ∈ q.messages.head?, ¬ TooOld policy now first
  inOrder : q.messages.Pairwise (fun a b => a.timestamp.nanos ≤ b.timestamp.nanos) →
    ∀ e ∈ q.messages, ¬ TooOld policy now e

/-- No message is stamped after `now`. -/
def Timely (q : PartitionQueue) (now : EpochTime) : Prop :=
  ∀ e ∈ q.messages, e.timestamp.nanos ≤ now.nanos

end PartitionQueue

/-- The policy allows no more than `policy'`. -/
structure RetentionPolicy.Within (policy policy' : RetentionPolicy) : Prop where
  maxBytes : policy.maxBytes ≤ policy'.maxBytes
  maxAge : policy.maxAge ≤ policy'.maxAge

theorem RetentionPolicy.Within.refl (policy : RetentionPolicy) : policy.Within policy :=
  ⟨Nat.le_refl _, Nat.le_refl _⟩

namespace PartitionQueue

variable {q : PartitionQueue} {policy : RetentionPolicy} {now : EpochTime}

theorem durationSince_eq_some {t : EpochTime} (h : t.nanos ≤ now.nanos) :
    now.durationSince t = some (now.nanos - t.nanos) := by
  have hle : t.toSystemTime.nanos ≤ now.toSystemTime.nanos := Int.ofNat_le.mpr h
  rw [EpochTime.durationSince, SystemTime.durationSince, if_pos hle]
  congr 1
  show ((now.nanos : Int) - (t.nanos : Int)).toNat = now.nanos - t.nanos
  omega

theorem enforceLoop_eq_drop (policy : RetentionPolicy) (now : EpochTime)
    (ms : List MessageEntry) (size : Nat) :
    enforceLoop policy now ms size = (check policy now).drop ms size := by
  induction ms generalizing size with
  | nil => rfl
  | cons e ms ih =>
      rw [enforceLoop, Expiry.Check.drop, ← ih]
      rfl

/-- What `enforce_retention_policy` does to a queue of exact size. -/
theorem Exact.enforceRetentionPolicy (hq : q.Exact) (now : EpochTime) :
    q.enforceRetentionPolicy now = some { q with
      messages := (check q.retentionPolicy now).unexpired q.messages
      currentSize := payloadBytes ((check q.retentionPolicy now).unexpired q.messages) } := by
  have hsize : q.currentSize = payloadBytes q.messages := hq
  have hdrop := Expiry.Check.drop_total (check q.retentionPolicy now) q.messages
  rw [PartitionQueue.enforceRetentionPolicy, hsize, enforceLoop_eq_drop]
  exact congrArg _ hdrop

/-- The queue after an append that returns. -/
def appended (q : PartitionQueue) (payload : Payload) (partitionId : Int32)
    (now nowEnforce : EpochTime) : PartitionQueue :=
  let entry : MessageEntry := ⟨q.nextOffset, payload, now, partitionId, ∅⟩
  let messages := (check q.retentionPolicy nowEnforce).unexpired (q.messages ++ [entry])
  { q.push entry with messages := messages, currentSize := payloadBytes messages }

/-- What `append` does to a queue of exact size whose counter has room. -/
theorem Exact.append (hq : q.Exact) (payload : Payload) (partitionId : Int32)
    (now nowEnforce : EpochTime) (hroom : q.nextOffset ≠ Int64.maxValue) :
    q.append payload partitionId now nowEnforce =
      some (q.nextOffset, q.appended payload partitionId now nowEnforce) := by
  rw [PartitionQueue.append, if_neg hroom]
  dsimp only
  rw [(hq.push _).enforceRetentionPolicy]
  rfl

/-- A queue in time keeps to its own policy after a check, and to every policy
that allows as much. -/
theorem honours_of_check {policy' : RetentionPolicy} {ms : List MessageEntry}
    (hq : q.messages = (check policy now).unexpired ms) (hwithin : policy.Within policy')
    (htimely : ∀ e ∈ ms, e.timestamp.nanos ≤ now.nanos) : q.Honours policy' now := by
  have hfirst : ∀ first ∈ q.messages.head?, ¬ TooOld policy' now first := by
    rintro first hfirst ⟨age, hage, hold⟩
    obtain ⟨rest, hrest⟩ := List.head?_eq_some_iff.mp hfirst
    have hle := Expiry.Check.head_unexpired_age (hq.symm.trans hrest) hage
    exact absurd hold (Nat.not_lt.mpr (Nat.le_trans hle hwithin.maxAge))
  refine ⟨?_, hfirst, ?_⟩
  · have hbytes := (Expiry.Check.total_unexpired_le_iff (c := check policy now) (l := ms)).mpr <| by
      -- no message is in the future, so none holds up the check
      intro e behind hsuffix hage
      have hle := htimely e (hsuffix.subset List.mem_cons_self)
      cases (durationSince_eq_some hle).symm.trans hage
    rw [hq]
    exact Nat.le_trans hbytes hwithin.maxBytes
  · rintro hsorted e he ⟨age, hage, hold⟩
    cases hmessages : q.messages with
    | nil => simp [hmessages] at he
    | cons first rest =>
        -- the first message is at least as old
        have hle : first.timestamp.nanos ≤ e.timestamp.nanos := by
          rw [hmessages] at hsorted he
          rcases List.mem_cons.mp he with rfl | hmem
          · exact Nat.le_refl _
          · exact (List.pairwise_cons.mp hsorted).1 e hmem
        have hnow : e.timestamp.nanos ≤ now.nanos :=
          htimely e ((Expiry.Check.unexpired_suffix _ ms).subset (hq ▸ he))
        rw [durationSince_eq_some hnow, Option.some.injEq] at hage
        refine hfirst first (by rw [hmessages]; rfl) ⟨now.nanos - first.timestamp.nanos, ?_, ?_⟩
        · exact durationSince_eq_some (Nat.le_trans hle hnow)
        · have hlt : policy'.maxAge < now.nanos - e.timestamp.nanos := hage ▸ hold
          exact Nat.lt_of_lt_of_le hlt (Nat.sub_le_sub_left hle _)

end PartitionQueue

/-! ### The policy of the storage -/

open LockM

/-- The operation changes the policy. -/
def StorageOp.SetsPolicy : StorageOp → Prop
  | .call (.updateRetentionPolicy _ _) => True
  | _ => False

namespace Storage

theorem preserves_onQueue {α : Type} (topic : String) (partitionId : Int32) (c : QueueM α) :
    Preserves retentionPolicy (onQueue topic partitionId c) := by
  intro g s a s' h
  simp only [onQueue] at h
  split at h
  · cases h
    rfl
  · split at h
    · cases h
      rfl
    · cases h
    · cases h

theorem preserves_atPartition {α : Type} (topic : String) (partitionId : Int32) (c : QueueM α) :
    Preserves retentionPolicy (atPartition topic partitionId c) := by
  refine .withLock (.bind .get fun s => ?_)
  cases s.topics.lookup topic with
  | none => exact .pure none
  | some _ => exact .withLock (preserves_onQueue topic partitionId c)

theorem preserves_forEachPartition {β γ : Type} {turn : β → String → γ → StorageM β}
    (hturn : ∀ b topic x, Preserves retentionPolicy (turn b topic x))
    (order : List (String × List γ)) (b : β) :
    Preserves retentionPolicy (forEachPartition order turn b) := by
  refine .withLock (.foldlM (fun b (topic, xs) => ?_) order b)
  exact .withLock (.foldlM (fun b x => hturn b topic x) xs b)

theorem preserves_enforceAll (order : List (String × List (Int32 × EpochTime))) :
    Preserves retentionPolicy (enforceAll order) :=
  preserves_forEachPartition (fun _ _ _ => .bind (preserves_onQueue _ _ _) fun _ => .pure ()) _ _

/-- Only a change of the policy changes the policy. -/
theorem preserves_exec {op : StorageOp} (hop : ¬ op.SetsPolicy) :
    Preserves retentionPolicy op.exec := by
  cases op with
  | createTopic topic => exact .withLock (.modify fun _ => rfl)
  | createPartition topic partitionId wal =>
      refine .bind (.withLock (.bind .get fun s => ?_)) fun _ => .pure ()
      cases s.topics.lookup topic with
      | none => exact .pure false
      | some _ =>
          refine .bind (.withLock (.bind .get fun _ => .pure _)) fun policy => ?_
          cases PartitionQueue.new policy wal with
          | none => exact .panicked
          | some q => exact .bind (.withLock (.modify fun _ => rfl)) fun _ => .pure true
  | call c =>
      cases c with
      | append => exact .bind (preserves_atPartition _ _ _) fun _ => .pure ()
      | read =>
          exact .bind (.bind (preserves_atPartition _ _ _) fun _ => .pure _) fun _ => .pure ()
      | acknowledge => exact .bind (preserves_atPartition _ _ _) fun _ => .pure ()
      | cleanup order =>
          unfold StorageOp.exec StorageCall.exec cleanup
          refine preserves_forEachPartition (fun _ topic partitionId => ?_) order ()
          exact .bind (preserves_onQueue topic partitionId _) fun _ => .pure ()
      | updateRetentionPolicy policy order => exact absurd trivial hop
      | cleanupOldMessages order =>
          exact .bind (.withLock (.bind .get fun _ => .pure _)) fun _ =>
            preserves_enforceAll order
      | getMetrics now order =>
          refine .bind (preserves_forEachPartition (fun _ _ _ => ?_) order _) fun _ => .pure ()
          exact .bind (preserves_onQueue _ _ _) fun _ => .pure _

theorem retentionPolicy_step {s : Storage} {op : StorageOp} (hop : ¬ op.SetsPolicy) :
    (s.step op).retentionPolicy = s.retentionPolicy := by
  rw [step]
  cases hrun : op.exec .ideal s with
  | error e => rfl
  | ok r => exact preserves_exec hop hrun

/-! ### The pass over all partitions -/

/-- The partitions in the order in which the two loops come to them, each with
its clock reading. -/
def visits (order : List (String × List (Int32 × EpochTime))) :
    List ((String × Int32) × EpochTime) :=
  order.flatMap fun (topic, xs) => xs.map fun (partitionId, now) => ((topic, partitionId), now)

/-- `order` is one in which the maps of topics and of partitions can be
iterated. -/
def Enumerates (order : List (String × List (Int32 × EpochTime))) (s : Storage) : Prop :=
  HashMap.Enumerates (order.map Prod.fst) s.topics ∧
    ∀ topic xs partitions, (topic, xs) ∈ order → s.topics.lookup topic = some partitions →
      HashMap.Enumerates (xs.map Prod.fst) partitions

/-- The turn of the pass for one partition. -/
def enforceAt (s : Storage) (visit : (String × Int32) × EpochTime) : Storage :=
  match s.queue? visit.1.1 visit.1.2 with
  | some q => s.setQueue visit.1.1 visit.1.2 ((q.enforceRetentionPolicy visit.2).getD q)
  | none => s

variable {s : Storage} {order : List (String × List (Int32 × EpochTime))}

theorem enforceAt_run {g : Guards StorageLock} (hs : s.Exact) (topic : String)
    (partitionId : Int32) (now : EpochTime)
    (hg : g.admits (.queue topic partitionId .messages) .write = true) :
    (onQueue topic partitionId (PartitionQueue.Guarded.enforceRetentionPolicy now) >>=
        fun _ => pure ()) g s = .ok ((), s.enforceAt ((topic, partitionId), now)) ∧
      (s.enforceAt ((topic, partitionId), now)).Exact := by
  rw [bind_run, onQueue, enforceAt]
  cases hq : s.queue? topic partitionId with
  | none => exact ⟨rfl, hs⟩
  | some q =>
      obtain ⟨q', hsome, hq'⟩ :=
        PartitionQueue.steady_exact.enforceRetentionPolicy q now (hs _ _ _ hq)
      dsimp only
      rw [PartitionQueue.Guarded.enforceRetentionPolicy_run
        (by rw [Guards.admits_ofQueue]; exact hg), hsome]
      exact ⟨rfl, hs.setQueue hq'⟩

theorem Exact.foldl_enforceAt (hs : s.Exact) (l : List ((String × Int32) × EpochTime)) :
    (l.foldl enforceAt s).Exact := by
  induction l generalizing s with
  | nil => exact hs
  | cons visit l ih =>
      exact ih (enforceAt_run (g := .ideal) hs visit.1.1 visit.1.2 visit.2 rfl).2

/-- The pass returns, and has made its turn for one partition after the other. -/
theorem enforceAll_free (hs : s.Exact) :
    enforceAll order .free s = .ok ((), (visits order).foldl enforceAt s) := by
  rw [enforceAll, forEachPartition, withLock_run rfl, visits, List.foldl_flatMap]
  refine (foldlM_run (I := Exact) ?_ order hs).1
  rintro ⟨topic, xs⟩ s hs
  dsimp only
  rw [withLock_run rfl, List.foldl_map]
  refine foldlM_run (I := Exact) ?_ xs hs
  rintro ⟨partitionId, now⟩ s hs
  exact enforceAt_run hs topic partitionId now rfl

theorem queue?_enforceAt (s : Storage) (visit : (String × Int32) × EpochTime) (topic : String)
    (partitionId : Int32) :
    (s.enforceAt visit).queue? topic partitionId =
      if (topic, partitionId) = visit.1 then
        (s.queue? topic partitionId).map fun q => (q.enforceRetentionPolicy visit.2).getD q
      else s.queue? topic partitionId := by
  obtain ⟨⟨topic', partitionId'⟩, now⟩ := visit
  rw [enforceAt]
  dsimp only
  cases hq : s.queue? topic' partitionId' with
  | none =>
      split_ifs with hsame
      · cases hsame
        rw [hq]
        rfl
      · rfl
  | some q =>
      split_ifs with hsame
      · cases hsame
        rw [Cursor.queue?_setQueue_self hq, hq]
        rfl
      · dsimp only
        rw [queue?_setQueue, if_neg]
        rintro ⟨rfl, rfl, -⟩
        exact hsame rfl

/-- A partition that the pass comes to once is checked at that reading; the
others stay as they are. -/
theorem queue?_foldl_enforceAt {l : List ((String × Int32) × EpochTime)}
    (hnodup : (l.map Prod.fst).Nodup) (s : Storage) (topic : String) (partitionId : Int32) :
    (∀ now, ((topic, partitionId), now) ∈ l →
      (l.foldl enforceAt s).queue? topic partitionId =
        (s.queue? topic partitionId).map fun q => (q.enforceRetentionPolicy now).getD q) ∧
    ((topic, partitionId) ∉ l.map Prod.fst →
      (l.foldl enforceAt s).queue? topic partitionId = s.queue? topic partitionId) := by
  induction l generalizing s with
  | nil => exact ⟨fun now hnow => absurd hnow List.not_mem_nil, fun _ => rfl⟩
  | cons visit l ih =>
      rw [List.map_cons, List.nodup_cons] at hnodup
      obtain ⟨hvisited, hother⟩ := ih hnodup.2 (s.enforceAt visit)
      rw [List.foldl_cons]
      constructor
      · intro now hnow
        rcases List.mem_cons.mp hnow with rfl | hmem
        · -- the turn is here, and the rest does not come back
          rw [hother hnodup.1, queue?_enforceAt, if_pos rfl]
        · have hne : (topic, partitionId) ≠ visit.1 := by
            rintro heq
            exact hnodup.1 (heq ▸ List.mem_map_of_mem (f := Prod.fst) hmem)
          rw [hvisited now hmem, queue?_enforceAt, if_neg hne]
      · intro hnot
        rw [List.map_cons, List.mem_cons, not_or] at hnot
        rw [hother hnot.2, queue?_enforceAt, if_neg hnot.1]

theorem map_fst_visits (order : List (String × List (Int32 × EpochTime))) :
    (visits order).map Prod.fst =
      order.flatMap fun (topic, xs) => (xs.map Prod.fst).map fun partitionId =>
        (topic, partitionId) := by
  simp only [visits, List.map_flatMap, List.map_map]
  rfl

theorem Enumerates.nodup (h : Enumerates order s) : ((visits order).map Prod.fst).Nodup := by
  rw [map_fst_visits, List.nodup_flatMap]
  constructor
  · rintro ⟨topic, xs⟩ hmem
    obtain ⟨partitions, hpartitions⟩ := Finmap.mem_iff.mp
      (h.1.mem_iff.mp (List.mem_map_of_mem (f := Prod.fst) hmem))
    have hxs := (h.2 topic xs partitions hmem hpartitions).1
    exact hxs.map fun p p' heq => (Prod.mk.inj heq).2
  · -- partitions of different topics are different
    apply (List.pairwise_map.mp h.1.1).imp
    rintro ⟨topic, xs⟩ ⟨topic', xs'⟩ hne
    rw [Function.onFun, List.disjoint_left]
    intro key hkey hkey'
    obtain ⟨partitionId, -, rfl⟩ := List.mem_map.mp hkey
    obtain ⟨partitionId', -, heq⟩ := List.mem_map.mp hkey'
    exact hne (Prod.mk.inj heq).1.symm

/-- The pass comes to every partition. -/
theorem Enumerates.exists_visit {topic : String} {partitionId : Int32} {q : PartitionQueue}
    (h : Enumerates order s) (hq : s.queue? topic partitionId = some q) :
    ∃ now, ((topic, partitionId), now) ∈ visits order := by
  obtain ⟨partitions, hpartitions, hlookup⟩ := Option.bind_eq_some_iff.mp hq
  have htopic := h.1.mem_iff.mpr (Finmap.mem_of_lookup_eq_some hpartitions)
  obtain ⟨⟨topic', xs⟩, hmem, rfl⟩ := List.mem_map.mp htopic
  have hpartition := (h.2 topic' xs partitions hmem hpartitions).mem_iff.mpr
    (Finmap.mem_of_lookup_eq_some hlookup)
  obtain ⟨⟨partitionId', now⟩, hmem', rfl⟩ := List.mem_map.mp hpartition
  exact ⟨now, List.mem_flatMap.mpr ⟨(topic', xs), hmem,
    List.mem_map.mpr ⟨(partitionId', now), hmem', rfl⟩⟩⟩

/-! ### What a change binds -/

/-- Every partition has been created under a policy that allows no more than
this one. -/
def PoliciesWithin (policy : RetentionPolicy) (s : Storage) : Prop :=
  ∀ topic partitionId q, s.queue? topic partitionId = some q → q.retentionPolicy.Within policy

/-- An append finds its partition in time: no message, the new one included, is
stamped after the reading for the check. -/
def AppendsInTime (s : Storage) : StorageOp → Prop
  | .call (.append topic partitionId _ now nowEnforce) => now.nanos ≤ nowEnforce.nanos ∧
      ∀ q, s.queue? topic partitionId = some q → q.Timely nowEnforce
  | _ => True

/-- What may happen until the policy is changed again. -/
def Later (s : Storage) (op : StorageOp) : Prop := ¬ op.SetsPolicy ∧ s.AppendsInTime op

/-- An append that returns leaves its partition within the policy. -/
def AppendHonours (policy : RetentionPolicy) (s : Storage) : StorageOp → Prop
  | .call (.append topic partitionId message now nowEnforce) => ∀ offset s',
      append topic partitionId message now nowEnforce .ideal s = .ok (some offset, s') →
        ∀ q, s'.queue? topic partitionId = some q → q.Honours policy nowEnforce
  | _ => True

/-- **A change binds the partitions.**  A change of the policy returns, whatever
the order in which it comes to the partitions and the readings there (none of
them before a stored timestamp).  Each partition is then within the policy, and
so is each partition after each later append, along every run without another
change. -/
def Binds (policy : RetentionPolicy) (s : Storage) : Prop :=
  ∀ order, Enumerates order s →
    (∀ topic partitionId now q, ((topic, partitionId), now) ∈ visits order →
      s.queue? topic partitionId = some q → q.Timely now) →
    ∃ s', updateRetentionPolicy policy order .free s = .ok ((), s') ∧
      (∀ topic partitionId now q, ((topic, partitionId), now) ∈ visits order →
        s'.queue? topic partitionId = some q → q.Honours policy now) ∧
      ∀ ops, Along step Later s' ops → Along step (AppendHonours policy) s' ops

/-- What holds from the change on. -/
structure Bound (policy : RetentionPolicy) (s : Storage) : Prop where
  exact : s.Exact
  within : s.PoliciesWithin policy
  policy_eq : s.retentionPolicy = policy

variable {policy : RetentionPolicy}

theorem PoliciesWithin.setQueue {topic : String} {partitionId : Int32} {q : PartitionQueue}
    (hs : s.PoliciesWithin policy) (hq : q.retentionPolicy.Within policy) :
    (s.setQueue topic partitionId q).PoliciesWithin policy := by
  intro topic' partitionId' q' h
  rw [queue?_setQueue] at h
  split at h
  · cases h
    exact hq
  · exact hs topic' partitionId' q' h

/-- The operations of a queue leave its policy as it is. -/
theorem queuewise_policiesWithin (policy : RetentionPolicy) :
    Queuewise (fun s => s.Exact ∧ s.PoliciesWithin policy)
      fun _ _ q => q.Exact ∧ q.retentionPolicy.Within policy where
  steady _ _ := by
    constructor
    · rintro q now ⟨hq, hwithin⟩
      exact ⟨_, hq.enforceRetentionPolicy now, rfl, hwithin⟩
    · rintro q offset consumerId ⟨hq, hwithin⟩
      exact ⟨PartitionQueue.steady_exact.acknowledge q offset consumerId hq, hwithin⟩
    · rintro q ⟨hq, hwithin⟩
      exact ⟨PartitionQueue.steady_exact.cleanupAcknowledged q hq, hwithin⟩
  queue hs hq := ⟨hs.1 _ _ _ hq, hs.2 _ _ _ hq⟩
  setQueue hs _ hq' := ⟨hs.1.setQueue hq'.1, hs.2.setQueue hq'.2⟩
  setPolicy _ hs := hs

theorem retentionPolicy_of_new {policy : RetentionPolicy} {wal : Option WalLog}
    {q : PartitionQueue} (h : PartitionQueue.new policy wal = some q) :
    q.retentionPolicy = policy := by
  have hfold : ∀ (es : List MessageEntry) (q q' : PartitionQueue),
      es.foldlM PartitionQueue.recoverEntry q = some q' →
        q'.retentionPolicy = q.retentionPolicy := by
    intro es
    induction es with
    | nil =>
        rintro q q' ⟨⟩
        rfl
    | cons e es ih =>
        intro q q' h
        rw [List.foldlM_cons, Option.bind_eq_bind, Option.bind_eq_some_iff] at h
        obtain ⟨q₁, hstep, hrest⟩ := h
        rw [ih q₁ q' hrest]
        simp only [PartitionQueue.recoverEntry] at hstep
        split_ifs at hstep <;> cases hstep <;> rfl
  unfold PartitionQueue.new at h
  split at h
  · cases h
    rfl
  · split at h
    · exact hfold _ _ _ h
    · cases h
    · cases h
      rfl

/-- What an append that returns leaves in its partition. -/
theorem append_ok {topic : String} {partitionId : Int32} {message : Payload}
    {now nowEnforce : EpochTime} {offset : Int64} {s' : Storage} (hs : s.Exact)
    (h : append topic partitionId message now nowEnforce .ideal s = .ok (some offset, s')) :
    ∃ q, s.queue? topic partitionId = some q ∧
      s' = s.setQueue topic partitionId (q.appended message partitionId now nowEnforce) := by
  rw [append_ideal] at h
  cases hq : s.queue? topic partitionId with
  | none =>
      rw [hq] at h
      cases h
  | some q =>
      rw [hq] at h
      dsimp only at h
      cases happend : q.append message partitionId now nowEnforce with
      | none =>
          rw [happend] at h
          cases h
      | some r =>
          have hroom := PartitionQueue.room_of_append happend
          rw [(hs _ _ _ hq).append message partitionId now nowEnforce hroom] at h
          cases h
          exact ⟨q, rfl, rfl⟩

theorem PoliciesWithin.step (hexact : s.Exact) (hs : s.PoliciesWithin policy)
    (hpolicy : s.retentionPolicy.Within policy) (op : StorageOp) :
    (s.step op).PoliciesWithin policy := by
  cases op with
  | createTopic topic =>
      have hstep : s.step (.createTopic topic) =
          { s with topics := s.topics.insert topic ∅ } := rfl
      rw [hstep]
      intro topic' partitionId q h
      simp only [queue?, HashMap.lookup_insert_eq] at h
      split at h
      · simp at h
      · exact hs topic' partitionId q h
  | createPartition topic partitionId wal =>
      rcases s.step_createPartition_cases topic partitionId wal with heq | ⟨q, hnew, heq⟩
      · rw [heq]
        exact hs
      · -- the partition is created under the policy of the storage
        rw [heq]
        exact hs.setQueue (retentionPolicy_of_new hnew ▸ hpolicy)
  | call c =>
      refine ((queuewise_policiesWithin policy).step_call ?_ ⟨hexact, hs⟩ c).2
      rintro topic partitionId q message now nowEnforce offset q' ⟨hq, hwithin⟩ happend
      refine ⟨hq.of_append happend, ?_⟩
      rw [hq.append message partitionId now nowEnforce (PartitionQueue.room_of_append happend)]
        at happend
      cases happend
      exact hwithin

/-- **Step lemma.**  What holds from the change on holds until the next one. -/
theorem Bound.step (hs : s.Bound policy) {op : StorageOp} (hop : ¬ op.SetsPolicy) :
    (s.step op).Bound policy where
  exact := hs.exact.step op
  within := hs.within.step hs.exact (hs.policy_eq ▸ .refl s.retentionPolicy) op
  policy_eq := (retentionPolicy_step hop).trans hs.policy_eq

/-- As long as the policy has not been changed, every partition is under it. -/
theorem bound_reached (policy : RetentionPolicy) {ops : List StorageOp}
    (hops : ∀ op ∈ ops, ¬ op.SetsPolicy) : (reached policy ops).Bound policy := by
  have hrun : ∀ s : Storage, s.Bound policy → (ops.foldl Storage.step s).Bound policy := by
    induction ops with
    | nil => exact fun s hs => hs
    | cons op ops ih =>
        intro s hs
        exact ih (fun op' hop' => hops op' (List.mem_cons_of_mem op hop')) (s.step op)
          (hs.step (hops op List.mem_cons_self))
  refine hrun _ ⟨exact_reached policy [], ?_, rfl⟩
  intro topic partitionId q h
  simp [queue?, withRetentionPolicy] at h

theorem Bound.appendHonours (hs : s.Bound policy) {op : StorageOp} (hop : s.Later op) :
    AppendHonours policy s op := by
  unfold AppendHonours
  split
  · rename_i topic partitionId message now nowEnforce
    intro offset s' hrun q₁ hq₁
    obtain ⟨hnow, htimely⟩ := hop.2
    obtain ⟨q, hq, rfl⟩ := append_ok hs.exact hrun
    rw [Cursor.queue?_setQueue_self hq] at hq₁
    cases hq₁
    apply PartitionQueue.honours_of_check rfl (hs.within _ _ _ hq)
    intro e he
    rcases List.mem_append.mp he with hold | hnew
    · exact htimely q hq e hold
    · rw [List.mem_singleton.mp hnew]
      exact hnow
  · trivial

/-- The pass changes no policy. -/
theorem Bound.foldl_enforceAt (hs : s.Bound policy)
    (order : List (String × List (Int32 × EpochTime))) :
    ((visits order).foldl enforceAt s).Bound policy := by
  have hrun : enforceAll order .free s = .ok ((), (visits order).foldl enforceAt s) :=
    enforceAll_free hs.exact
  obtain ⟨_, s', hrun', hexact, hwithin⟩ := completes_enforceAll (queuewise_policiesWithin policy)
    (fun _ _ => Guards.admits_free _ _) order s ⟨hs.exact, hs.within⟩
  cases hrun.symm.trans hrun'
  exact ⟨hexact, hwithin, (preserves_enforceAll order hrun).trans hs.policy_eq⟩

/-- The state after a change. -/
theorem updateRetentionPolicy_free (hs : s.Exact) (policy : RetentionPolicy)
    (order : List (String × List (Int32 × EpochTime))) :
    updateRetentionPolicy policy order .free s =
      .ok ((), (visits order).foldl enforceAt { s with retentionPolicy := policy }) := by
  rw [updateRetentionPolicy, bind_run, withLock_run rfl, modify_run]
  exact enforceAll_free (s := { s with retentionPolicy := policy }) hs

/-- A partition after a change. -/
theorem queue?_updateRetentionPolicy (h : Enumerates order s) (policy : RetentionPolicy)
    {topic : String} {partitionId : Int32} {now : EpochTime}
    (hvisit : ((topic, partitionId), now) ∈ visits order) :
    ((visits order).foldl enforceAt { s with retentionPolicy := policy }).queue? topic
        partitionId =
      (s.queue? topic partitionId).map fun q => (q.enforceRetentionPolicy now).getD q :=
  (queue?_foldl_enforceAt h.nodup { s with retentionPolicy := policy } topic partitionId).1
    now hvisit

/-- **A change binds partitions created under policies that allow no more.** -/
theorem binds_of_policiesWithin (hs : s.Exact) (hwithin : s.PoliciesWithin policy) :
    Binds policy s := by
  intro order henum htimely
  refine ⟨_, updateRetentionPolicy_free hs policy order, ?_, ?_⟩
  · intro topic partitionId now q' hvisit hq'
    rw [queue?_updateRetentionPolicy henum policy hvisit] at hq'
    obtain ⟨q, hq, rfl⟩ := Option.map_eq_some_iff.mp hq'
    rw [(hs _ _ _ hq).enforceRetentionPolicy now, Option.getD_some]
    exact PartitionQueue.honours_of_check rfl (hwithin _ _ _ hq)
      (htimely topic partitionId now q hvisit hq)
  · intro ops hops
    have hbound : Bound policy { s with retentionPolicy := policy } := ⟨hs, hwithin, rfl⟩
    exact Along.of_along (hbound.foldl_enforceAt order) hops (fun _ _ hs hop => hs.step hop.1)
      fun _ _ hs hop => hs.appendHonours hop

/-! ### What is needed to be bound -/

/-- The counters, the clock and a payload have room for a message more than the
policy allows, and for two appends to each partition that are further apart
than its age. -/
structure Roomy (policy : RetentionPolicy) (s : Storage) : Prop where
  payload : policy.maxBytes + 1 + 32 < 2 ^ 63
  counter : ∀ topic partitionId q, s.queue? topic partitionId = some q →
    q.nextOffset.toInt + 1 < 2 ^ 63 - 1
  clock : policy.maxAge + 1 < 2 ^ 63 * 10 ^ 9 ∧
    ∀ topic partitionId q, s.queue? topic partitionId = some q → ∀ e ∈ q.messages,
      e.timestamp.nanos + (policy.maxAge + 1) < 2 ^ 63 * 10 ^ 9

/-- Some order visits all partitions, at any one time. -/
theorem exists_enumerates (s : Storage) (now : EpochTime) :
    ∃ order, Enumerates order s ∧ ∀ visit ∈ visits order, visit.2 = now := by
  let xs (topic : String) : List (Int32 × EpochTime) :=
    ((s.topics.lookup topic).getD ∅).keys.toList.map fun partitionId => (partitionId, now)
  refine ⟨s.topics.keys.toList.map fun topic => (topic, xs topic), ⟨?_, ?_⟩, ?_⟩
  · rw [List.map_map]
    show HashMap.Enumerates (s.topics.keys.toList.map id) s.topics
    rw [List.map_id]
    exact ⟨Finset.nodup_toList _, Finset.toList_toFinset _⟩
  · intro topic xs' partitions hmem hlookup
    obtain ⟨topic', -, heq⟩ := List.mem_map.mp hmem
    cases heq
    show HashMap.Enumerates ((List.map _ (Finset.toList _)).map Prod.fst) partitions
    rw [hlookup, Option.getD_some, List.map_map]
    show HashMap.Enumerates (partitions.keys.toList.map id) partitions
    rw [List.map_id]
    exact ⟨Finset.nodup_toList _, Finset.toList_toFinset _⟩
  · intro visit hvisit
    obtain ⟨⟨topic, xs'⟩, hmem, hvisit⟩ := List.mem_flatMap.mp hvisit
    obtain ⟨topic', -, heq⟩ := List.mem_map.mp hmem
    cases heq
    obtain ⟨⟨partitionId, now'⟩, hmem', rfl⟩ := List.mem_map.mp hvisit
    obtain ⟨partitionId', -, heq⟩ := List.mem_map.mp hmem'
    cases heq
    rfl

end Storage

namespace PartitionQueue

variable {q : PartitionQueue} {policy : RetentionPolicy}

/-- A message that is not too old and fits, with all that is behind it, stays. -/
theorem suffix_check {now : EpochTime} {e : MessageEntry} {behind ms : List MessageEntry}
    (hsuffix : e :: behind <:+ ms) (hstamp : e.timestamp.nanos ≤ now.nanos)
    (hage : now.nanos - e.timestamp.nanos ≤ policy.maxAge)
    (hbytes : payloadBytes (e :: behind) ≤ policy.maxBytes) :
    e :: behind <:+ (check policy now).unexpired ms := by
  apply Expiry.Check.suffix_unexpired hsuffix
  rw [Expiry.Check.expired_iff_of_some (durationSince_eq_some hstamp), not_or, not_lt, not_lt]
  exact ⟨hage, hbytes⟩

/-- Under a policy that allows more bytes, one message is enough to get beyond. -/
theorem not_honours_appended (hlarge : policy.maxBytes < q.retentionPolicy.maxBytes)
    {payload : Payload} (hlen : payload.len = policy.maxBytes + 1) (partitionId : Int32)
    (now : EpochTime) : ¬ (q.appended payload partitionId now now).Honours policy now := by
  intro h
  have hbytes : payloadBytes [(⟨q.nextOffset, payload, now, partitionId, ∅⟩ : MessageEntry)] =
      policy.maxBytes + 1 := by
    simp [payloadBytes, hlen]
  have hstays : [(⟨q.nextOffset, payload, now, partitionId, ∅⟩ : MessageEntry)] <:+
      (q.appended payload partitionId now now).messages := by
    refine suffix_check (List.suffix_append _ _) (Nat.le_refl _) ?_ (hbytes ▸ hlarge)
    rw [Nat.sub_self]
    exact Nat.zero_le _
  have hle : payloadBytes [(⟨q.nextOffset, payload, now, partitionId, ∅⟩ : MessageEntry)] ≤
      payloadBytes (q.appended payload partitionId now now).messages :=
    Expiry.Check.total_le_of_suffix (c := check policy now) hstays
  have hmax := h.bytes
  omega

/-- An append at `now` leaves nothing that is stamped later. -/
theorem Timely.appended {now : EpochTime} (htimely : q.Timely now) (payload : Payload)
    (partitionId : Int32) : (q.appended payload partitionId now now).Timely now := by
  intro e he
  rcases List.mem_append.mp ((Expiry.Check.unexpired_suffix _ _).subset he) with hold | hnew
  · exact htimely e hold
  · rw [List.mem_singleton.mp hnew]

/-- Under a policy that lets messages get older, an empty one that is followed
by another after that time is still there. -/
theorem not_honours_appended_appended (hlarge : policy.maxAge < q.retentionPolicy.maxAge)
    {payload : Payload} (hlen : payload.len = 0) (partitionId : Int32) {now later : EpochTime}
    (hlater : later.nanos = now.nanos + (policy.maxAge + 1)) (htimely : q.Timely now) :
    ¬ ((q.appended payload partitionId now now).appended payload partitionId later later).Honours
        policy later := by
  intro h
  have hfirst : [(⟨q.nextOffset, payload, now, partitionId, ∅⟩ : MessageEntry)] <:+
      (q.appended payload partitionId now now).messages := by
    refine suffix_check (List.suffix_append _ _) (Nat.le_refl _) ?_ ?_
    · rw [Nat.sub_self]
      exact Nat.zero_le _
    · simp [payloadBytes, hlen]
  have htimely' := htimely.appended payload partitionId
  have hpolicy : (q.appended payload partitionId now now).retentionPolicy = q.retentionPolicy := rfl
  generalize q.appended payload partitionId now now = q' at h hfirst htimely' hpolicy
  obtain ⟨front, hfront⟩ := hfirst
  -- the two messages stay together
  have hboth : [(⟨q.nextOffset, payload, now, partitionId, ∅⟩ : MessageEntry),
      ⟨q'.nextOffset, payload, later, partitionId, ∅⟩] <:+
        (q'.appended payload partitionId later later).messages := by
    refine suffix_check ⟨front, ?_⟩ ?_ ?_ ?_
    · rw [← hfront, List.append_assoc]
      rfl
    · dsimp only
      omega
    · rw [hpolicy]
      dsimp only
      have hage : later.nanos - now.nanos = policy.maxAge + 1 := by omega
      rw [hage]
      exact hlarge
    · simp [payloadBytes, hlen]
  obtain ⟨front', hfront'⟩ := hboth
  -- so the first message of all is one that was there before the second of them
  obtain ⟨first, hhead⟩ : ∃ first, first ∈
      (front' ++ [(⟨q.nextOffset, payload, now, partitionId, ∅⟩ : MessageEntry)]).head? := by
    cases front' with
    | nil => exact ⟨_, rfl⟩
    | cons e front' => exact ⟨e, rfl⟩
  have hmem : first ∈ q'.messages := by
    obtain ⟨gone, hgone⟩ : (q'.appended payload partitionId later later).messages <:+
        q'.messages ++
          [(⟨q'.nextOffset, payload, later, partitionId, ∅⟩ : MessageEntry)] :=
      Expiry.Check.unexpired_suffix (check q'.retentionPolicy later) _
    rw [← hfront', ← List.singleton_append, ← List.append_assoc, ← List.append_assoc] at hgone
    rw [← List.append_cancel_right hgone, List.append_assoc]
    exact List.mem_append_right _ (List.mem_of_mem_head? hhead)
  have hstamp := htimely' first hmem
  refine h.oldest first ?_ ⟨later.nanos - first.timestamp.nanos, ?_, ?_⟩
  · rw [← hfront', ← List.singleton_append, ← List.append_assoc, List.head?_append]
    simp [Option.mem_def.mp hhead]
  · exact durationSince_eq_some (by omega)
  · have hage : later.nanos - first.timestamp.nanos ≥ policy.maxAge + 1 := by omega
    exact hage

end PartitionQueue

namespace Storage

variable {s : Storage} {order : List (String × List (Int32 × EpochTime))}
variable {policy : RetentionPolicy}

/-- The last reading a clock can show. -/
def lastReading : EpochTime := ⟨2 ^ 63 * 10 ^ 9 - 1, by decide⟩

theorem timely_lastReading (q : PartitionQueue) : q.Timely lastReading := by
  intro e _
  have hlt := e.timestamp.nanos_lt
  show e.timestamp.nanos ≤ 2 ^ 63 * 10 ^ 9 - 1
  omega

/-- An append to a partition whose counter has room. -/
theorem append_of_room {topic : String} {partitionId : Int32} {q : PartitionQueue}
    (hs : s.Exact) (hq : s.queue? topic partitionId = some q)
    (hroom : q.nextOffset ≠ Int64.maxValue) (message : Payload) (now nowEnforce : EpochTime) :
    append topic partitionId message now nowEnforce .ideal s =
      .ok (some q.nextOffset,
        s.setQueue topic partitionId (q.appended message partitionId now nowEnforce)) := by
  rw [append_ideal, hq]
  dsimp only
  rw [(hs _ _ _ hq).append message partitionId now nowEnforce hroom]

/-- The stamps of a queue are all before some reading that leaves room. -/
theorem exists_latest (ms : List MessageEntry) {d : Nat} (hd : d < 2 ^ 63 * 10 ^ 9)
    (hms : ∀ e ∈ ms, e.timestamp.nanos + d < 2 ^ 63 * 10 ^ 9) :
    ∃ now : EpochTime, now.nanos + d < 2 ^ 63 * 10 ^ 9 ∧
      ∀ e ∈ ms, e.timestamp.nanos ≤ now.nanos := by
  induction ms with
  | nil => exact ⟨.unixEpoch, by simpa [EpochTime.unixEpoch] using hd, by simp⟩
  | cons e ms ih =>
      obtain ⟨now, hnow, hle⟩ := ih fun e' he' => hms e' (List.mem_cons_of_mem e he')
      have he := hms e List.mem_cons_self
      rcases Nat.le_total e.timestamp.nanos now.nanos with hcase | hcase
      · exact ⟨now, hnow, List.forall_mem_cons.mpr ⟨hcase, hle⟩⟩
      · exact ⟨e.timestamp, he, List.forall_mem_cons.mpr
          ⟨Nat.le_refl _, fun e' he' => Nat.le_trans (hle e' he') hcase⟩⟩

/-- The step of an append to a partition whose counter has room. -/
theorem step_append_of_room {topic : String} {partitionId : Int32} {q : PartitionQueue}
    (hs : s.Exact) (hq : s.queue? topic partitionId = some q)
    (hroom : q.nextOffset ≠ Int64.maxValue) (message : Payload) (now nowEnforce : EpochTime) :
    s.step (.call (.append topic partitionId message now nowEnforce)) =
      s.setQueue topic partitionId (q.appended message partitionId now nowEnforce) := by
  simp only [step, StorageOp.exec, StorageCall.exec, bind_run, append_of_room hs hq hroom]
  rfl

theorem ne_maxValue {n : Int64} (h : n.toInt < 2 ^ 63 - 1) : n ≠ Int64.maxValue := by
  rintro rfl
  rw [Int64.toInt_maxValue] at h
  omega

/-- The append comes after all that is stored in its partition. -/
theorem later_append {topic : String} {partitionId : Int32} {q : PartitionQueue}
    (hq : s.queue? topic partitionId = some q) {now : EpochTime} (htimely : q.Timely now)
    (message : Payload) : s.Later (.call (.append topic partitionId message now now)) := by
  refine ⟨id, Nat.le_refl _, ?_⟩
  intro q' hq'
  cases hq.symm.trans hq'
  exact htimely

section Outgrown

variable {topic : String} {partitionId : Int32} {q : PartitionQueue} {now : EpochTime}
variable (hs : s.Exact) (hq : s.queue? topic partitionId = some q) (htimely : q.Timely now)
variable (h : ∀ ops, Along step Later s ops → Along step (AppendHonours policy) s ops)
include hs hq htimely h

/-- A partition that every later append leaves within the policy allows no more
bytes: one message would be enough. -/
theorem maxBytes_le_of_appendHonours (hpayload : policy.maxBytes + 1 + 32 < 2 ^ 63)
    (hroom : q.nextOffset ≠ Int64.maxValue) :
    q.retentionPolicy.maxBytes ≤ policy.maxBytes := by
  by_contra hlarge
  let payload : Payload := ⟨List.replicate (policy.maxBytes + 1) 0, by simpa using hpayload⟩
  have hhonours := (h [.call (.append topic partitionId payload now now)]
    ⟨later_append hq htimely payload, trivial⟩).1 _ _
    (append_of_room hs hq hroom payload now now) _ (Cursor.queue?_setQueue_self hq)
  exact PartitionQueue.not_honours_appended (Nat.lt_of_not_le hlarge)
    (by simp [payload, Payload.len]) partitionId now hhonours

/-- It lets no message get older either: two empty ones that are further apart
would be enough. -/
theorem maxAge_le_of_appendHonours (hcounter : q.nextOffset.toInt + 1 < 2 ^ 63 - 1)
    (hend : now.nanos + (policy.maxAge + 1) < 2 ^ 63 * 10 ^ 9) :
    q.retentionPolicy.maxAge ≤ policy.maxAge := by
  by_contra hlarge
  have hroom : q.nextOffset ≠ Int64.maxValue := ne_maxValue (by omega)
  let payload : Payload := ⟨[], by decide⟩
  let later : EpochTime := ⟨now.nanos + (policy.maxAge + 1), hend⟩
  -- the storage after the first of them
  have hstep := step_append_of_room hs hq hroom payload now now
  have hs' := hs.step (.call (.append topic partitionId payload now now))
  rw [hstep] at hs'
  have hq' : (s.setQueue topic partitionId
      (q.appended payload partitionId now now)).queue? topic partitionId = _ :=
    Cursor.queue?_setQueue_self hq
  have hroom' : (q.appended payload partitionId now now).nextOffset ≠ Int64.maxValue := by
    apply ne_maxValue
    show (q.nextOffset + 1).toInt < 2 ^ 63 - 1
    rw [PartitionQueue.toInt_add_one hroom]
    exact hcounter
  have htimely' : (q.appended payload partitionId now now).Timely later := by
    intro e he
    exact Nat.le_trans (htimely.appended payload partitionId e he) (Nat.le_add_right _ _)
  have hhonours := (h [.call (.append topic partitionId payload now now),
    .call (.append topic partitionId payload later later)]
      ⟨later_append hq htimely payload, hstep ▸ later_append hq' htimely' payload, trivial⟩).2.1
  rw [hstep] at hhonours
  exact PartitionQueue.not_honours_appended_appended (Nat.lt_of_not_le hlarge) rfl partitionId
    rfl htimely (hhonours _ _ (append_of_room hs' hq' hroom' payload later later) _
      (Cursor.queue?_setQueue_self hq'))

end Outgrown

/-- **A change binds only partitions created under policies that allow no
more**, where there is room to show it. -/
theorem policiesWithin_of_binds (hs : s.Exact) (hroomy : s.Roomy policy)
    (h : Binds policy s) : s.PoliciesWithin policy := by
  intro topic partitionId q hq
  obtain ⟨order, henum, hlast⟩ := exists_enumerates s lastReading
  obtain ⟨s', hrun, -, hlater⟩ := h order henum fun _ _ now q hvisit _ => by
    have hnow : now = lastReading := hlast _ hvisit
    exact hnow ▸ timely_lastReading q
  rw [updateRetentionPolicy_free hs] at hrun
  cases hrun
  obtain ⟨now, hvisit⟩ := henum.exists_visit hq
  -- the partition as the change leaves it: some of its messages, under its own policy
  have hq' := queue?_updateRetentionPolicy henum policy hvisit
  rw [hq, Option.map_some, (hs _ _ _ hq).enforceRetentionPolicy, Option.getD_some] at hq'
  have hs' : ((visits order).foldl enforceAt { s with retentionPolicy := policy }).Exact :=
    Exact.foldl_enforceAt (s := { s with retentionPolicy := policy }) hs _
  have hclock : ∀ e ∈ (PartitionQueue.check q.retentionPolicy now).unexpired q.messages,
      e.timestamp.nanos + (policy.maxAge + 1) < 2 ^ 63 * 10 ^ 9 := by
    intro e he
    exact hroomy.clock.2 _ _ q hq e ((Expiry.Check.unexpired_suffix _ _).subset he)
  have hcounter := hroomy.counter _ _ q hq
  obtain ⟨later, hend, htimely⟩ := exists_latest _ hroomy.clock.1 hclock
  have hbytes := maxBytes_le_of_appendHonours hs' hq' htimely hlater hroomy.payload
    (ne_maxValue (by dsimp only; omega))
  have hage := maxAge_le_of_appendHonours hs' hq' htimely hlater hcounter hend
  exact ⟨hbytes, hage⟩

/-- **A change of the policy binds exactly the partitions whose own policy
allows no more.**  If every partition has been created under a policy within
the new one, the change binds them all; and where the counters, the clock and
payloads have room for it, a change that binds them all finds no other. -/
theorem binds_when_within (hs : s.Exact) :
    (s.PoliciesWithin policy → Binds policy s) ∧
      (s.Roomy policy → Binds policy s → s.PoliciesWithin policy) :=
  ⟨binds_of_policiesWithin hs, policiesWithin_of_binds hs⟩

/-- The partition `test/0` with `hello world` in it. -/
def helloStorage : Storage :=
  reached .default [.createTopic "test", .createPartition "test" 0 (some ⟨[]⟩),
    .call (.append "test" 0 helloWorld .unixEpoch .unixEpoch)]

theorem queue?_helloStorage : helloStorage.queue? "test" 0 =
    some ((PartitionQueue.empty .default (some ⟨[]⟩)).appended helloWorld 0 .unixEpoch
      .unixEpoch) := by
  have hexact : testStorage.Exact := exact_reached _ _
  have hstep : helloStorage =
      testStorage.step (.call (.append "test" 0 helloWorld .unixEpoch .unixEpoch)) := rfl
  rw [hstep, step_append_of_room hexact queue?_testStorage (by decide),
    Cursor.queue?_setQueue_self queue?_testStorage]

/-- `binds_when_within` where the new policy allows twice as much. -/
theorem binds_when_within_doubled : helloStorage.Exact ∧
    helloStorage.PoliciesWithin ⟨2 * RetentionPolicy.default.maxAge, 2 * 1024 ^ 3⟩ ∧
    Binds ⟨2 * RetentionPolicy.default.maxAge, 2 * 1024 ^ 3⟩ helloStorage := by
  have hexact : helloStorage.Exact := exact_reached _ _
  have hbound : helloStorage.Bound .default :=
    bound_reached .default (by simp [StorageOp.SetsPolicy])
  have hwithin : helloStorage.PoliciesWithin
      ⟨2 * RetentionPolicy.default.maxAge, 2 * 1024 ^ 3⟩ := by
    intro topic partitionId q hq
    obtain ⟨hbytes, hage⟩ := hbound.within topic partitionId q hq
    exact ⟨Nat.le_trans hbytes (by decide), Nat.le_trans hage (by decide)⟩
  exact ⟨hexact, hwithin, (binds_when_within hexact).1 hwithin⟩

/-- A policy that allows four bytes is set where eleven are queued under the
default policy: all eleven stay. -/
theorem smaller_policy_does_not_bind :
    (∃ s', updateRetentionPolicy ⟨0, 4⟩ [("test", [(0, .unixEpoch)])] .free helloStorage =
        .ok ((), s') ∧
      ∃ q, s'.queue? "test" 0 = some q ∧ payloadBytes q.messages = 11) ∧
    ¬ ∀ (policy : RetentionPolicy) (s : Storage), s.Exact → Binds policy s := by
  have hexact : helloStorage.Exact := exact_reached _ _
  have henum : Enumerates [("test", [(0, .unixEpoch)])] helloStorage := by
    have hpartition : ∀ partitions ∈ helloStorage.topics.lookup "test",
        HashMap.Enumerates [(0 : Int32)] partitions := by
      decide +kernel
    refine ⟨by decide +kernel, ?_⟩
    intro topic xs partitions hmem hpartitions
    cases List.mem_singleton.mp hmem
    exact hpartition partitions hpartitions
  have hvisit : (("test", (0 : Int32)), EpochTime.unixEpoch) ∈
      visits [("test", [(0, .unixEpoch)])] := List.mem_singleton.mpr rfl
  have hqueue := queue?_updateRetentionPolicy henum ⟨0, 4⟩ hvisit
  rw [queue?_helloStorage, Option.map_some] at hqueue
  refine ⟨⟨_, updateRetentionPolicy_free hexact _ _, _, hqueue, by decide +kernel⟩, ?_⟩
  intro h
  obtain ⟨s', hrun, hhonours, -⟩ := h ⟨0, 4⟩ helloStorage hexact _ henum <| by
    intro topic partitionId now q hvisit' hq
    cases List.mem_singleton.mp hvisit'
    cases queue?_helloStorage.symm.trans hq
    show ∀ e ∈ _, _
    decide +kernel
  rw [updateRetentionPolicy_free hexact] at hrun
  cases hrun
  have hbytes := (hhonours _ _ _ _ hvisit hqueue).bytes
  revert hbytes
  decide +kernel

end Storage

end Rafka
