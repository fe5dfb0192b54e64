/-
Rafka/Liveness.lean

Who is alive (`HeartbeatManager` and `get_overall_status` in `crates/core/src/health.rs`).

The manager keeps the last heartbeat of every broker.  A task of its own looks through the
table every half timeout, lets the lock go, and then names the brokers that it found silent
for the timeout one after the other; meanwhile other tasks record heartbeats and remove
brokers.  Nothing but `remove_broker` takes a broker out of the table, so a silent one is
named again after every look.

* `detector_exact` — in every run, a look finds, once each, the brokers that have been heard
  since they were last removed but not within the timeout before it, and these are named in
  the order of the looks, none twice and none left out;
* `detected_in_time` — where the clock does not step back and the looks are at most half a
  timeout apart, a broker that falls silent is found by no look of the first timeout, by one
  within the half timeout after it, and by all that follow;
* `overall_is_worst` — the overall status of the monitor is the worst of those that the
  components have last shown, and the reports of components that were never registered show
  nothing.
-/
import Rafka.Health

namespace Rafka

/-- `HeartbeatManager`. -/
structure HeartbeatManager where
  lastHeartbeats : HashMap String SystemTime
  timeout : Duration

namespace HeartbeatManager

/-- `HeartbeatManager::new`. -/
def new (timeout : Duration) : HeartbeatManager := ⟨∅, timeout⟩

/-- `HeartbeatManager::record_heartbeat`. -/
def recordHeartbeat (m : HeartbeatManager) (brokerId : String) (now : SystemTime) :
    HeartbeatManager :=
  { m with lastHeartbeats := m.lastHeartbeats.insert brokerId now }

/-- `HeartbeatManager::is_alive`. -/
def isAlive (m : HeartbeatManager) (brokerId : String) (now : SystemTime) : Bool :=
  match m.lastHeartbeats.lookup brokerId with
  | some lastHeartbeat =>
      match now.durationSince lastHeartbeat with
      | some elapsed => elapsed < m.timeout
      | none => false
  | none => false

/-- What `get_dead_brokers` and the rounds of `start_checker` ask of an entry. -/
def isDead (timeout : Duration) (now lastHeartbeat : SystemTime) : Bool :=
  match now.durationSince lastHeartbeat with
  | some elapsed => elapsed ≥ timeout
  | none => false

/-- `HeartbeatManager::get_dead_brokers`, where the map iterates in this order. -/
def getDeadBrokers (m : HeartbeatManager) (order : List String) (now : SystemTime) : List String :=
  (HashMap.iter order m.lastHeartbeats).filterMap fun (brokerId, lastHeartbeat) =>
    if isDead m.timeout now lastHeartbeat then some brokerId else none

/-- `HeartbeatManager::remove_broker`. -/
def removeBroker (m : HeartbeatManager) (brokerId : String) : HeartbeatManager :=
  { m with lastHeartbeats := m.lastHeartbeats.erase brokerId }

end HeartbeatManager

/-! ### The checker -/

/-- What other tasks do to the manager, and what the task of `start_checker` does. -/
inductive LivenessEvent
  | recordHeartbeat (brokerId : String) (now : SystemTime)
  | removeBroker (brokerId : String)
  | look (order : List String) (now : SystemTime)
  | onDead
deriving DecidableEq

/-- A manager with its checker: the `dead_brokers` that it has still to name, those that it
has named, and what each of its looks has found. -/
structure LivenessRun where
  manager : HeartbeatManager
  deadBrokers : List String
  named : List String
  found : List (SystemTime × List String)

namespace LivenessRun

/-- A new manager, whose checker has been started. -/
def start (timeout : Duration) : LivenessRun := ⟨.new timeout, [], [], []⟩

/-- One event.  The checker looks again once it has named all that it found, and calls
`on_dead` while there is one left. -/
def step (s : LivenessRun) : LivenessEvent → LivenessRun
  | .recordHeartbeat brokerId now => { s with manager := s.manager.recordHeartbeat brokerId now }
  | .removeBroker brokerId => { s with manager := s.manager.removeBroker brokerId }
  | .look order now =>
      if s.deadBrokers = [] ∧ HashMap.Enumerates order s.manager.lastHeartbeats then
        let deadBrokers := s.manager.getDeadBrokers order now
        { s with deadBrokers, found := s.found ++ [(now, deadBrokers)] }
      else s
  | .onDead =>
      match s.deadBrokers with
      | brokerId :: rest => { s with deadBrokers := rest, named := s.named ++ [brokerId] }
      | [] => s

/-- A run from a new manager. -/
def run (timeout : Duration) (events : List LivenessEvent) : LivenessRun :=
  events.foldl step (start timeout)

end LivenessRun

namespace LivenessEvent

variable {brokerId : String}

/-- When the broker was last heard, after one more event. -/
def heard (brokerId : String) (last : Option SystemTime) : LivenessEvent → Option SystemTime
  | .recordHeartbeat other now => if brokerId = other then some now else last
  | .removeBroker other => if brokerId = other then none else last
  | _ => last

/-- When the broker was last heard, if it has been since it was last removed. -/
def lastHeard (brokerId : String) (events : List LivenessEvent) : Option SystemTime :=
  events.foldl (heard brokerId) none

/-- The event is no heartbeat of the broker, and does not remove it. -/
def Silent (brokerId : String) : LivenessEvent → Prop
  | .recordHeartbeat other _ => other ≠ brokerId
  | .removeBroker other => other ≠ brokerId
  | _ => True

instance (brokerId : String) (e : LivenessEvent) : Decidable (Silent brokerId e) :=
  match e with
  | .recordHeartbeat other _ => inferInstanceAs (Decidable (other ≠ brokerId))
  | .removeBroker other => inferInstanceAs (Decidable (other ≠ brokerId))
  | .look .. => inferInstanceAs (Decidable True)
  | .onDead => inferInstanceAs (Decidable True)

theorem heard_of_silent {last : Option SystemTime} {e : LivenessEvent} (h : Silent brokerId e) :
    heard brokerId last e = last := by
  cases e with
  | recordHeartbeat other now => exact if_neg h.symm
  | removeBroker other => exact if_neg h.symm
  | look order now => rfl
  | onDead => rfl

end LivenessEvent

namespace HeartbeatManager

variable {m : HeartbeatManager} {order : List String} {brokerId : String}
variable {timeout : Duration} {now t : SystemTime}

theorem isDead_iff : isDead timeout now t = true ↔ t.nanos + timeout ≤ now.nanos := by
  rw [isDead, SystemTime.durationSince]
  by_cases hle : t.nanos ≤ now.nanos
  · rw [if_pos hle]
    have hsub : 0 ≤ now.nanos - t.nanos := by omega
    show decide (timeout ≤ (now.nanos - t.nanos).toNat) = true ↔ _
    rw [decide_eq_true_eq, Int.le_toNat hsub]
    omega
  · rw [if_neg hle]
    apply iff_of_false Bool.false_ne_true
    omega

theorem isAlive_iff : m.isAlive brokerId now = true ↔
    ∃ t, m.lastHeartbeats.lookup brokerId = some t ∧
      t.nanos ≤ now.nanos ∧ now.nanos < t.nanos + m.timeout := by
  rw [isAlive]
  cases m.lastHeartbeats.lookup brokerId with
  | none => simp
  | some t =>
      simp only [SystemTime.durationSince, Option.some.injEq, exists_eq_left']
      by_cases hle : t.nanos ≤ now.nanos
      · rw [if_pos hle]
        have hsub : 0 ≤ now.nanos - t.nanos := by omega
        show decide ((now.nanos - t.nanos).toNat < m.timeout) = true ↔ _
        rw [decide_eq_true_eq, Int.toNat_lt hsub]
        omega
      · rw [if_neg hle]
        simp [hle]

theorem getDeadBrokers_eq (h : HashMap.Enumerates order m.lastHeartbeats) :
    m.getDeadBrokers order now =
      order.filter fun brokerId => (m.lastHeartbeats.lookup brokerId).any (isDead m.timeout now) := by
  rw [getDeadBrokers, HashMap.iter, List.filterMap_filterMap, ← List.filterMap_eq_filter]
  apply List.filterMap_congr
  intro b hb
  obtain ⟨t, ht⟩ := Option.isSome_iff_exists.mp (Finmap.lookup_isSome.mpr (h.mem_iff.mp hb))
  rw [Option.guard_def]
  show _ = if (m.lastHeartbeats.lookup b).any (isDead m.timeout now) = true then some b else none
  rw [ht]
  rfl

theorem nodup_getDeadBrokers (h : HashMap.Enumerates order m.lastHeartbeats) :
    (m.getDeadBrokers order now).Nodup := by
  rw [getDeadBrokers_eq h]
  exact h.1.filter _

theorem mem_getDeadBrokers (h : HashMap.Enumerates order m.lastHeartbeats) :
    brokerId ∈ m.getDeadBrokers order now ↔
      ∃ t, m.lastHeartbeats.lookup brokerId = some t ∧ t.nanos + m.timeout ≤ now.nanos := by
  rw [getDeadBrokers_eq h, List.mem_filter, Option.any_eq_true]
  simp only [isDead_iff]
  constructor
  · rintro ⟨-, t, ht⟩
    exact ⟨t, ht⟩
  · rintro ⟨t, ht⟩
    exact ⟨h.mem_iff.mpr (Finmap.mem_of_lookup_eq_some ht.1), t, ht⟩

end HeartbeatManager

namespace LivenessRun

open LivenessEvent

variable {timeout : Duration} {s : LivenessRun} {brokerId : String}

@[simp] theorem timeout_step (s : LivenessRun) (e : LivenessEvent) :
    (s.step e).manager.timeout = s.manager.timeout := by
  cases e with
  | recordHeartbeat other now => rfl
  | removeBroker other => rfl
  | look order now =>
      rw [step]
      split
      · rfl
      · rfl
  | onDead =>
      rw [step]
      split
      · rfl
      · rfl

theorem lookup_step (s : LivenessRun) (e : LivenessEvent) :
    (s.step e).manager.lastHeartbeats.lookup brokerId =
      heard brokerId (s.manager.lastHeartbeats.lookup brokerId) e := by
  cases e with
  | recordHeartbeat other now => exact HashMap.lookup_insert_eq _ _ _ _
  | removeBroker other => exact HashMap.lookup_erase_eq _ _ _
  | look order now =>
      rw [step]
      split
      · rfl
      · rfl
  | onDead =>
      rw [step]
      split
      · rfl
      · rfl

/-- What has been named and what has still to be is what the looks have found. -/
def Told (s : LivenessRun) : Prop := s.named ++ s.deadBrokers = s.found.flatMap Prod.snd

theorem told_step {e : LivenessEvent} (h : s.Told) : (s.step e).Told := by
  cases e with
  | recordHeartbeat other now => exact h
  | removeBroker other => exact h
  | look order now =>
      rw [step]
      split
      · -- all that had been found has been named
        rename_i hlook
        have hnamed : s.named = s.found.flatMap Prod.snd := by
          rw [← h, hlook.1, List.append_nil]
        simp only [Told, hnamed, List.flatMap_append, List.flatMap_singleton]
      · exact h
  | onDead =>
      rw [step]
      split
      · rename_i brokerId rest hdead
        show (s.named ++ [brokerId]) ++ rest = _
        rw [List.append_assoc, List.singleton_append, ← hdead]
        exact h
      · exact h

theorem run_append (timeout : Duration) (before after : List LivenessEvent) :
    run timeout (before ++ after) = after.foldl step (run timeout before) :=
  List.foldl_append

theorem run_concat (timeout : Duration) (events : List LivenessEvent) (e : LivenessEvent) :
    run timeout (events ++ [e]) = (run timeout events).step e :=
  run_append timeout events [e]

theorem timeout_foldl (s : LivenessRun) (events : List LivenessEvent) :
    (events.foldl step s).manager.timeout = s.manager.timeout := by
  induction events generalizing s with
  | nil => rfl
  | cons e events ih => exact (ih (s.step e)).trans (timeout_step s e)

theorem timeout_run (timeout : Duration) (events : List LivenessEvent) :
    (run timeout events).manager.timeout = timeout :=
  timeout_foldl (start timeout) events

/-- The table has what has been heard. -/
theorem lookup_run (timeout : Duration) (events : List LivenessEvent) (brokerId : String) :
    (run timeout events).manager.lastHeartbeats.lookup brokerId = lastHeard brokerId events := by
  induction events using List.reverseRecOn with
  | nil => rfl
  | append_singleton events e ih =>
      rw [run_concat, lookup_step, ih, lastHeard, lastHeard, List.foldl_concat]

theorem told_run (timeout : Duration) (events : List LivenessEvent) : (run timeout events).Told :=
  List.foldlRecOn events _ rfl fun _ h _ _ => told_step h

/-- **The detector is exact.**  After any events, in whatever order, what the checker has
named and has still to name is what its looks have found; a broker is alive if it has been
heard within the timeout; and the next look finds, once each, the brokers that have been
heard since they were last removed, but not within the timeout. -/
theorem detector_exact (timeout : Duration) (events : List LivenessEvent) :
    (run timeout events).Told ∧
    (∀ brokerId now, (run timeout events).manager.isAlive brokerId now = true ↔
      ∃ t, lastHeard brokerId events = some t ∧
        t.nanos ≤ now.nanos ∧ now.nanos < t.nanos + timeout) ∧
    ∀ order now, (run timeout events).deadBrokers = [] →
      HashMap.Enumerates order (run timeout events).manager.lastHeartbeats →
      ∃ deadBrokers, (run timeout (events ++ [.look order now])).found =
          (run timeout events).found ++ [(now, deadBrokers)] ∧
        deadBrokers.Nodup ∧
        ∀ brokerId, brokerId ∈ deadBrokers ↔
          ∃ t, lastHeard brokerId events = some t ∧ t.nanos + timeout ≤ now.nanos := by
  refine ⟨told_run timeout events, fun brokerId now => ?_, fun order now hidle horder => ?_⟩
  · rw [HeartbeatManager.isAlive_iff, lookup_run, timeout_run]
  · refine ⟨(run timeout events).manager.getDeadBrokers order now, ?_,
      HeartbeatManager.nodup_getDeadBrokers horder, fun brokerId => ?_⟩
    · rw [run_concat, step, if_pos ⟨hidle, horder⟩]
    · rw [HeartbeatManager.mem_getDeadBrokers horder, lookup_run, timeout_run]

/-! ### How long it takes -/

/-- The readings of the clock rise by at most the period. -/
def Paced (period : Duration) (earlier later : SystemTime) : Prop :=
  earlier.nanos ≤ later.nanos ∧ later.nanos ≤ earlier.nanos + period

instance (period : Duration) (earlier later : SystemTime) : Decidable (Paced period earlier later) :=
  inferInstanceAs (Decidable (_ ∧ _))

/-- The looks that a run has added. -/
def looksSince (before after : LivenessRun) : List (SystemTime × List String) :=
  after.found.drop before.found.length

theorem looksSince_eq {before after : LivenessRun} {looks : List (SystemTime × List String)}
    (h : after.found = before.found ++ looks) : looksSince before after = looks := by
  rw [looksSince, h, List.drop_left]

/-- One event adds at most one look, and what that finds of a broker depends on when the
broker was last heard. -/
theorem found_step {t : SystemTime} (e : LivenessEvent)
    (hheard : s.manager.lastHeartbeats.lookup brokerId = some t) :
    ∃ looks, (s.step e).found = s.found ++ looks ∧
      ∀ look ∈ looks, brokerId ∈ look.2 ↔ t.nanos + s.manager.timeout ≤ look.1.nanos := by
  have hnone : ∀ look ∈ ([] : List (SystemTime × List String)),
      brokerId ∈ look.2 ↔ t.nanos + s.manager.timeout ≤ look.1.nanos :=
    fun look hlook => absurd hlook List.not_mem_nil
  cases e with
  | recordHeartbeat other now => exact ⟨[], (List.append_nil _).symm, hnone⟩
  | removeBroker other => exact ⟨[], (List.append_nil _).symm, hnone⟩
  | onDead =>
      refine ⟨[], ?_, hnone⟩
      rw [step, List.append_nil]
      split
      · rfl
      · rfl
  | look order now =>
      rw [step]
      split
      · rename_i hlook
        refine ⟨[(now, s.manager.getDeadBrokers order now)], rfl, fun look hmem => ?_⟩
        rw [List.mem_singleton.mp hmem, HeartbeatManager.mem_getDeadBrokers hlook.2, hheard]
        simp
      · exact ⟨[], (List.append_nil _).symm, hnone⟩

/-- While a broker is silent, what a look finds of it depends on the time alone. -/
theorem found_of_silent {t : SystemTime} {events : List LivenessEvent}
    (hheard : s.manager.lastHeartbeats.lookup brokerId = some t)
    (hsilent : ∀ e ∈ events, Silent brokerId e) :
    ∃ looks, (events.foldl step s).found = s.found ++ looks ∧
      ∀ look ∈ looks, brokerId ∈ look.2 ↔ t.nanos + s.manager.timeout ≤ look.1.nanos := by
  induction events generalizing s with
  | nil => exact ⟨[], (List.append_nil _).symm, fun look hlook => absurd hlook List.not_mem_nil⟩
  | cons e events ih =>
      have hstill : (s.step e).manager.lastHeartbeats.lookup brokerId = some t := by
        rw [lookup_step, hheard, heard_of_silent (hsilent e List.mem_cons_self)]
      obtain ⟨looks, hfound, hlooks⟩ := ih hstill fun e he => hsilent e (List.mem_cons_of_mem _ he)
      rw [timeout_step] at hlooks
      obtain ⟨more, hmore, hmoreLooks⟩ := found_step e hheard
      refine ⟨more ++ looks, ?_, fun look hlook => ?_⟩
      · rw [List.foldl_cons, hfound, hmore, List.append_assoc]
      · cases List.mem_append.mp hlook with
        | inl hlook => exact hmoreLooks look hlook
        | inr hlook => exact hlooks look hlook

/-- Once it is late, it stays so. -/
theorem late_of_paced {α : Type*} {time : α → SystemTime} {period : Duration} {deadline : Int}
    {looks : List α} {t : SystemTime} (hpaced : (t :: looks.map time).IsChain (Paced period))
    (ht : deadline ≤ t.nanos) : ∀ x ∈ looks, deadline ≤ (time x).nanos := by
  induction looks generalizing t with
  | nil => exact fun x hx => absurd hx List.not_mem_nil
  | cons look looks ih =>
      rw [List.map_cons, List.isChain_cons_cons] at hpaced
      have hlook : deadline ≤ (time look).nanos := ht.trans hpaced.1.1
      exact List.forall_mem_cons.mpr ⟨hlook, ih hpaced.2 hlook⟩

theorem exists_first_late {α : Type*} {time : α → SystemTime} {period : Duration} {deadline : Int}
    {looks : List α} {t : SystemTime} (hpaced : (t :: looks.map time).IsChain (Paced period))
    (ht : t.nanos < deadline) (hlate : ∃ look ∈ looks, deadline ≤ (time look).nanos) :
    ∃ earlier look later, looks = earlier ++ look :: later ∧
      (∀ x ∈ earlier, (time x).nanos < deadline) ∧
      deadline ≤ (time look).nanos ∧ (time look).nanos < deadline + period ∧
      ∀ x ∈ later, deadline ≤ (time x).nanos := by
  induction looks generalizing t with
  | nil =>
      obtain ⟨look, hlook, -⟩ := hlate
      cases hlook
  | cons look looks ih =>
      rw [List.map_cons, List.isChain_cons_cons] at hpaced
      by_cases hlook : deadline ≤ (time look).nanos
      · refine ⟨[], look, looks, rfl, fun x hx => absurd hx List.not_mem_nil, hlook, ?_,
          late_of_paced hpaced.2 hlook⟩
        have := hpaced.1.2
        omega
      · have hsome : ∃ look ∈ looks, deadline ≤ (time look).nanos := by
          obtain ⟨x, hx, hdeadline⟩ := hlate
          cases List.mem_cons.mp hx with
          | inl hx =>
              rw [hx] at hdeadline
              exact absurd hdeadline hlook
          | inr hx => exact ⟨x, hx, hdeadline⟩
        obtain ⟨earlier, first, later, rfl, hearlier, hfirst⟩ :=
          ih hpaced.2 (not_le.mp hlook) hsome
        exact ⟨look :: earlier, first, later, rfl,
          List.forall_mem_cons.mpr ⟨not_le.mp hlook, hearlier⟩, hfirst⟩

/-- **A broker that falls silent is found in time.**  Where the clock does not step back and
the looks after the last heartbeat are at most half a timeout apart, and go on until the
timeout is over, none of them finds the broker before the timeout is over, one does within
half a timeout after it, and all that follow do. -/
theorem detected_in_time (timeout : Duration) (before after : List LivenessEvent)
    (brokerId : String) (t : SystemTime) (looks : List (SystemTime × List String))
    (hinterval : 0 < timeout / 2)
    (hsilent : ∀ e ∈ after, Silent brokerId e)
    (hlooks : looks = looksSince (run timeout (before ++ [.recordHeartbeat brokerId t]))
      (run timeout (before ++ [.recordHeartbeat brokerId t] ++ after)))
    (hpaced : (t :: looks.map Prod.fst).IsChain (Paced (timeout / 2)))
    (hlate : ∃ look ∈ looks, t.nanos + timeout ≤ look.1.nanos) :
    ∃ earlier now deadBrokers later, looks = earlier ++ (now, deadBrokers) :: later ∧
      (∀ look ∈ earlier, look.1.nanos < t.nanos + timeout ∧ brokerId ∉ look.2) ∧
      t.nanos + timeout ≤ now.nanos ∧ now.nanos < t.nanos + timeout + (timeout / 2 : Nat) ∧
      brokerId ∈ deadBrokers ∧
      ∀ look ∈ later, brokerId ∈ look.2 := by
  have hheard : (run timeout (before ++ [.recordHeartbeat brokerId t])).manager.lastHeartbeats.lookup
      brokerId = some t := by
    rw [run_concat, lookup_step]
    exact if_pos rfl
  obtain ⟨added, hadded, hfound⟩ := found_of_silent hheard hsilent
  rw [timeout_run] at hfound
  rw [run_append _ _ after, looksSince_eq hadded] at hlooks
  subst hlooks
  have htimeout : (0 : Int) < (timeout : Nat) :=
    Int.natCast_pos.mpr (Nat.pos_of_div_pos hinterval)
  obtain ⟨earlier, ⟨now, deadBrokers⟩, later, rfl, hearlier, hlate, hbound, hlater⟩ :=
    exists_first_late hpaced (Int.lt_add_of_pos_right _ htimeout) hlate
  refine ⟨earlier, now, deadBrokers, later, rfl, fun look hlook => ?_, hlate, hbound, ?_,
    fun look hlook => ?_⟩
  · have hmem : look ∈ earlier ++ (now, deadBrokers) :: later := List.mem_append_left _ hlook
    refine ⟨hearlier look hlook, fun hdead => ?_⟩
    exact absurd ((hfound look hmem).mp hdead) (not_le.mpr (hearlier look hlook))
  · exact (hfound (now, deadBrokers) (List.mem_append_right _ List.mem_cons_self)).mpr hlate
  · have hmem : look ∈ earlier ++ (now, deadBrokers) :: later :=
      List.mem_append_right _ (List.mem_cons_of_mem _ hlook)
    exact (hfound look hmem).mpr (hlater look hlook)

/-- A broker is heard once; the checker looks every second and finds it silent after two. -/
def oneHeartbeat : List LivenessEvent :=
  [.look ["broker-1"] ⟨10 ^ 9, by decide, by decide⟩,
    .look ["broker-1"] ⟨2 * 10 ^ 9, by decide, by decide⟩, .onDead,
    .look ["broker-1"] ⟨3 * 10 ^ 9, by decide, by decide⟩]

theorem detected_in_time_oneHeartbeat :
    ∃ earlier now deadBrokers later,
      looksSince (run (.fromSecs 2) [.recordHeartbeat "broker-1" .unixEpoch])
        (run (.fromSecs 2) (.recordHeartbeat "broker-1" .unixEpoch :: oneHeartbeat)) =
          earlier ++ (now, deadBrokers) :: later ∧
      (∀ look ∈ earlier, look.1.nanos < 2 * 10 ^ 9 ∧ "broker-1" ∉ look.2) ∧
      2 * 10 ^ 9 ≤ now.nanos ∧ now.nanos < 3 * 10 ^ 9 ∧
      "broker-1" ∈ deadBrokers ∧
      ∀ look ∈ later, "broker-1" ∈ look.2 :=
  detected_in_time (.fromSecs 2) [] oneHeartbeat "broker-1" .unixEpoch _
    (by decide) (by decide) rfl (by decide) (by decide)

end LivenessRun

/-! ### The overall status -/

namespace HealthMonitor

/-- The loop of `get_overall_status`: has it met an unhealthy component, and a degraded one. -/
def worstOf (found : Bool × Bool) (check : HealthCheck) : Bool × Bool :=
  match check.status with
  | .unhealthy => (true, found.2)
  | .degraded => (found.1, true)
  | _ => found

/-- `HealthMonitor::get_overall_status`, where the map iterates in this order. -/
def getOverallStatus (m : HealthMonitor) (order : List String) : HealthStatus :=
  if m.checks.keys = ∅ then .unknown
  else
    let (hasUnhealthy, hasDegraded) :=
      ((HashMap.iter order m.checks).map Prod.snd).foldl worstOf (false, false)
    if hasUnhealthy then .unhealthy
    else if hasDegraded then .degraded
    else .healthy

/-- The status that the monitor shows for a component. -/
def statusOf (m : HealthMonitor) (component : String) : Option HealthStatus :=
  (m.checks.lookup component).map HealthCheck.status

variable {m : HealthMonitor} {order : List String} {component : String}

theorem foldl_worstOf (checks : List HealthCheck) (found : Bool × Bool) :
    checks.foldl worstOf found =
      (found.1 || checks.any fun check => check.status = .unhealthy,
        found.2 || checks.any fun check => check.status = .degraded) := by
  induction checks generalizing found with
  | nil => simp
  | cons check checks ih =>
      rw [List.foldl_cons, ih, List.any_cons, List.any_cons, worstOf]
      cases check.status with
      | healthy => simp
      | degraded => simp
      | unhealthy => simp
      | unknown => simp

theorem any_iter_iff (h : HashMap.Enumerates order m.checks) (status : HealthStatus) :
    ((HashMap.iter order m.checks).map Prod.snd).any (fun check => check.status = status) = true ↔
      ∃ component, m.statusOf component = some status := by
  rw [List.any_eq_true]
  constructor
  · rintro ⟨check, hcheck, hstatus⟩
    obtain ⟨⟨component, other⟩, hvisited, rfl⟩ := List.mem_map.mp hcheck
    refine ⟨component, ?_⟩
    rw [statusOf, h.mem_iter.mp hvisited]
    exact congrArg some (of_decide_eq_true hstatus)
  · rintro ⟨component, hstatus⟩
    obtain ⟨check, hlookup, rfl⟩ := Option.map_eq_some_iff.mp hstatus
    have hcheck : check ∈ (HashMap.iter order m.checks).map Prod.snd :=
      List.mem_map.mpr ⟨(component, check), h.mem_iter.mpr hlookup, rfl⟩
    exact ⟨check, hcheck, decide_eq_true rfl⟩

theorem keys_eq_empty_iff : m.checks.keys = ∅ ↔ ∀ component, m.statusOf component = none := by
  rw [Finset.eq_empty_iff_forall_notMem]
  apply forall_congr'
  intro component
  rw [Finmap.mem_keys, ← Finmap.lookup_eq_none, statusOf, Option.map_eq_none_iff]

/-- A round registers its checks one after the other. -/
theorem statusOf_registerCheck (m : HealthMonitor) (check : HealthCheck) (component : String) :
    (m.registerCheck check).statusOf component =
      if component = check.component then some check.status else m.statusOf component := by
  rw [statusOf, registerCheck, HashMap.lookup_insert_eq]
  split
  · rfl
  · rfl

theorem statusOf_updateCheck (overflowChecks : Bool) (m : HealthMonitor) (other : String)
    (status : HealthStatus) (message : String) (now : SystemTime) (component : String) :
    (m.updateCheck overflowChecks other status message now).2.statusOf component =
      if component = other then (m.statusOf component).map fun _ => status
      else m.statusOf component := by
  have hchecks : (m.updateCheck overflowChecks other status message now).2.checks =
      HashMap.modify other
        (fun check => { check with status, message, timestamp := now }) m.checks := by
    cases status with
    | unhealthy =>
        rw [updateCheck]
        dsimp only
        split
        · rfl
        · rfl
    | healthy => rfl
    | degraded => rfl
    | unknown => rfl
  rw [statusOf, statusOf, hchecks, HashMap.lookup_modify]
  split
  · rename_i hother
    rw [hother, Option.map_map, Option.map_map]
    rfl
  · rfl

/-- The flags of the loop, in the order in which they are asked. -/
theorem getOverallStatus_cases (h : HashMap.Enumerates order m.checks) :
    (m.getOverallStatus order = .unknown ∧ ∀ component, m.statusOf component = none) ∨
    (∃ component, m.statusOf component ≠ none) ∧
      ((m.getOverallStatus order = .unhealthy ∧
          ∃ component, m.statusOf component = some .unhealthy) ∨
        (∀ component, m.statusOf component ≠ some .unhealthy) ∧
          ((m.getOverallStatus order = .degraded ∧
              ∃ component, m.statusOf component = some .degraded) ∨
            m.getOverallStatus order = .healthy ∧
              ∀ component, m.statusOf component ≠ some .degraded)) := by
  rw [getOverallStatus]
  by_cases hempty : m.checks.keys = ∅
  · rw [if_pos hempty]
    exact .inl ⟨rfl, keys_eq_empty_iff.mp hempty⟩
  · rw [if_neg hempty, foldl_worstOf, Bool.false_or, Bool.false_or]
    refine .inr ⟨not_forall.mp (mt keys_eq_empty_iff.mpr hempty), ?_⟩
    dsimp only
    by_cases hunhealthy : ∃ component, m.statusOf component = some .unhealthy
    · rw [if_pos ((any_iter_iff h .unhealthy).mpr hunhealthy)]
      exact .inl ⟨rfl, hunhealthy⟩
    · rw [if_neg (mt (any_iter_iff h .unhealthy).mp hunhealthy)]
      refine .inr ⟨not_exists.mp hunhealthy, ?_⟩
      by_cases hdegraded : ∃ component, m.statusOf component = some .degraded
      · rw [if_pos ((any_iter_iff h .degraded).mpr hdegraded)]
        exact .inl ⟨rfl, hdegraded⟩
      · rw [if_neg (mt (any_iter_iff h .degraded).mp hdegraded)]
        exact .inr ⟨rfl, not_exists.mp hdegraded⟩

end HealthMonitor

namespace HealthRun

open HealthMonitor

/-- The status that a component shows, after one more call. -/
def shown (component : String) (status : Option HealthStatus) : HealthCall → Option HealthStatus
  | .registerCheck check => if component = check.component then some check.status else status
  | .updateCheck other newStatus _ _ =>
      if component = other then status.map fun _ => newStatus else status
  | .resetFailures _ => status
  | .schedulerRound newChecks =>
      newChecks.foldl (fun status check =>
        if component = check.component then some check.status else status) status

/-- The status that a component has last shown, if it has been registered. -/
def lastShown (component : String) (calls : List HealthCall) : Option HealthStatus :=
  calls.foldl (shown component) none

theorem statusOf_exec (overflowChecks : Bool) (m : HealthMonitor) (call : HealthCall)
    (component : String) :
    (exec overflowChecks m call).statusOf component = shown component (m.statusOf component) call := by
  cases call with
  | registerCheck check => exact statusOf_registerCheck m check component
  | updateCheck other status message now =>
      exact statusOf_updateCheck overflowChecks m other status message now component
  | resetFailures other => rfl
  | schedulerRound newChecks =>
      rw [exec, schedulerRound, shown]
      induction newChecks generalizing m with
      | nil => rfl
      | cons check newChecks ih =>
          rw [List.foldl_cons, List.foldl_cons, ih, statusOf_registerCheck]

theorem statusOf_run (overflowChecks : Bool) (checkInterval : Duration) (failureThreshold : UInt32)
    (calls : List HealthCall) (component : String) :
    (calls.foldl (step overflowChecks)
      (start checkInterval failureThreshold)).monitor.statusOf component =
        lastShown component calls := by
  induction calls using List.reverseRecOn with
  | nil => rfl
  | append_singleton calls call ih =>
      rw [List.foldl_concat, step, statusOf_exec, ih, lastShown, lastShown, List.foldl_concat]

/-- **The overall status is the worst of those shown**, in whatever order the table is
iterated: unknown if no component has been registered, else unhealthy or degraded if a
component has last shown that, and a component of unknown status passes for healthy. -/
theorem overall_is_worst (overflowChecks : Bool) (checkInterval : Duration)
    (failureThreshold : UInt32) (calls : List HealthCall) (order : List String)
    (horder : HashMap.Enumerates order (calls.foldl (step overflowChecks)
      (start checkInterval failureThreshold)).monitor.checks) :
    let overall := (calls.foldl (step overflowChecks)
      (start checkInterval failureThreshold)).monitor.getOverallStatus order
    (overall = .unknown ↔ ∀ component, lastShown component calls = none) ∧
    (overall = .unhealthy ↔ ∃ component, lastShown component calls = some .unhealthy) ∧
    (overall = .degraded ↔ (∃ component, lastShown component calls = some .degraded) ∧
      ∀ component, lastShown component calls ≠ some .unhealthy) ∧
    (overall = .healthy ↔ (∃ component, lastShown component calls ≠ none) ∧
      ∀ component, ∀ status ∈ lastShown component calls,
        status = .healthy ∨ status = .unknown) := by
  have hcases := getOverallStatus_cases horder
  simp only [statusOf_run] at hcases
  intro overall
  rcases hcases with ⟨hoverall, hnone⟩ | ⟨hsome, ⟨hoverall, hunhealthy⟩ |
    ⟨hunhealthy, ⟨hoverall, hdegraded⟩ | ⟨hoverall, hdegraded⟩⟩⟩
  · rw [show overall = .unknown from hoverall]
    simp [hnone]
  · rw [show overall = .unhealthy from hoverall]
    obtain ⟨component, hstatus⟩ := hunhealthy
    refine ⟨iff_of_false (by decide) fun h => ?_, iff_of_true rfl ⟨component, hstatus⟩,
      iff_of_false (by decide) fun h => h.2 component hstatus,
      iff_of_false (by decide) fun h => ?_⟩
    · rw [h component] at hstatus
      cases hstatus
    · rcases h.2 component .unhealthy hstatus with hother | hother
      · cases hother
      · cases hother
  · rw [show overall = .degraded from hoverall]
    obtain ⟨component, hstatus⟩ := hdegraded
    refine ⟨iff_of_false (by decide) fun h => ?_,
      iff_of_false (by decide) fun h => hunhealthy _ h.choose_spec,
      iff_of_true rfl ⟨⟨component, hstatus⟩, hunhealthy⟩,
      iff_of_false (by decide) fun h => ?_⟩
    · rw [h component] at hstatus
      cases hstatus
    · rcases h.2 component .degraded hstatus with hother | hother
      · cases hother
      · cases hother
  · rw [show overall = .healthy from hoverall]
    refine ⟨iff_of_false (by decide) fun h => hsome.choose_spec (h _),
      iff_of_false (by decide) fun h => hunhealthy _ h.choose_spec,
      iff_of_false (by decide) fun h => hdegraded _ h.1.choose_spec,
      iff_of_true rfl ⟨hsome, fun component status hstatus => ?_⟩⟩
    cases status with
    | healthy => exact .inl rfl
    | degraded => exact absurd hstatus (hdegraded component)
    | unhealthy => exact absurd hstatus (hunhealthy component)
    | unknown => exact .inr rfl

/-- A component that was never registered is reported unhealthy. -/
def strayReport : List HealthCall :=
  [.registerCheck (.healthy "broker" .unixEpoch),
    .updateCheck "storage" .unhealthy "Connection lost" .unixEpoch]

theorem overall_is_worst_strayReport :
    (strayReport.foldl (step true) (start (.fromSecs 5) 3)).monitor.getOverallStatus ["broker"] =
      .healthy := by
  refine (overall_is_worst true (.fromSecs 5) 3 strayReport ["broker"] (by decide)).2.2.2.mpr
    ⟨⟨"broker", by decide⟩, fun component status hstatus => ?_⟩
  by_cases hbroker : component = "broker"
  · subst hbroker
    exact .inl (Option.some.inj hstatus).symm
  · have hnone : lastShown component strayReport = none := by
      simp [lastShown, strayReport, shown, HealthCheck.healthy, hbroker]
    rw [hnone] at hstatus
    cases hstatus

end HealthRun

end Rafka
