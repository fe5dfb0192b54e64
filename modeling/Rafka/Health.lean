/-
Rafka/Health.lean

Health checks and the circuit breaker (`crates/core/src/health.rs`,
`HealthMonitor`).

The monitor keeps the last check of every component, and how often a component
has been reported unhealthy; a component that has been so too often in a row is
cut off.  Reports come in by `update_check`, which keeps both tables, and by
`register_check` and the rounds of the scheduler, which keep the first only.

A call is one step, in the order in which the calls write the second table.  A
build with overflow checks panics where the count overflows, one without them
wraps around.

Main result (`breaker_counts_iff`): whatever the threshold, the breaker counts
every report exactly if what comes in by `register_check` or a round would not
have changed a count, and no count wraps around.
-/
import Rafka.HashMap
import Rafka.Time
import Rafka.Trace

namespace Rafka

/-- `HealthStatus`. -/
inductive HealthStatus
  | healthy
  | degraded
  | unhealthy
  | unknown
deriving DecidableEq

/-- `HealthCheck`. -/
structure HealthCheck where
  component : String
  status : HealthStatus
  message : String
  timestamp : SystemTime
  details : HashMap String String

namespace HealthCheck

/-- `HealthCheck::healthy`. -/
def healthy (component : String) (now : SystemTime) : HealthCheck :=
  ⟨component, .healthy, "OK", now, ∅⟩

/-- `HealthCheck::degraded`. -/
def degraded (component message : String) (now : SystemTime) : HealthCheck :=
  ⟨component, .degraded, message, now, ∅⟩

/-- `HealthCheck::unhealthy`. -/
def unhealthy (component message : String) (now : SystemTime) : HealthCheck :=
  ⟨component, .unhealthy, message, now, ∅⟩

end HealthCheck

/-- `*count += 1` on a `u32`. -/
def u32Succ (overflowChecks : Bool) (count : UInt32) : Option UInt32 :=
  if count.toNat + 1 < 2 ^ 32 then some (count + 1)
  else if overflowChecks then none
  else some 0

/-- `HealthMonitor`. -/
structure HealthMonitor where
  checks : HashMap String HealthCheck
  checkInterval : Duration
  failureThreshold : UInt32
  failureCounts : HashMap String UInt32

namespace HealthMonitor

/-- `HealthMonitor::new`. -/
def new (checkInterval : Duration) (failureThreshold : UInt32) : HealthMonitor :=
  ⟨∅, checkInterval, failureThreshold, ∅⟩

/-- `HealthMonitor::register_check`. -/
def registerCheck (m : HealthMonitor) (check : HealthCheck) : HealthMonitor :=
  { m with checks := m.checks.insert check.component check }

/-- `HealthMonitor::update_check`; `none` is a panic, after the check has been
updated. -/
def updateCheck (overflowChecks : Bool) (m : HealthMonitor) (component : String)
    (status : HealthStatus) (message : String) (now : SystemTime) :
    Option Unit × HealthMonitor :=
  let checks := HashMap.modify component
    (fun check => { check with status, message, timestamp := now }) m.checks
  let m := { m with checks }
  match status with
  | .unhealthy =>
      match u32Succ overflowChecks ((m.failureCounts.lookup component).getD 0) with
      | some count => (some (), { m with failureCounts := m.failureCounts.insert component count })
      | none => (none, m)
  | .healthy => (some (), { m with failureCounts := m.failureCounts.erase component })
  | _ => (some (), m)

/-- `HealthMonitor::is_circuit_broken`. -/
def isCircuitBroken (m : HealthMonitor) (component : String) : Bool :=
  ((m.failureCounts.lookup component).map fun count => decide (count ≥ m.failureThreshold)).getD false

/-- `HealthMonitor::reset_failures`. -/
def resetFailures (m : HealthMonitor) (component : String) : HealthMonitor :=
  { m with failureCounts := m.failureCounts.erase component }

/-- One round of the task of `start_scheduler`, for what `check_fn` returned. -/
def schedulerRound (m : HealthMonitor) (newChecks : List HealthCheck) : HealthMonitor :=
  newChecks.foldl registerCheck m

/-- The failures of a component in a table. -/
def failures (failureCounts : HashMap String UInt32) (component : String) : Nat :=
  ((failureCounts.lookup component).getD 0).toNat

/-- How often the component has been counted as unhealthy. -/
def count (m : HealthMonitor) (component : String) : Nat := failures m.failureCounts component

end HealthMonitor

/-! ### What the monitor is told -/

/-- What the monitor is told about a component. -/
inductive HealthEvent
  | report (component : String) (status : HealthStatus)
  | reset (component : String)
deriving DecidableEq

namespace HealthEvent

/-- An unhealthy report of the component. -/
def fails (component : String) (e : HealthEvent) : Bool := e = .report component .unhealthy

/-- A healthy report of the component, or a reset. -/
def clears (component : String) (e : HealthEvent) : Bool :=
  e = .report component .healthy ∨ e = .reset component

/-- The number of unhealthy reports of the component since the last healthy one
or the last reset. -/
def failuresSince (component : String) (history : List HealthEvent) : Nat :=
  (history.reverse.takeWhile fun e => !e.clears component).countP fun e => e.fails component

/-- A count of failures, up to the largest `u32`, after one more event. -/
def tally (component : String) (n : Nat) (e : HealthEvent) : Nat :=
  if e.clears component then 0
  else if e.fails component then min (n + 1) (2 ^ 32 - 1)
  else n

end HealthEvent

/-- A call of the monitor, or a round of its scheduler. -/
inductive HealthCall
  | registerCheck (check : HealthCheck)
  | updateCheck (component : String) (status : HealthStatus) (message : String) (now : SystemTime)
  | resetFailures (component : String)
  | schedulerRound (newChecks : List HealthCheck)

namespace HealthCall

/-- The report that a check is. -/
def reportOf (check : HealthCheck) : HealthEvent := .report check.component check.status

/-- What a call tells the monitor. -/
def events : HealthCall → List HealthEvent
  | .registerCheck check => [reportOf check]
  | .updateCheck component status _ _ => [.report component status]
  | .resetFailures component => [.reset component]
  | .schedulerRound newChecks => newChecks.map reportOf

end HealthCall

/-- A monitor with what it has been told. -/
structure HealthRun where
  monitor : HealthMonitor
  history : List HealthEvent

namespace HealthRun

/-- A new monitor. -/
def start (checkInterval : Duration) (failureThreshold : UInt32) : HealthRun :=
  ⟨.new checkInterval failureThreshold, []⟩

/-- What a call does to the monitor. -/
def exec (overflowChecks : Bool) (m : HealthMonitor) : HealthCall → HealthMonitor
  | .registerCheck check => m.registerCheck check
  | .updateCheck component status message now =>
      (m.updateCheck overflowChecks component status message now).2
  | .resetFailures component => m.resetFailures component
  | .schedulerRound newChecks => m.schedulerRound newChecks

/-- One call. -/
def step (overflowChecks : Bool) (s : HealthRun) (call : HealthCall) : HealthRun :=
  ⟨exec overflowChecks s.monitor call, s.history ++ call.events⟩

/-- The circuit of a component is broken exactly if it has been reported
unhealthy often enough. -/
def CountsEveryReport (s : HealthRun) : Prop :=
  ∀ component, s.monitor.isCircuitBroken component ↔
    s.monitor.failureThreshold.toNat ≤ HealthEvent.failuresSince component s.history

/-- Counting these reports would leave every count as it is. -/
def Idle (m : HealthMonitor) (reports : List HealthEvent) : Prop :=
  ∀ component, reports.foldl (HealthEvent.tally component) (m.count component) = m.count component

/-- What comes in by `register_check` or a round would not have changed a count,
and no count wraps around. -/
def Heard (overflowChecks : Bool) (s : HealthRun) : HealthCall → Prop
  | .registerCheck check => Idle s.monitor [HealthCall.reportOf check]
  | .schedulerRound newChecks => Idle s.monitor (newChecks.map HealthCall.reportOf)
  | .updateCheck component status _ _ =>
      overflowChecks = true ∨ status ≠ .unhealthy ∨ s.monitor.count component + 1 < 2 ^ 32
  | .resetFailures _ => True

end HealthRun

/-! ### Counting -/

namespace HealthEvent

variable {component : String}

theorem failuresSince_concat (history : List HealthEvent) (e : HealthEvent) :
    failuresSince component (history ++ [e]) =
      if e.clears component then 0
      else if e.fails component then failuresSince component history + 1
      else failuresSince component history := by
  rw [failuresSince, List.reverse_concat, List.takeWhile_cons]
  by_cases hclears : e.clears component
  · simp [hclears]
  · simp only [hclears, Bool.not_false, if_true, List.countP_cons, Bool.false_eq_true, if_false]
    by_cases hfails : e.fails component
    · simp [hfails, failuresSince]
    · simp [hfails, failuresSince]

/-- A report of another component, or a reset of it, counts for nothing. -/
theorem tally_of_ne {other : String} {e : HealthEvent} (n : Nat)
    (he : e = .reset component ∨ ∃ status, e = .report component status) (hne : other ≠ component) :
    tally other n e = n := by
  rcases he with rfl | ⟨status, rfl⟩
  · simp [tally, clears, fails, hne.symm]
  · simp [tally, clears, fails, hne.symm]

/-- What an event about one component does to the counts shows at that one. -/
theorem forall_tally_iff {before after : String → Nat} {e : HealthEvent}
    (he : e = .reset component ∨ ∃ status, e = .report component status)
    (hother : ∀ other, other ≠ component → after other = before other) :
    (∀ other, after other = tally other (before other) e) ↔
      after component = tally component (before component) e := by
  refine ⟨fun hall => hall component, fun hself other => ?_⟩
  by_cases hne : other = component
  · rw [hne]
    exact hself
  · rw [hother other hne]
    exact (tally_of_ne _ he hne).symm

theorem tally_report (n : Nat) (status : HealthStatus) :
    tally component n (.report component status) =
      match status with
      | .healthy => 0
      | .unhealthy => min (n + 1) (2 ^ 32 - 1)
      | _ => n := by
  cases status with
  | _ => simp [tally, clears, fails]

/-- Counting up to the largest `u32` agrees with counting on. -/
theorem foldl_tally (events history : List HealthEvent) :
    events.foldl (tally component) (min (failuresSince component history) (2 ^ 32 - 1)) =
      min (failuresSince component (history ++ events)) (2 ^ 32 - 1) := by
  induction events generalizing history with
  | nil => rw [List.append_nil, List.foldl_nil]
  | cons e events ih =>
      have htally : tally component (min (failuresSince component history) (2 ^ 32 - 1)) e =
          min (failuresSince component (history ++ [e])) (2 ^ 32 - 1) := by
        rw [failuresSince_concat, tally]
        split_ifs
        · rfl
        · omega
        · rfl
      rw [List.foldl_cons, htally, ih, List.append_assoc, List.singleton_append]

end HealthEvent

namespace HealthMonitor

variable {m : HealthMonitor}

theorem failureCounts_schedulerRound (m : HealthMonitor) (newChecks : List HealthCheck) :
    (m.schedulerRound newChecks).failureCounts = m.failureCounts := by
  unfold schedulerRound
  induction newChecks generalizing m with
  | nil => rfl
  | cons check newChecks ih => exact ih (m.registerCheck check)

theorem failures_erase (failureCounts : HashMap String UInt32) (component other : String) :
    failures (failureCounts.erase component) other =
      if other = component then 0 else failures failureCounts other := by
  rw [failures, HashMap.lookup_erase_eq]
  split_ifs
  · rfl
  · rfl

theorem failures_insert (failureCounts : HashMap String UInt32) (component other : String)
    (count : UInt32) :
    failures (failureCounts.insert component count) other =
      if other = component then count.toNat else failures failureCounts other := by
  rw [failures, HashMap.lookup_insert_eq]
  split_ifs
  · rfl
  · rfl

theorem u32Succ_cases (overflowChecks : Bool) (count : UInt32) :
    (count.toNat + 1 < 2 ^ 32 ∧ ∃ next : UInt32, next.toNat = count.toNat + 1 ∧
      u32Succ overflowChecks count = some next) ∨
    (¬ count.toNat + 1 < 2 ^ 32 ∧ overflowChecks = true ∧ u32Succ overflowChecks count = none) ∨
    (¬ count.toNat + 1 < 2 ^ 32 ∧ overflowChecks = false ∧
      u32Succ overflowChecks count = some 0) := by
  by_cases hlt : count.toNat + 1 < 2 ^ 32
  · refine .inl ⟨hlt, count + 1, ?_, if_pos hlt⟩
    rw [UInt32.toNat_add, UInt32.toNat_one, Nat.mod_eq_of_lt hlt]
  · cases overflowChecks with
    | true => exact .inr (.inl ⟨hlt, rfl, if_neg hlt⟩)
    | false => exact .inr (.inr ⟨hlt, rfl, if_neg hlt⟩)

/-- The count of a component after a report, if the call goes through. -/
def countAfter (overflowChecks : Bool) (status : HealthStatus) (count : Nat) : Nat :=
  match status with
  | .healthy => 0
  | .unhealthy => if count + 1 < 2 ^ 32 then count + 1 else if overflowChecks then count else 0
  | _ => count

/-- `update_check` changes the count of its component only. -/
theorem count_updateCheck (overflowChecks : Bool) (m : HealthMonitor) (component : String)
    (status : HealthStatus) (message : String) (now : SystemTime) (other : String) :
    (m.updateCheck overflowChecks component status message now).2.count other =
      if other = component then countAfter overflowChecks status (m.count component)
      else m.count other := by
  have hself : (if other = component then m.count component else m.count other) = m.count other := by
    split_ifs with heq
    · rw [heq]
    · rfl
  cases status with
  | unhealthy =>
      have hcount : ((m.failureCounts.lookup component).getD 0).toNat = m.count component := rfl
      simp only [updateCheck]
      rcases u32Succ_cases overflowChecks ((m.failureCounts.lookup component).getD 0) with
        ⟨hlt, next, hnext, hsucc⟩ | ⟨hlt, rfl, hsucc⟩ | ⟨hlt, rfl, hsucc⟩
      all_goals
        rw [hcount] at hlt
        rw [hsucc, countAfter]
      · rw [hcount] at hnext
        rw [if_pos hlt, ← hnext]
        exact failures_insert _ _ _ _
      · rw [if_neg hlt, if_pos rfl]
        exact hself.symm
      · rw [if_neg hlt, if_neg Bool.false_ne_true]
        exact failures_insert _ _ _ _
  | healthy => exact failures_erase _ _ _
  | degraded => exact hself.symm
  | unknown => exact hself.symm

theorem count_lt (m : HealthMonitor) (component : String) : m.count component < 2 ^ 32 :=
  UInt32.toNat_lt _

/-- A circuit is broken from the threshold on. -/
theorem isCircuitBroken_iff (hthreshold : 1 ≤ m.failureThreshold) (component : String) :
    m.isCircuitBroken component ↔ m.failureThreshold.toNat ≤ m.count component := by
  rw [UInt32.le_iff_toNat_le] at hthreshold
  unfold isCircuitBroken count failures
  cases m.failureCounts.lookup component with
  | none =>
      apply iff_of_false (by simp)
      rw [Option.getD_none, UInt32.toNat_zero]
      exact Nat.not_le_of_lt hthreshold
  | some count => simp [UInt32.le_iff_toNat_le]

end HealthMonitor

namespace HealthRun

variable {s : HealthRun}

/-- The counts are exact, up to the largest `u32`. -/
def Exact (s : HealthRun) : Prop :=
  ∀ component, s.monitor.count component =
    min (HealthEvent.failuresSince component s.history) (2 ^ 32 - 1)

/-- The same monitor with another threshold. -/
def withThreshold (failureThreshold : UInt32) (s : HealthRun) : HealthRun :=
  { s with monitor := { s.monitor with failureThreshold } }

/-- The breaker counts every report, whatever its threshold, exactly if the counts
are exact. -/
theorem exact_iff :
    s.Exact ↔ ∀ threshold : UInt32, 1 ≤ threshold → (s.withThreshold threshold).CountsEveryReport := by
  constructor
  · intro h threshold hthreshold component
    rw [HealthMonitor.isCircuitBroken_iff hthreshold]
    show threshold.toNat ≤ s.monitor.count component ↔
      threshold.toNat ≤ HealthEvent.failuresSince component s.history
    have hlt := threshold.toNat_lt
    rw [h component]
    exact ⟨fun hle => by omega, fun hle => by omega⟩
  · intro h component
    have hagree : ∀ n, 1 ≤ n → n < 2 ^ 32 → (n ≤ s.monitor.count component ↔
        n ≤ HealthEvent.failuresSince component s.history) := by
      intro n hpos hlt
      have hn : (UInt32.ofNat n).toNat = n := UInt32.toNat_ofNat_of_lt' hlt
      have hthreshold : 1 ≤ UInt32.ofNat n := by
        rw [UInt32.le_iff_toNat_le, hn]
        exact hpos
      have hcounts := h (UInt32.ofNat n) hthreshold component
      rw [HealthMonitor.isCircuitBroken_iff hthreshold] at hcounts
      simpa only [withThreshold, HealthMonitor.count, hn] using hcounts
    -- the count itself and the next number tell it apart from every other
    have hlt := s.monitor.count_lt component
    have hself := hagree (s.monitor.count component)
    have hnext := hagree (s.monitor.count component + 1)
    omega

theorem step_withThreshold (overflowChecks : Bool) (threshold : UInt32) (s : HealthRun)
    (call : HealthCall) :
    step overflowChecks (s.withThreshold threshold) call =
      (step overflowChecks s call).withThreshold threshold := by
  cases call with
  | registerCheck check => rfl
  | updateCheck component status message now =>
      cases status with
      | unhealthy =>
          simp only [step, exec, withThreshold, HealthMonitor.updateCheck]
          cases u32Succ overflowChecks ((s.monitor.failureCounts.lookup component).getD 0) with
          | none => rfl
          | some count => rfl
      | _ => rfl
  | resetFailures component => rfl
  | schedulerRound newChecks =>
      have hround : ∀ m : HealthMonitor,
          ({ m with failureThreshold := threshold } : HealthMonitor).schedulerRound newChecks =
            { m.schedulerRound newChecks with failureThreshold := threshold } := by
        unfold HealthMonitor.schedulerRound
        induction newChecks with
        | nil => exact fun _ => rfl
        | cons check newChecks ih => exact fun m => ih (m.registerCheck check)
      simp only [step, exec, withThreshold, hround]

theorem heard_withThreshold {overflowChecks : Bool} {threshold : UInt32} {call : HealthCall} :
    Heard overflowChecks (s.withThreshold threshold) call ↔ Heard overflowChecks s call := by
  cases call with
  | _ => exact Iff.rfl

/-! ### Steps -/

/-- The counts that a list of events would leave. -/
theorem exact_append_iff (h : s.Exact) {m : HealthMonitor} (events : List HealthEvent) :
    Exact ⟨m, s.history ++ events⟩ ↔ ∀ component,
      m.count component = events.foldl (HealthEvent.tally component) (s.monitor.count component) := by
  apply forall_congr'
  intro component
  rw [h component, HealthEvent.foldl_tally]

/-- Calls that leave the counts alone. -/
theorem exact_iff_idle (h : s.Exact) {m : HealthMonitor} {events : List HealthEvent}
    (hm : m.failureCounts = s.monitor.failureCounts) :
    Exact ⟨m, s.history ++ events⟩ ↔ Idle s.monitor events := by
  rw [exact_append_iff h]
  apply forall_congr'
  intro component
  have hcount : m.count component = s.monitor.count component := by
    rw [HealthMonitor.count, HealthMonitor.count, hm]
  rw [hcount, eq_comm]

/-- Calls that are about one component. -/
theorem exact_concat_iff (h : s.Exact) {m : HealthMonitor} {component : String} {e : HealthEvent}
    (he : e = .reset component ∨ ∃ status, e = .report component status)
    (hother : ∀ other, other ≠ component → m.count other = s.monitor.count other) :
    Exact ⟨m, s.history ++ [e]⟩ ↔
      m.count component = HealthEvent.tally component (s.monitor.count component) e := by
  rw [exact_append_iff h]
  exact HealthEvent.forall_tally_iff he hother

/-- A single report would change nothing if it is healthy and there are no failures,
if it is unhealthy and no more can be counted, or if it is neither. -/
theorem idle_singleton_iff {m : HealthMonitor} {component : String} {status : HealthStatus} :
    Idle m [.report component status] ↔
      (status = .healthy → m.count component = 0) ∧
        (status = .unhealthy → m.count component + 1 = 2 ^ 32) := by
  have hself : Idle m [.report component status] ↔
      HealthEvent.tally component (m.count component) (.report component status) =
        m.count component := by
    rw [eq_comm]
    refine Iff.trans ?_ (HealthEvent.forall_tally_iff (.inr ⟨status, rfl⟩) fun _ _ => rfl)
    exact forall_congr' fun _ => eq_comm
  rw [hself, HealthEvent.tally_report]
  cases status with
  | healthy =>
      refine eq_comm.trans ⟨fun heq => ⟨fun _ => heq, ?_⟩, fun h => h.1 rfl⟩
      intro hstatus
      cases hstatus
  | unhealthy =>
      have hlt := m.count_lt component
      dsimp only
      refine ⟨fun heq => ⟨?_, fun _ => by omega⟩, fun h => ?_⟩
      · intro hstatus
        cases hstatus
      · have := h.2 rfl
        omega
  | _ => exact iff_of_true rfl ⟨nofun, nofun⟩

/-- **Exactness** of a call. -/
theorem exact_step_iff {overflowChecks : Bool} {call : HealthCall} (h : s.Exact) :
    (step overflowChecks s call).Exact ↔ Heard overflowChecks s call := by
  cases call with
  | registerCheck check => exact exact_iff_idle h rfl
  | schedulerRound newChecks =>
      exact exact_iff_idle h (s.monitor.failureCounts_schedulerRound newChecks)
  | resetFailures component =>
      have hcount : ∀ other, (s.monitor.resetFailures component).count other =
          if other = component then 0 else s.monitor.count other :=
        HealthMonitor.failures_erase _ component
      refine iff_of_true ((exact_concat_iff h (.inl rfl) fun other hne => ?_).mpr ?_) trivial
      · exact (hcount other).trans (if_neg hne)
      · apply (hcount component).trans
        simp [HealthEvent.tally, HealthEvent.clears]
  | updateCheck component status message now =>
      have hcount := s.monitor.count_updateCheck overflowChecks component status message now
      refine (exact_concat_iff h (.inr ⟨status, rfl⟩) fun other hne =>
        (hcount other).trans (if_neg hne)).trans ?_
      rw [hcount component, if_pos rfl, HealthEvent.tally_report]
      cases status with
      | unhealthy =>
          have hlt := s.monitor.count_lt component
          dsimp only [Heard, HealthMonitor.countAfter]
          by_cases hroom : s.monitor.count component + 1 < 2 ^ 32
          · rw [if_pos hroom]
            exact iff_of_true (by omega) (.inr (.inr hroom))
          · -- the count stays at the largest `u32`, or starts again at 0
            rw [if_neg hroom]
            cases overflowChecks with
            | true =>
                rw [if_pos rfl]
                exact iff_of_true (by omega) (.inl rfl)
            | false =>
                rw [if_neg Bool.false_ne_true]
                apply iff_of_false (by omega)
                rintro (hchecks | hstatus | hlt)
                · cases hchecks
                · exact hstatus rfl
                · exact hroom hlt
      | _ => exact iff_of_true rfl (.inr (.inl (by decide)))

/-- **The circuit breaker counts every report**, whatever its threshold, exactly if
what comes in by `register_check` or a round of the scheduler would not have
changed a count, and no count wraps around. -/
theorem breaker_counts_iff (overflowChecks : Bool) (checkInterval : Duration)
    (calls : List HealthCall) :
    (∀ threshold : UInt32, 1 ≤ threshold →
      Always (step overflowChecks) CountsEveryReport (start checkInterval threshold) calls) ↔
    ∀ threshold : UInt32, 1 ≤ threshold →
      Along (step overflowChecks) (Heard overflowChecks) (start checkInterval threshold) calls := by
  -- the runs differ in the threshold only, and the steps do not look at it
  have hsteps := fun threshold => step_withThreshold overflowChecks threshold
  have hstart : ∀ threshold, start checkInterval threshold =
      (start checkInterval 1).withThreshold threshold := fun _ => rfl
  have hcounts : (∀ threshold : UInt32, 1 ≤ threshold →
      Always (step overflowChecks) CountsEveryReport (start checkInterval threshold) calls) ↔
      Always (step overflowChecks) Exact (start checkInterval 1) calls := by
    rw [show Exact = fun s => ∀ threshold : UInt32, 1 ≤ threshold →
      (s.withThreshold threshold).CountsEveryReport from funext fun s => propext exact_iff,
      always_forall]
    apply forall_congr'
    intro threshold
    rw [always_forall]
    refine forall_congr' fun _ => ?_
    rw [hstart, always_map (hsteps threshold)]
  have hheard : ∀ threshold : UInt32,
      Along (step overflowChecks) (Heard overflowChecks) (start checkInterval threshold) calls ↔
        Along (step overflowChecks) (Heard overflowChecks) (start checkInterval 1) calls := by
    intro threshold
    rw [hstart, along_map (hsteps threshold)]
    exact along_congr (I := fun _ => True) trivial (fun _ _ _ => trivial)
      fun s call _ => heard_withThreshold
  have hexact : Always (step overflowChecks) Exact (start checkInterval 1) calls ↔
      Along (step overflowChecks) (Heard overflowChecks) (start checkInterval 1) calls :=
    always_iff_along (D := fun _ _ => True) (I := fun _ => True)
      (Along.of_forall fun _ _ => trivial) trivial
      (fun _ => rfl) (fun _ _ _ _ => trivial) fun s call _ _ h => exact_step_iff h
  rw [hcounts, hexact]
  exact ⟨fun h threshold _ => (hheard threshold).mpr h, fun h => h 1 (UInt32.le_refl 1)⟩

/-- A component is registered and then found unhealthy three times. -/
def threeFailures : List HealthCall :=
  .registerCheck (.healthy "broker" .unixEpoch) ::
    List.replicate 3 (.updateCheck "broker" .unhealthy "Connection lost" .unixEpoch)

theorem breaker_counts_iff_threeFailures :
    Always (step true) CountsEveryReport (start (.fromSecs 5) 3) threeFailures ∧
      (threeFailures.foldl (step true) (start (.fromSecs 5) 3)).monitor.isCircuitBroken "broker" := by
  refine ⟨(breaker_counts_iff true (.fromSecs 5) threeFailures).mpr ?_ 3 (by decide), by rfl⟩
  intro threshold _
  refine ⟨idle_singleton_iff.mpr ⟨fun _ => rfl, ?_⟩, .inl rfl, .inl rfl, .inl rfl, trivial⟩
  intro hstatus
  cases hstatus

/-- The scheduler finds a component unhealthy three times. -/
def threeRounds : List HealthCall :=
  List.replicate 3 (.schedulerRound [.unhealthy "storage" "Connection lost" .unixEpoch])

/-- The circuit is not broken. -/
theorem scheduled_reports_are_not_counted :
    (∃ component,
      (threeRounds.foldl (step true) (start (.fromSecs 5) 3)).monitor.isCircuitBroken component =
          false ∧
        HealthEvent.failuresSince component
          (threeRounds.foldl (step true) (start (.fromSecs 5) 3)).history = 3) ∧
      ¬ Always (step true) CountsEveryReport (start (.fromSecs 5) 3) threeRounds := by
  have hbroken : (threeRounds.foldl (step true)
      (start (.fromSecs 5) 3)).monitor.isCircuitBroken "storage" = false := by rfl
  have hfailures : HealthEvent.failuresSince "storage"
      (threeRounds.foldl (step true) (start (.fromSecs 5) 3)).history = 3 := by decide +kernel
  refine ⟨⟨"storage", hbroken, hfailures⟩, fun halways => ?_⟩
  have hcounts := halways.last "storage"
  rw [hbroken, hfailures] at hcounts
  cases hcounts.mpr (by decide)

end HealthRun

end Rafka
