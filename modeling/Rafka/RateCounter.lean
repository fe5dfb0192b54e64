/-
Rafka/RateCounter.lean

Rates of events (`crates/core/src/monitoring.rs`, `RateCounter`).

A counter counts events; `get_rate` reports how many there were per second
since it was last called, and moves the baseline.  Calls come one after the
other here; `Rafka/RatePolls.lean` lets them overlap.

Rates are rational numbers.  A build with overflow checks panics (`none`)
where a subtraction overflows, one without them wraps around.

Main result (`conserves_iff`): the reported rates account for all events
exactly if no call that comes less than a second after the one before finds
new events.
-/
import Mathlib.Algebra.BigOperators.Group.List.Basic
import Mathlib.Algebra.Order.Field.Rat
import Mathlib.Data.Rat.Cast.Order
import Mathlib.Tactic.Linarith
import Mathlib.Tactic.NormNum
import Rafka.Time
import Rafka.Trace

namespace Rafka

/-- `Duration::as_secs`. -/
def Duration.asSecs (d : Duration) : Nat := d / 10 ^ 9

/-- `Duration::as_secs_f64`. -/
def Duration.asSecsF64 (d : Duration) : ℚ := d / 10 ^ 9

/-- A reading of the clock after the epoch. -/
def SystemTime.ofMillis (millis : UInt32) : SystemTime :=
  ⟨millis.toNat * 10 ^ 6, by omega, by have := millis.toNat_lt; omega⟩

/-- A subtraction of `u64`. -/
def u64Sub (overflowChecks : Bool) (a b : UInt64) : Option UInt64 :=
  if overflowChecks && a < b then none else some (a - b)

/-- `RateCounter`. -/
structure RateCounter where
  count : UInt64
  lastCount : UInt64
  lastUpdate : SystemTime
deriving DecidableEq

namespace RateCounter

/-- `RateCounter::new`. -/
def new (now : SystemTime) : RateCounter := ⟨0, 0, now⟩

/-- `RateCounter::add`.  An atomic addition wraps around. -/
def add (c : RateCounter) (value : UInt64) : RateCounter := { c with count := c.count + value }

/-- `RateCounter::increment`. -/
def increment (c : RateCounter) : RateCounter := c.add 1

/-- `RateCounter::get_total`. -/
def getTotal (c : RateCounter) : UInt64 := c.count

/-- The time `get_rate` measures: a second if the clock was set back. -/
def elapsed (c : RateCounter) (now : SystemTime) : Duration :=
  (now.durationSince c.lastUpdate).getD (Duration.fromSecs 1)

/-- The rate `get_rate` computes from what it has loaded. -/
def rate (overflowChecks : Bool) (currentCount lastCount : UInt64) (elapsed : Duration) : Option ℚ :=
  if elapsed.asSecs > 0 then
    match u64Sub overflowChecks currentCount lastCount with
    | none => none
    | some events => some (events.toNat / elapsed.asSecsF64)
  else some 0

/-- `RateCounter::get_rate`, nothing else going on meanwhile.  A panic leaves
the counter as it was. -/
def getRate (overflowChecks : Bool) (c : RateCounter) (now : SystemTime) :
    Option ℚ × RateCounter :=
  match rate overflowChecks c.count c.lastCount (c.elapsed now) with
  | none => (none, c)
  | some rate => (some rate, { c with lastCount := c.count, lastUpdate := now })

/-- As long as there is room the count grows. -/
theorem toNat_count_add {c : RateCounter} {value : UInt64}
    (hroom : c.count.toNat + value.toNat < 2 ^ 64) :
    (c.add value).count.toNat = c.count.toNat + value.toNat := by
  rw [add, UInt64.toNat_add, Nat.mod_eq_of_lt hroom]

theorem count_le_add {c : RateCounter} {value : UInt64}
    (hroom : c.count.toNat + value.toNat < 2 ^ 64) : c.count ≤ (c.add value).count := by
  rw [UInt64.le_iff_toNat_le, toNat_count_add hroom]
  exact Nat.le_add_right _ _

end RateCounter

/-! ### Runs -/

/-- A call of a `RateCounter`. -/
inductive RateCall
  | increment
  | add (value : UInt64)
  | getRate (now : SystemTime)
deriving DecidableEq

/-- The events a call counts. -/
def RateCall.events : RateCall → Nat
  | .increment => 1
  | .add value => value.toNat
  | .getRate _ => 0

/-- What a call of `get_rate` returned, and the time since the one before. -/
structure RateReport where
  rate : ℚ
  covered : Duration
deriving DecidableEq

/-- A counter with what has been reported. -/
structure RateRun where
  counter : RateCounter
  /-- The last call of `get_rate`, or that of `new`. -/
  lastPoll : SystemTime
  /-- `get_total` at the last call of `get_rate`. -/
  polledTotal : UInt64
  reports : List RateReport
deriving DecidableEq

namespace RateRun

/-- A new counter. -/
def start (now : SystemTime) : RateRun := ⟨.new now, now, 0, []⟩

/-- One call. -/
def step (overflowChecks : Bool) (s : RateRun) : RateCall → RateRun
  | .increment => { s with counter := s.counter.increment }
  | .add value => { s with counter := s.counter.add value }
  | .getRate now =>
      let (rate, counter) := s.counter.getRate overflowChecks now
      { counter
        lastPoll := now
        polledTotal := counter.getTotal
        reports := s.reports ++
          (rate.map fun rate => ⟨rate, (now.nanos - s.lastPoll.nanos).toNat⟩).toList }

/-- The events the reports account for: each rate times the time it covers. -/
def accounted (s : RateRun) : ℚ := (s.reports.map fun r => r.rate * r.covered.asSecsF64).sum

/-- The reports account for all events up to the last call of `get_rate`. -/
def Conserves (s : RateRun) : Prop := s.accounted = s.polledTotal.toNat

/-- The clock has not been set back since the last call of `get_rate`. -/
def OnTime (s : RateRun) : RateCall → Prop
  | .getRate now => s.lastPoll.nanos ≤ now.nanos
  | _ => True

/-- If the call is one of `get_rate`, it comes at least a second after the one
before, or there has been no event since. -/
def Unhurried (s : RateRun) : RateCall → Prop
  | .getRate now => s.lastPoll.nanos + 10 ^ 9 ≤ now.nanos ∨ s.counter.getTotal = s.polledTotal
  | _ => True

instance (s : RateRun) : Decidable s.Conserves := inferInstanceAs (Decidable (_ = _))

instance (s : RateRun) : (call : RateCall) → Decidable (s.OnTime call)
  | .getRate now => inferInstanceAs (Decidable (s.lastPoll.nanos ≤ now.nanos))
  | .increment => .isTrue trivial
  | .add _ => .isTrue trivial

instance (s : RateRun) : (call : RateCall) → Decidable (s.Unhurried call)
  | .getRate now => inferInstanceAs (Decidable (s.lastPoll.nanos + 10 ^ 9 ≤ now.nanos ∨ _))
  | .increment => .isTrue trivial
  | .add _ => .isTrue trivial

/-- The baseline is that of the last call of `get_rate`, and no more events
have been accounted for than there were. -/
structure Inv (s : RateRun) : Prop where
  lastUpdate : s.counter.lastUpdate = s.lastPoll
  lastCount : s.counter.lastCount = s.polledTotal
  polled_le : s.polledTotal ≤ s.counter.count
  accounted_le : s.accounted ≤ s.polledTotal.toNat

variable {s : RateRun}

theorem inv_start (now : SystemTime) : (start now).Inv :=
  ⟨rfl, rfl, UInt64.le_refl _, by simp [start, accounted]⟩

/-- Adding events that there is room for. -/
theorem Inv.add (h : s.Inv) {value : UInt64} (hroom : s.counter.count.toNat + value.toNat < 2 ^ 64) :
    Inv { s with counter := s.counter.add value } :=
  ⟨h.lastUpdate, h.lastCount, UInt64.le_trans h.polled_le (RateCounter.count_le_add hroom),
    h.accounted_le⟩

/-- What `get_rate` reports: all new events, or none if it comes too soon. -/
theorem Inv.getRate (h : s.Inv) (overflowChecks : Bool) {now : SystemTime} (htime : s.lastPoll.nanos ≤ now.nanos) :
    ∃ rate : ℚ, step overflowChecks s (.getRate now) =
        { counter := { s.counter with lastCount := s.counter.count, lastUpdate := now }
          lastPoll := now
          polledTotal := s.counter.count
          reports := s.reports ++ [⟨rate, (now.nanos - s.lastPoll.nanos).toNat⟩] } ∧
      rate * Duration.asSecsF64 (now.nanos - s.lastPoll.nanos).toNat =
        if s.lastPoll.nanos + 10 ^ 9 ≤ now.nanos then
          (s.counter.count.toNat : ℚ) - s.polledTotal.toNat
        else 0 := by
  have helapsed : s.counter.elapsed now = (now.nanos - s.lastPoll.nanos).toNat := by
    rw [RateCounter.elapsed, h.lastUpdate, SystemTime.durationSince, if_pos htime]
    rfl
  have hle : s.counter.lastCount ≤ s.counter.count := h.lastCount ▸ h.polled_le
  have hsub : u64Sub overflowChecks s.counter.count s.counter.lastCount =
      some (s.counter.count - s.counter.lastCount) := by
    rw [u64Sub, if_neg]
    simp [UInt64.not_lt.mpr hle]
  have hsecs : Duration.asSecs (now.nanos - s.lastPoll.nanos).toNat > 0 ↔
      s.lastPoll.nanos + 10 ^ 9 ≤ now.nanos := by
    rw [Duration.asSecs]
    omega
  simp only [step, RateCounter.getRate, RateCounter.rate, helapsed, hsub, hsecs]
  split_ifs with hlate
  · refine ⟨_, rfl, ?_⟩
    have hpos : Duration.asSecsF64 (now.nanos - s.lastPoll.nanos).toNat ≠ 0 := by
      have hne : (now.nanos - s.lastPoll.nanos).toNat ≠ 0 := by omega
      exact div_ne_zero (Nat.cast_ne_zero.mpr hne) (by norm_num)
    rw [div_mul_cancel₀ _ hpos, UInt64.toNat_sub_of_le _ _ hle, h.lastCount,
      Nat.cast_sub (UInt64.le_iff_toNat_le.mp h.polled_le)]
  · exact ⟨0, rfl, zero_mul _⟩

theorem accounted_concat (counter : RateCounter) (lastPoll : SystemTime) (polledTotal : UInt64)
    (reports : List RateReport) (r : RateReport) :
    accounted ⟨counter, lastPoll, polledTotal, reports ++ [r]⟩ =
      accounted ⟨counter, lastPoll, polledTotal, reports⟩ + r.rate * r.covered.asSecsF64 := by
  simp [accounted]

/-- **Step lemma.**  A call keeps the invariant, and it loses no events exactly
if none were lost before and it is not hurried. -/
theorem Inv.step (h : s.Inv) (overflowChecks : Bool) {call : RateCall} (htime : s.OnTime call)
    (hroom : s.counter.count.toNat + call.events < 2 ^ 64) :
    (s.step overflowChecks call).Inv ∧
      (s.step overflowChecks call).counter.count.toNat = s.counter.count.toNat + call.events ∧
      ((s.step overflowChecks call).Conserves ↔ s.Conserves ∧ s.Unhurried call) := by
  cases call with
  | increment =>
      exact ⟨h.add hroom, RateCounter.toNat_count_add hroom, (and_iff_left trivial).symm⟩
  | add value =>
      exact ⟨h.add hroom, RateCounter.toNat_count_add hroom, (and_iff_left trivial).symm⟩
  | getRate now =>
      obtain ⟨rate, hstep, hrate⟩ := h.getRate overflowChecks htime
      have hpolled : (s.polledTotal.toNat : ℚ) ≤ s.counter.count.toNat :=
        Nat.cast_le.mpr (UInt64.le_iff_toNat_le.mp h.polled_le)
      have hsame : (s.counter.count.toNat : ℚ) = s.polledTotal.toNat ↔
          s.counter.getTotal = s.polledTotal := by
        rw [Nat.cast_inj, UInt64.toNat_inj]
        rfl
      have hle := h.accounted_le
      have haccounted : accounted (s.step overflowChecks (.getRate now)) = s.accounted +
          if s.lastPoll.nanos + 10 ^ 9 ≤ now.nanos then
            (s.counter.count.toNat : ℚ) - s.polledTotal.toNat
          else 0 := by
        rw [hstep, accounted_concat, hrate]
        rfl
      rw [Unhurried, ← hsame, Conserves, Conserves, haccounted]
      refine ⟨⟨by rw [hstep], by rw [hstep], ?_, ?_⟩, by rw [hstep]; rfl, ?_⟩
      · rw [hstep]
        exact UInt64.le_refl _
      · rw [haccounted, hstep]
        split_ifs
        · linarith
        · linarith
      · -- what has been lost once is never made up for
        rw [hstep]
        split_ifs with hlate
        · exact ⟨fun heq => ⟨by linarith, .inl hlate⟩, fun heq => by linarith [heq.1]⟩
        · refine ⟨fun heq => ⟨by linarith, .inr (by linarith)⟩, fun heq => ?_⟩
          linarith [heq.1, heq.2.resolve_left hlate]

/-- What a run loses: nothing, exactly if nothing was lost before it and no call
of it is hurried. -/
theorem conserves_foldl_iff {overflowChecks : Bool} {calls : List RateCall} (h : s.Inv)
    (htime : Along (step overflowChecks) OnTime s calls)
    (hroom : s.counter.count.toNat + (calls.map RateCall.events).sum < 2 ^ 64) :
    (calls.foldl (step overflowChecks) s).Conserves ↔
      s.Conserves ∧ Along (step overflowChecks) Unhurried s calls := by
  induction calls generalizing s with
  | nil => exact (and_iff_left trivial).symm
  | cons call calls ih =>
      rw [List.map_cons, List.sum_cons, ← Nat.add_assoc] at hroom
      obtain ⟨hinv, hcount, hiff⟩ := h.step overflowChecks htime.1 (by omega)
      rw [List.foldl_cons, ih hinv htime.2 (by omega), hiff, and_assoc]
      rfl

/-- **Rate reports conserve the count** exactly if every call of `get_rate` that
comes less than a second after the one before finds no new events. -/
theorem conserves_iff (overflowChecks : Bool) (now : SystemTime) (calls : List RateCall)
    (htime : Along (step overflowChecks) OnTime (start now) calls)
    (hroom : (calls.map RateCall.events).sum < 2 ^ 64) :
    (calls.foldl (step overflowChecks) (start now)).Conserves ↔
      Along (step overflowChecks) Unhurried (start now) calls := by
  have hzero : (start now).counter.count.toNat = 0 := rfl
  rw [conserves_foldl_iff (inv_start now) htime (by rw [hzero]; omega)]
  apply and_iff_right
  simp [Conserves, start, accounted]

/-- A call at once that finds nothing, and one after a second and a half. -/
def unhurriedCalls : List RateCall :=
  [.getRate (.ofMillis 0), .add 100, .increment, .getRate (.ofMillis 1500)]

theorem conserves_iff_unhurriedCalls :
    (unhurriedCalls.foldl (step true) (start .unixEpoch)).Conserves ∧
      (unhurriedCalls.foldl (step true) (start .unixEpoch)).polledTotal = 101 :=
  ⟨(conserves_iff true .unixEpoch unhurriedCalls (by decide) (by decide)).mpr (by decide), rfl⟩

/-- A hundred events, and `get_rate` a tenth of a second later: it reports none,
and the next call does not report them either. -/
theorem hurried_call_loses_events :
    ∃ calls, (calls.map RateCall.events).sum < 2 ^ 64 ∧
      Along (step true) OnTime (start .unixEpoch) calls ∧
      ¬ (calls.foldl (step true) (start .unixEpoch)).Conserves :=
  ⟨[.add 100, .getRate (.ofMillis 100), .getRate (.ofMillis 5000)],
    by decide, by decide, by decide +kernel⟩

end RateRun

end Rafka
