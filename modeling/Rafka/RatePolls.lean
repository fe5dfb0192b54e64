/-
Rafka/RatePolls.lean

Calls of `RateCounter::get_rate` that overlap
(`crates/core/src/monitoring.rs`).

`get_rate` loads the count, then the baseline, and only then waits for the
lock of `last_update`, under which it computes the rate and stores the count
it has loaded as the new baseline.  Each load, each store and each acquisition
is a step here, and the calls of any number of tasks take theirs in any order,
with events counted in between.  A call that waits may be cancelled.

Main result (`never_underflows_iff`): no call has loaded a baseline above its
count, and none is about to, exactly if no call ever stores a count that is
above one another call has loaded while its baseline is still to come.  Alone,
the steps of a call do what `getRate` does at once (`alone`).
-/
import Rafka.RateCounter
import Rafka.RwLock

namespace Rafka

/-- Where a call of `get_rate` is. -/
inductive RatePoll
  | called
  /-- It has loaded `count`. -/
  | loaded (currentCount : UInt64)
  /-- It has loaded `last_count` too and waits for `last_update`. -/
  | waiting (currentCount lastCount : UInt64)
  /-- With the guard, the rate computed. -/
  | locked (currentCount lastCount : UInt64) (now : SystemTime) (rate : ℚ)
  /-- With the guard, `last_count` stored. -/
  | stored (now : SystemTime) (rate : ℚ)
  | returned (rate : ℚ)
  /-- The subtraction has panicked. -/
  | panicked
  | cancelled
deriving DecidableEq

namespace RatePoll

/-- The guard of `last_update` that a call has. -/
def guard : RatePoll → Option Mode
  | .locked _ _ _ _ | .stored _ _ => some .write
  | _ => none

/-- The count of a call that has yet to load the baseline. -/
def loaded? : RatePoll → Option UInt64
  | .loaded currentCount => some currentCount
  | _ => none

/-- The count that a call is about to store as the baseline. -/
def stores? : RatePoll → Option UInt64
  | .locked currentCount _ _ _ => some currentCount
  | _ => none

/-- `current_count - last_count`, once a call has loaded both. -/
def difference? : RatePoll → Option Int
  | .waiting currentCount lastCount | .locked currentCount lastCount _ _ =>
      some (currentCount.toNat - lastCount.toNat)
  | _ => none

/-- The next step of a call; `free` tells whether nobody has a guard. -/
def proceed (overflowChecks free : Bool) (now : SystemTime) (c : RateCounter) :
    RatePoll → RatePoll × RateCounter
  | .called => (.loaded c.count, c)
  | .loaded currentCount => (.waiting currentCount c.lastCount, c)
  | .waiting currentCount lastCount =>
      if free then
        match RateCounter.rate overflowChecks currentCount lastCount (c.elapsed now) with
        | some rate => (.locked currentCount lastCount now rate, c)
        | none => (.panicked, c)
      else (.waiting currentCount lastCount, c)
  | .locked currentCount _ now rate => (.stored now rate, { c with lastCount := currentCount })
  | .stored now rate => (.returned rate, { c with lastUpdate := now })
  | poll => (poll, c)

/-- The future of a call is dropped, which happens only where it can wait. -/
def cancel : RatePoll → RatePoll
  | .called | .waiting _ _ => .cancelled
  | poll => poll

end RatePoll

/-- What happens next. -/
inductive RateMove
  | increment
  | add (value : UInt64)
  /-- Somebody calls `get_rate`. -/
  | getRate
  /-- The next step of call `i`; `now` is what the clock shows if it reads it. -/
  | proceed (i : Nat) (now : SystemTime)
  | cancel (i : Nat)
deriving DecidableEq

/-- The events a step counts. -/
def RateMove.events : RateMove → Nat
  | .increment => 1
  | .add value => value.toNat
  | _ => 0

/-- A counter and the calls of its `get_rate`. -/
structure RatePolls where
  counter : RateCounter
  polls : List RatePoll
deriving DecidableEq

namespace RatePolls

/-- A new counter. -/
def start (now : SystemTime) : RatePolls := ⟨.new now, []⟩

/-- Nobody has the guard of `last_update`. -/
def free (s : RatePolls) : Bool := RwLock.admits RatePoll.guard s.polls .write

/-- One step. -/
def step (overflowChecks : Bool) (s : RatePolls) : RateMove → RatePolls
  | .increment => { s with counter := s.counter.increment }
  | .add value => { s with counter := s.counter.add value }
  | .getRate => { s with polls := s.polls ++ [.called] }
  | .proceed i now =>
      match s.polls[i]? with
      | none => s
      | some poll =>
          let (poll, counter) := poll.proceed overflowChecks s.free now s.counter
          ⟨counter, s.polls.set i poll⟩
  | .cancel i =>
      match s.polls[i]? with
      | none => s
      | some poll => { s with polls := s.polls.set i poll.cancel }

/-- No call that has loaded both counts finds the baseline above the count. -/
def NeverNegative (s : RatePolls) : Prop :=
  ∀ poll ∈ s.polls, ∀ difference ∈ poll.difference?, 0 ≤ difference

/-- Nor does any call find it so with the next step. -/
def Safe (overflowChecks : Bool) (s : RatePolls) : Prop :=
  s.NeverNegative ∧ ∀ move, (s.step overflowChecks move).NeverNegative

/-- If the step stores a count as the new baseline, it is above none that
another call has loaded while its baseline is still to come. -/
def StoresInOrder (s : RatePolls) : RateMove → Prop
  | .proceed i _ =>
      ∀ stored ∈ s.polls[i]?.bind RatePoll.stores?,
        ∀ poll ∈ s.polls, ∀ count ∈ poll.loaded?, stored ≤ count
  | _ => True

instance (s : RatePolls) : Decidable s.NeverNegative :=
  inferInstanceAs (Decidable (∀ poll ∈ s.polls, ∀ difference ∈ poll.difference?, 0 ≤ difference))

instance (s : RatePolls) : (move : RateMove) → Decidable (s.StoresInOrder move)
  | .proceed i _ =>
      haveI (stored : UInt64) (poll : RatePoll) :
          Decidable (∀ count ∈ poll.loaded?, stored ≤ count) := Option.decidableForallMem _
      haveI (stored : UInt64) :
          Decidable (∀ poll ∈ s.polls, ∀ count ∈ poll.loaded?, stored ≤ count) :=
        List.decidableBAll _ _
      Option.decidableForallMem (s.polls[i]?.bind RatePoll.stores?)
  | .increment | .add _ | .getRate | .cancel _ => .isTrue trivial

end RatePolls

/-! ### One call -/

namespace RatePoll

/-- The count that a call holds. -/
def current? : RatePoll → Option UInt64
  | .loaded currentCount | .waiting currentCount _ | .locked currentCount _ _ _ => some currentCount
  | _ => none

/-- The call has not found the baseline above its count, and would not find this
one so. -/
def Fine (lastCount : UInt64) (poll : RatePoll) : Prop :=
  (∀ difference ∈ poll.difference?, 0 ≤ difference) ∧ ∀ count ∈ poll.loaded?, lastCount ≤ count

/-- What the next step of a call does to it and to the counter. -/
inductive Next (c : RateCounter) : RatePoll → RatePoll → RateCounter → Prop
  | loadCount : Next c .called (.loaded c.count) c
  | loadLastCount (currentCount) :
      Next c (.loaded currentCount) (.waiting currentCount c.lastCount) c
  | acquire (currentCount lastCount now rate) :
      Next c (.waiting currentCount lastCount) (.locked currentCount lastCount now rate) c
  | panic (currentCount lastCount) : Next c (.waiting currentCount lastCount) .panicked c
  | store (currentCount lastCount now rate) :
      Next c (.locked currentCount lastCount now rate) (.stored now rate)
        { c with lastCount := currentCount }
  | release (now rate) : Next c (.stored now rate) (.returned rate) { c with lastUpdate := now }
  /-- It waits on, or it is over. -/
  | stay (poll) (h : poll.stores? = none) : Next c poll poll c

variable {c c' : RateCounter} {poll poll' : RatePoll}

theorem proceed_next (overflowChecks free : Bool) (now : SystemTime) (c : RateCounter)
    (poll : RatePoll) :
    Next c poll (poll.proceed overflowChecks free now c).1
      (poll.proceed overflowChecks free now c).2 := by
  cases poll with
  | called => exact .loadCount
  | loaded currentCount => exact .loadLastCount currentCount
  | waiting currentCount lastCount =>
      simp only [proceed]
      split
      · split
        · exact .acquire currentCount lastCount now _
        · exact .panic currentCount lastCount
      · exact .stay _ rfl
  | locked currentCount lastCount now rate => exact .store currentCount lastCount now rate
  | stored now rate => exact .release now rate
  | returned rate => exact .stay _ rfl
  | panicked => exact .stay _ rfl
  | cancelled => exact .stay _ rfl

theorem cancel_cases (poll : RatePoll) : poll.cancel = poll ∨ poll.cancel = .cancelled := by
  cases poll with
  | called => exact .inr rfl
  | waiting currentCount lastCount => exact .inr rfl
  | _ => exact .inl rfl

/-- A call that has nothing to compare is fine. -/
theorem fine_of_none (hdifference : poll.difference? = none) (hloaded : poll.loaded? = none)
    (lastCount : UInt64) : poll.Fine lastCount := by
  constructor
  · rw [hdifference]
    rintro difference ⟨⟩
  · rw [hloaded]
    rintro count ⟨⟩

theorem sub_nonneg_iff {a b : UInt64} : (0 : Int) ≤ a.toNat - b.toNat ↔ b ≤ a := by
  rw [UInt64.le_iff_toNat_le]
  omega

/-- A call that loads the baseline finds what it was bound to find. -/
theorem Next.difference (hnext : Next c poll poll' c') (h : poll.Fine c.lastCount) :
    ∀ difference ∈ poll'.difference?, 0 ≤ difference := by
  cases hnext with
  | loadLastCount currentCount =>
      rintro difference ⟨⟩
      exact sub_nonneg_iff.mpr (h.2 currentCount rfl)
  | acquire currentCount lastCount now rate => exact h.1
  | stay _ _ => exact h.1
  | _ => rintro difference ⟨⟩

/-- The step leaves the call fine as long as the baseline is not above the count. -/
theorem Next.fine (hnext : Next c poll poll' c') (h : poll.Fine c.lastCount)
    (hle : c.lastCount ≤ c.count) : poll'.Fine c'.lastCount := by
  refine ⟨hnext.difference h, ?_⟩
  cases hnext with
  | loadCount =>
      rintro count ⟨⟩
      exact hle
  | stay _ _ => exact h.2
  | _ => rintro count ⟨⟩

/-- A step leaves the counter as it is, or stores, or sets the time. -/
theorem Next.counter (hnext : Next c poll poll' c') :
    c'.count = c.count ∧
      ((∃ currentCount lastCount now rate, poll = .locked currentCount lastCount now rate ∧
          poll' = .stored now rate ∧ c' = { c with lastCount := currentCount }) ∨
        (c'.lastCount = c.lastCount ∧ poll.stores? = none)) := by
  cases hnext with
  | store currentCount lastCount now rate =>
      exact ⟨rfl, .inl ⟨currentCount, lastCount, now, rate, rfl, rfl, rfl⟩⟩
  | stay _ h => exact ⟨rfl, .inr ⟨rfl, h⟩⟩
  | _ => exact ⟨rfl, .inr ⟨rfl, rfl⟩⟩

/-- No call holds a count above that of the counter. -/
theorem Next.current_le (hnext : Next c poll poll' c')
    (h : ∀ count ∈ poll.current?, count ≤ c.count) : ∀ count ∈ poll'.current?, count ≤ c.count := by
  cases hnext with
  | loadCount =>
      rintro count ⟨⟩
      exact UInt64.le_refl _
  | loadLastCount currentCount => exact h
  | acquire currentCount lastCount now rate => exact h
  | stay _ _ => exact h
  | _ => rintro count ⟨⟩

end RatePoll

/-! ### All calls -/

namespace RatePolls

variable {overflowChecks : Bool} {s : RatePolls} {i : Nat} {poll : RatePoll}

/-- All calls are fine with the baseline there is. -/
def Fine (s : RatePolls) : Prop := ∀ poll ∈ s.polls, poll.Fine s.counter.lastCount

/-- Neither the baseline nor what a call has loaded is above the count. -/
structure Inv (s : RatePolls) : Prop where
  lastCount_le : s.counter.lastCount ≤ s.counter.count
  current_le : ∀ poll ∈ s.polls, ∀ count ∈ poll.current?, count ≤ s.counter.count

/-- What a step can do: count events, make a call or end one without touching the
counter, or take one step of a call. -/
theorem step_cases (overflowChecks : Bool) (s : RatePolls) (move : RateMove) :
    (s.StoresInOrder move ∧ ∃ value : UInt64, value.toNat = move.events ∧
      s.step overflowChecks move = { s with counter := s.counter.add value }) ∨
    (s.StoresInOrder move ∧ move.events = 0 ∧ (s.step overflowChecks move).counter = s.counter ∧
      ∀ poll ∈ (s.step overflowChecks move).polls,
        poll ∈ s.polls ∨ poll = .called ∨ poll = .cancelled) ∨
    ∃ i now poll poll' c', move = .proceed i now ∧ s.polls[i]? = some poll ∧
      poll.Next s.counter poll' c' ∧
      s.step overflowChecks move = ⟨c', s.polls.set i poll'⟩ := by
  cases move with
  | increment => exact .inl ⟨trivial, 1, rfl, rfl⟩
  | add value => exact .inl ⟨trivial, value, rfl, rfl⟩
  | getRate =>
      refine .inr (.inl ⟨trivial, rfl, rfl, fun poll hpoll => ?_⟩)
      exact (List.mem_append.mp hpoll).imp_right fun hnew => .inl (List.mem_singleton.mp hnew)
  | proceed i now =>
      cases hi : s.polls[i]? with
      | none =>
          refine .inr (.inl ?_)
          simp only [StoresInOrder, step, hi]
          refine ⟨?_, rfl, trivial, fun poll hpoll => .inl hpoll⟩
          rintro stored ⟨⟩
      | some poll =>
          refine .inr (.inr ⟨i, now, poll, _, _, rfl, hi,
            RatePoll.proceed_next overflowChecks s.free now s.counter poll, ?_⟩)
          simp only [step, hi]
  | cancel i =>
      refine .inr (.inl ⟨trivial, rfl, ?_⟩)
      cases hi : s.polls[i]? with
      | none =>
          simp only [step, hi]
          exact ⟨trivial, fun poll hpoll => .inl hpoll⟩
      | some poll =>
          simp only [step, hi]
          refine ⟨trivial, fun other hother => ?_⟩
          rcases List.mem_or_eq_of_mem_set hother with hother | rfl
          · exact .inl hother
          · rcases poll.cancel_cases with hsame | hgone
            · rw [hsame]
              exact .inl (List.mem_of_getElem? hi)
            · exact .inr (.inr hgone)

/-- Making a call or ending one leaves the calls fine. -/
theorem Fine.of_mem (h : s.Fine) {polls : List RatePoll}
    (hpolls : ∀ poll ∈ polls, poll ∈ s.polls ∨ poll = .called ∨ poll = .cancelled) :
    ∀ poll ∈ polls, poll.Fine s.counter.lastCount := by
  intro poll hpoll
  rcases hpolls poll hpoll with hold | rfl | rfl
  · exact h poll hold
  · exact RatePoll.fine_of_none rfl rfl _
  · exact RatePoll.fine_of_none rfl rfl _

/-- Safety is about the calls that have loaded one count only: the next thing
each of them does is to load the baseline. -/
theorem safe_iff : s.Safe overflowChecks ↔ s.Fine := by
  constructor
  · rintro ⟨hnow, hnext⟩ poll hpoll
    refine ⟨hnow poll hpoll, fun count hcount => ?_⟩
    obtain rfl : poll = .loaded count := by
      cases poll with
      | loaded currentCount =>
          cases hcount
          rfl
      | _ => cases hcount
    obtain ⟨i, hi⟩ := List.getElem?_of_mem hpoll
    have hstep := hnext (.proceed i .unixEpoch)
    simp only [step, hi, RatePoll.proceed] at hstep
    exact RatePoll.sub_nonneg_iff.mp
      (hstep _ (List.mem_set (List.getElem?_eq_some_iff.mp hi).1 _) _ rfl)
  · intro h
    refine ⟨fun poll hpoll => (h poll hpoll).1, fun move => ?_⟩
    rcases step_cases overflowChecks s move with
      ⟨-, value, -, hstep⟩ | ⟨-, -, -, hpolls⟩ | ⟨i, now, poll, poll', c', -, hi, hnext, hstep⟩
    · rw [hstep]
      exact fun poll hpoll => (h poll hpoll).1
    · exact fun poll hpoll => (h.of_mem hpolls poll hpoll).1
    · rw [hstep]
      intro other hother
      rcases List.mem_or_eq_of_mem_set hother with hold | rfl
      · exact (h other hold).1
      · exact hnext.difference (h poll (List.mem_of_getElem? hi))

/-- **Step lemma** of the invariant. -/
theorem Inv.step {move : RateMove} (h : s.Inv)
    (hroom : s.counter.count.toNat + move.events < 2 ^ 64) :
    (s.step overflowChecks move).Inv ∧
      (s.step overflowChecks move).counter.count.toNat = s.counter.count.toNat + move.events := by
  rcases step_cases overflowChecks s move with
    ⟨-, value, hvalue, hstep⟩ | ⟨-, hevents, hcounter, hpolls⟩ |
      ⟨i, now, poll, poll', c', rfl, hi, hnext, hstep⟩
  · rw [← hvalue] at hroom ⊢
    rw [hstep]
    have hle := RateCounter.count_le_add hroom
    exact ⟨⟨UInt64.le_trans h.lastCount_le hle, fun poll hpoll count hheld =>
      UInt64.le_trans (h.current_le poll hpoll count hheld) hle⟩, RateCounter.toNat_count_add hroom⟩
  · rw [hevents, hcounter]
    refine ⟨⟨by rw [hcounter]; exact h.lastCount_le, fun poll hpoll => ?_⟩, rfl⟩
    rw [hcounter]
    rcases hpolls poll hpoll with hold | rfl | rfl
    · exact h.current_le poll hold
    · rintro count ⟨⟩
    · rintro count ⟨⟩
  · obtain ⟨hcount, hlast⟩ := hnext.counter
    have hmem := List.mem_of_getElem? hi
    rw [hstep]
    refine ⟨⟨?_, fun other hother => ?_⟩, congrArg UInt64.toNat hcount⟩
    · show c'.lastCount ≤ c'.count
      rw [hcount]
      rcases hlast with ⟨currentCount, lastCount, now, rate, rfl, -, rfl⟩ | ⟨hsame, -⟩
      · exact h.current_le _ hmem _ rfl
      · rw [hsame]
        exact h.lastCount_le
    · show ∀ count ∈ other.current?, count ≤ c'.count
      rw [hcount]
      rcases List.mem_or_eq_of_mem_set hother with hold | rfl
      · exact h.current_le other hold
      · exact hnext.current_le (h.current_le poll hmem)

/-- Storing a baseline leaves the other calls fine exactly if it is above none of
the counts they have loaded while their baseline is still to come. -/
theorem fine_store_iff {currentCount lastCount : UInt64} {now : SystemTime} {rate : ℚ}
    (hi : s.polls[i]? = some (.locked currentCount lastCount now rate)) (h : s.Fine) :
    (∀ poll ∈ s.polls.set i (.stored now rate), poll.Fine currentCount) ↔
      ∀ poll ∈ s.polls, ∀ count ∈ poll.loaded?, currentCount ≤ count := by
  constructor
  · intro hfine poll hpoll count hcount
    obtain ⟨j, hj⟩ := List.getElem?_of_mem hpoll
    have hne : i ≠ j := by
      rintro rfl
      cases hi.symm.trans hj
      cases hcount
    have hkept : (s.polls.set i (.stored now rate))[j]? = some poll := by
      rw [List.getElem?_set_ne hne, hj]
    exact (hfine poll (List.mem_of_getElem? hkept)).2 count hcount
  · intro hle poll hpoll
    rcases List.mem_or_eq_of_mem_set hpoll with hold | rfl
    · exact ⟨(h poll hold).1, hle poll hold⟩
    · exact RatePoll.fine_of_none rfl rfl _

/-- **Exactness** of a step. -/
theorem Inv.fine_step_iff {move : RateMove} (hinv : s.Inv) (h : s.Fine) :
    (s.step overflowChecks move).Fine ↔ s.StoresInOrder move := by
  rcases step_cases overflowChecks s move with
    ⟨horder, value, -, hstep⟩ | ⟨horder, -, hcounter, hpolls⟩ |
      ⟨i, now, poll, poll', c', rfl, hi, hnext, hstep⟩
  · rw [hstep]
    exact iff_of_true h horder
  · refine iff_of_true ?_ horder
    rw [Fine, hcounter]
    exact h.of_mem hpolls
  · rw [hstep]
    simp only [StoresInOrder, hi, Option.bind_some]
    rcases hnext.counter.2 with
      ⟨currentCount, lastCount, now, rate, rfl, rfl, rfl⟩ | ⟨hsame, hnone⟩
    · simp only [RatePoll.stores?, Option.mem_some_iff, forall_eq']
      exact fine_store_iff hi h
    · refine iff_of_true (fun other hmem => ?_) ?_
      · rcases List.mem_or_eq_of_mem_set hmem with hold | rfl
        · show other.Fine c'.lastCount
          rw [hsame]
          exact h other hold
        · exact hnext.fine (h poll (List.mem_of_getElem? hi)) hinv.lastCount_le
      · rw [hnone]
        rintro stored ⟨⟩

theorem inv_start (now : SystemTime) : (start now).Inv :=
  ⟨UInt64.le_refl _, fun _ hpoll => by cases hpoll⟩

/-- There is room for the events of a step. -/
def HasRoom (s : RatePolls) (move : RateMove) : Prop :=
  s.counter.count.toNat + move.events < 2 ^ 64

theorem hasRoom_of_sum (overflowChecks : Bool) {moves : List RateMove} (h : s.Inv)
    (hroom : s.counter.count.toNat + (moves.map RateMove.events).sum < 2 ^ 64) :
    Along (step overflowChecks) HasRoom s moves := by
  induction moves generalizing s with
  | nil => trivial
  | cons move moves ih =>
      rw [List.map_cons, List.sum_cons, ← Nat.add_assoc] at hroom
      have hfirst : s.HasRoom move := Nat.lt_of_le_of_lt (Nat.le_add_right _ _) hroom
      obtain ⟨hinv, hcount⟩ := h.step hfirst
      exact ⟨hfirst, ih hinv (by rw [hcount]; exact hroom)⟩

/-- **`get_rate` does not underflow**, and is nowhere a step away from it, exactly
if no call stores a count above one that another call has loaded while its
baseline is still to come. -/
theorem never_underflows_iff (overflowChecks : Bool) (now : SystemTime) (moves : List RateMove)
    (hroom : (moves.map RateMove.events).sum < 2 ^ 64) :
    Always (step overflowChecks) (Safe overflowChecks) (start now) moves ↔
      Along (step overflowChecks) StoresInOrder (start now) moves := by
  have hzero : (start now).counter.count.toNat = 0 := rfl
  have hfine : (start now).Fine := fun _ hpoll => by cases hpoll
  have hrun : Along (step overflowChecks) HasRoom (start now) moves :=
    hasRoom_of_sum overflowChecks (inv_start now) (by rw [hzero]; omega)
  refine always_iff_along hrun (inv_start now) (safe_iff.mpr hfine)
    (fun s move hinv hmove => (hinv.step hmove).1) fun s move hinv _ hsafe => ?_
  rw [safe_iff]
  exact hinv.fine_step_iff (safe_iff.mp hsafe)

/-- Two calls that overlap: the first stores after the second has loaded both counts. -/
def overlappingMoves : List RateMove :=
  [.getRate, .proceed 0 .unixEpoch, .proceed 0 .unixEpoch, .increment,
    .getRate, .proceed 1 .unixEpoch, .proceed 1 .unixEpoch,
    .proceed 0 (.ofMillis 2000), .proceed 1 (.ofMillis 2000), .proceed 0 .unixEpoch,
    .proceed 0 .unixEpoch, .proceed 1 (.ofMillis 4000), .proceed 1 .unixEpoch, .proceed 1 .unixEpoch]

theorem never_underflows_iff_overlapping :
    Always (step true) (Safe true) (start .unixEpoch) overlappingMoves ∧
      (overlappingMoves.foldl (step true) (start .unixEpoch)).polls =
        [.returned 0, .returned (1 / 2)] :=
  ⟨(never_underflows_iff true .unixEpoch overlappingMoves (by decide)).mpr (by decide +kernel),
    by decide +kernel⟩

/-- The second call overtakes the first one between its loads. -/
def overtakingMoves : List RateMove :=
  [.getRate, .proceed 0 .unixEpoch, .increment,
    .getRate, .proceed 1 .unixEpoch, .proceed 1 .unixEpoch, .proceed 1 (.ofMillis 2000),
    .proceed 1 .unixEpoch, .proceed 1 .unixEpoch, .proceed 0 .unixEpoch]

/-- The first call has loaded the count 0 and the baseline 1; in a build with
overflow checks it panics once it has the lock. -/
theorem overtaken_call_underflows :
    (overtakingMoves.map RateMove.events).sum < 2 ^ 64 ∧
      ¬ Always (step true) NeverNegative (start .unixEpoch) overtakingMoves ∧
      (step true (overtakingMoves.foldl (step true) (start .unixEpoch))
        (.proceed 0 (.ofMillis 4000))).polls[0]? = some .panicked := by
  refine ⟨by decide, ?_, by decide +kernel⟩
  intro halways
  exact absurd halways.last (by decide +kernel)

/-! ### A call alone -/

/-- The next step of the call that was made last. -/
theorem step_proceed_last (overflowChecks : Bool) (c : RateCounter) (polls : List RatePoll)
    (poll : RatePoll) (now : SystemTime) :
    step overflowChecks ⟨c, polls ++ [poll]⟩ (.proceed polls.length now) =
      ⟨(poll.proceed overflowChecks (free ⟨c, polls ++ [poll]⟩) now c).2,
        polls ++ [(poll.proceed overflowChecks (free ⟨c, polls ++ [poll]⟩) now c).1]⟩ := by
  simp only [step, List.getElem?_concat_length, List.set_append_right _ _ (Nat.le_refl _),
    Nat.sub_self, List.set_cons_zero]

/-- A call without a guard keeps nobody out. -/
theorem free_concat (hfree : s.free = true) (c : RateCounter) (hguard : poll.guard = none) :
    free ⟨c, s.polls ++ [poll]⟩ = true := by
  simp only [free, RwLock.admits, List.all_append] at hfree ⊢
  simp [hfree, hguard]

/-- Alone, the steps of a call do what `get_rate` does at once. -/
theorem alone (overflowChecks : Bool) (hfree : s.free = true) (now : SystemTime) :
    (RateMove.getRate :: List.replicate 5 (.proceed s.polls.length now)).foldl
        (step overflowChecks) s =
      match s.counter.getRate overflowChecks now with
      | (some rate, counter) => ⟨counter, s.polls ++ [.returned rate]⟩
      | (none, counter) => ⟨counter, s.polls ++ [.panicked]⟩ := by
  have hcall : step overflowChecks s .getRate = ⟨s.counter, s.polls ++ [.called]⟩ := rfl
  -- a call that waits does not keep itself out
  have hwaiting : ∀ currentCount lastCount,
      free ⟨s.counter, s.polls ++ [.waiting currentCount lastCount]⟩ = true :=
    fun currentCount lastCount => free_concat hfree s.counter rfl
  simp only [List.replicate, List.foldl_cons, List.foldl_nil, hcall, step_proceed_last,
    RatePoll.proceed, hwaiting, if_true, RateCounter.getRate]
  cases RateCounter.rate overflowChecks s.counter.count s.counter.lastCount
      (s.counter.elapsed now) with
  | some rate => rfl
  | none => rfl

/-- The steps of calls that are made one after the other, `n` calls of `get_rate`
having been made before. -/
def inTurn (n : Nat) : List RateCall → List RateMove
  | [] => []
  | .increment :: calls => .increment :: inTurn n calls
  | .add value :: calls => .add value :: inTurn n calls
  | .getRate now :: calls =>
      (.getRate :: List.replicate 5 (.proceed n now)) ++ inTurn (n + 1) calls

/-- **Calls that do not overlap** do to the counter what `RateRun` says. -/
theorem counter_inTurn (overflowChecks : Bool) (calls : List RateCall) {r : RateRun}
    (hfree : s.free = true) (hcounter : s.counter = r.counter) :
    ((inTurn s.polls.length calls).foldl (step overflowChecks) s).counter =
      (calls.foldl (RateRun.step overflowChecks) r).counter := by
  induction calls generalizing s r with
  | nil => exact hcounter
  | cons call calls ih =>
      cases call with
      | increment => exact ih hfree (congrArg RateCounter.increment hcounter)
      | add value => exact ih hfree (congrArg (RateCounter.add · value) hcounter)
      | getRate now =>
          rw [inTurn, List.foldl_append, alone overflowChecks hfree now, List.foldl_cons]
          have hlength : ∀ poll : RatePoll, s.polls.length + 1 = (s.polls ++ [poll]).length := by
            simp
          simp only [RateRun.step, ← hcounter]
          rcases s.counter.getRate overflowChecks now with ⟨_ | rate, counter⟩
          · rw [hlength .panicked]
            exact ih (free_concat hfree counter rfl) rfl
          · rw [hlength (.returned rate)]
            exact ih (free_concat hfree counter rfl) rfl

end RatePolls

end Rafka
