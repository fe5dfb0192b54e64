/-
Rafka/Time.lean

System clocks.

A `SystemTime` is a reading of the system clock, in nanoseconds relative to
the epoch.  The clock may step backwards between two readings, so the
difference of two readings is partial (`SystemTime.durationSince`).

Timestamps of messages are readings from the epoch on (`EpochTime`): an
earlier one cannot be written to a file.
-/
import Mathlib.Tactic.Ring

namespace Rafka

/-- A length of time in nanoseconds. -/
abbrev Duration := Nat

/-- `Duration::from_secs`. -/
def Duration.fromSecs (secs : Nat) : Duration := secs * 10 ^ 9

/-- `SystemTime`: nanoseconds since `UNIX_EPOCH`, negative before it.  The
seconds are an `i64`. -/
structure SystemTime where
  nanos : Int
  le_nanos : -2 ^ 63 * 10 ^ 9 ≤ nanos
  nanos_lt : nanos < 2 ^ 63 * 10 ^ 9
deriving DecidableEq

namespace SystemTime

/-- `SystemTime::UNIX_EPOCH`. -/
def unixEpoch : SystemTime := ⟨0, by decide, by decide⟩

/-- `SystemTime::duration_since`: fails if `earlier` is the later one. -/
def durationSince (now earlier : SystemTime) : Option Duration :=
  if earlier.nanos ≤ now.nanos then some (now.nanos - earlier.nanos).toNat else none

/-- `SystemTime::sub`: a panic if the result is before every `SystemTime`. -/
def sub (t : SystemTime) (d : Duration) : Option SystemTime :=
  if h : -2 ^ 63 * 10 ^ 9 ≤ t.nanos - d then
    some ⟨t.nanos - d, h, by have := t.nanos_lt; omega⟩
  else none

end SystemTime

/-- A `SystemTime` from the epoch on. -/
structure EpochTime where
  nanos : Nat
  nanos_lt : nanos < 2 ^ 63 * 10 ^ 9
deriving DecidableEq

namespace EpochTime

/-- `SystemTime::UNIX_EPOCH`. -/
def unixEpoch : EpochTime := ⟨0, by decide⟩

/-- The clock reading. -/
def toSystemTime (t : EpochTime) : SystemTime :=
  ⟨t.nanos, by have := t.nanos_lt; omega, by have := t.nanos_lt; omega⟩

/-- `SystemTime::duration_since`. -/
def durationSince (now earlier : EpochTime) : Option Duration :=
  now.toSystemTime.durationSince earlier.toSystemTime

end EpochTime

end Rafka
