/-
GoRestApi.Go.Time — `time.Time` and `time.Duration` as the modelled code
uses them.

An instant is its number of nanoseconds since the Unix epoch and a duration
is a number of nanoseconds, both as unbounded integers: no modelled function
but `backoff` multiplies durations. Locations and monotonic readings are left
out; the code only compares, adds and prints instants.
-/
import Mathlib.Data.Int.Init

namespace GoRestApi.Go

/-- Nanoseconds since the Unix epoch. -/
abbrev Time := Int

/-- Nanoseconds. -/
abbrev Duration := Int

namespace Time

/-- The zero `time.Time`, January 1 of year 1, 00:00:00 UTC. -/
def zero : Time := -62135596800 * 1000000000

def second : Duration := 1000000000

def minute : Duration := 60 * second

def millisecond : Duration := 1000000

/-- `t.Sub(u)`, which is capped at the shortest and the longest duration. -/
def sub (t u : Time) : Duration := max (-9223372036854775808) (min (t - u) 9223372036854775807)

/-- `t.Unix()`: whole seconds since the epoch, rounded down. -/
def unix (t : Time) : Int := t / second

/-- `time.Unix(sec, 0)`. -/
def ofUnix (sec : Int) : Time := sec * second

/-- The year of the instant, in UTC, is one of 0 to 9999. -/
def HasYear (t : Time) : Prop := -62167219200 * second ≤ t ∧ t < 253402300800 * second

/-- The error of the JSON encoder on an instant without one. -/
def marshalError : String :=
  "json: error calling MarshalJSON for type time.Time: year outside of range [0,9999]"

instance (t : Time) : Decidable (HasYear t) := inferInstanceAs (Decidable (_ ∧ _))

end Time

end GoRestApi.Go
