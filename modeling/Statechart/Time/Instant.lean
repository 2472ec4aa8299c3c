import Statechart.Time.Calendar

/-!
# Instants

A point in time to the nanosecond, as the date and the time of day at the zero meridian.  Any second
may be followed by a leap second, which belongs to it: the nanoseconds are counted on.  A clock shows
a leap second only at the end of a minute, as its second 60.

`Instant.until?` measures the time between two instants.  A leap second counts where it lies
between the two: the difference of the clock times misses it and is corrected.
-/
namespace Statechart

/-- A time of day that exists. -/
structure TimeOfDay where
  hour : Nat
  minute : Nat
  second : Nat
  /-- Nanoseconds since the second began; those beyond a second are of the leap second after it. -/
  nanos : Nat
  hour_lt : hour < 24
  minute_lt : minute < 60
  second_lt : second < 60
  nanos_lt : nanos < 2000000000
  deriving DecidableEq, Repr

namespace TimeOfDay

/-- The time of day that a clock shows, if it exists.  Second 60 of a minute is the leap second that
follows second 59. -/
def ofClock? (hour minute second nanos : Nat) : Option TimeOfDay :=
  if h : hour < 24 ∧ minute < 60 ∧ second ≤ 60 ∧ nanos < 1000000000 then
    if within : second < 60 then some ⟨hour, minute, second, nanos, h.1, h.2.1, within, by omega⟩
    else some ⟨hour, minute, second - 1, nanos + 1000000000, h.1, h.2.1, by omega, by omega⟩
  else none

/-- The time is within the leap second that follows its second. -/
def isLeap (time : TimeOfDay) : Bool := 1000000000 ≤ time.nanos

/-- Seconds of the day on a clock without leap seconds. -/
def clockSeconds (time : TimeOfDay) : Nat := time.hour * 3600 + time.minute * 60 + time.second

/-- Nanoseconds from the clock time of `start` to that of `time`, with the leap second counted in
that lies between them. -/
def nanosSince (time start : TimeOfDay) : Int :=
  let seconds : Int := (time.clockSeconds : Int) - start.clockSeconds
  let leap : Int :=
    if start.clockSeconds < time.clockSeconds then (if start.isLeap then 1 else 0)
    else if time.clockSeconds < start.clockSeconds then (if time.isLeap then -1 else 0)
    else 0
  (seconds + leap) * 1000000000 + ((time.nanos : Int) - start.nanos)

/-- The time of day so many minutes earlier, and the days by which that crosses midnight. -/
def minutesEarlier (time : TimeOfDay) (minutes : Int) : TimeOfDay × Int :=
  let moved : Int := time.hour * 60 + time.minute - minutes
  let ofDay : Nat := (moved % 1440).toNat
  have ofDay_lt : ofDay < 1440 := by omega
  (⟨ofDay / 60, ofDay % 60, time.second, time.nanos, by omega, by omega, time.second_lt,
    time.nanos_lt⟩, moved.fdiv 1440)

end TimeOfDay

/-- A point in time, by the date and the time of day at the zero meridian. -/
structure Instant where
  date : Date
  time : TimeOfDay
  deriving DecidableEq, Repr

namespace Instant

/-- The instant of a local date and time, whose clock is so many minutes ahead of the zero
meridian's.  There is none beyond the range of dates. -/
def ofLocal? (date : Date) (time : TimeOfDay) (ahead : Int) : Option Instant :=
  let (time, days) := time.minutesEarlier ahead
  if days = 0 then some ⟨date, time⟩
  else if days < 0 then date.previous?.map (⟨·, time⟩)
  else date.next?.map (⟨·, time⟩)

/-- A span of time: whole seconds, and nanoseconds beyond them. -/
structure Span where
  seconds : Nat
  nanos : Nat
  deriving DecidableEq, Repr

/-- The time from one instant to a later one. -/
def until? (start stop : Instant) : Option Span :=
  let days := stop.date.dayNumber - start.date.dayNumber
  let nanos := days * 86400000000000 + stop.time.nanosSince start.time
  if nanos < 0 then none
  else some ⟨nanos.toNat / 1000000000, nanos.toNat % 1000000000⟩

end Instant

end Statechart
