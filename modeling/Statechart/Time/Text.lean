import Statechart.Text
import Statechart.Time.Instant

/-!
# Instants as text

An instant is written as date and time at the zero meridian, with a `T` between them and a `Z`
after them.  Years from 0 to 9999 have four digits; other years have a sign and at least four.
The fraction has no, three, six or nine digits, the fewest that are exact.  A leap second is written
as one second more: as second 60 at the end of a minute, and within a minute like the second after it.

An instant is read from a date, a time of day and the offset of its clock.  Numbers may have fewer
digits than they are written with, blanks may stand around them, and the offset may be a name for
the zero meridian or hours and minutes with any run of colons and blanks between them.  Digits
after the ninth of a fraction are dropped.  A year with a sign may have any number of digits.
-/
namespace Statechart

/-- A number of at least `width` digits. -/
def padded (width n : Nat) : List Char := (Nat.toDigits 10 n).leftpad width '0'

namespace TimeOfDay

/-- The second that is written: a leap second counts as the second after the one it follows. -/
def shownSecond (time : TimeOfDay) : Nat := time.second + time.nanos / 1000000000

/-- The nanoseconds that are written. -/
def shownNanos (time : TimeOfDay) : Nat := time.nanos % 1000000000

end TimeOfDay

namespace Instant

open Text (dropBlanks isBlank)

/-! ## Writing -/

/-- The year. -/
def yearChars (year : Int) : List Char :=
  if 0 ≤ year ∧ year ≤ 9999 then padded 4 year.toNat
  else (if year < 0 then '-' else '+') :: padded 4 year.natAbs

/-- The fraction of a second, with its point. -/
def fractionChars (nanos : Nat) : List Char :=
  if nanos = 0 then []
  else if nanos % 1000000 = 0 then '.' :: padded 3 (nanos / 1000000)
  else if nanos % 1000 = 0 then '.' :: padded 6 (nanos / 1000)
  else '.' :: padded 9 nanos

/-- The instant's characters. -/
def chars (instant : Instant) : List Char :=
  yearChars instant.date.year ++ '-' :: padded 2 instant.date.month ++
    '-' :: padded 2 instant.date.day ++ 'T' :: padded 2 instant.time.hour ++
    ':' :: padded 2 instant.time.minute ++ ':' :: padded 2 instant.time.shownSecond ++
    fractionChars instant.time.shownNanos ++ ['Z']

/-- The instant as text. -/
def write (instant : Instant) : String := String.ofList instant.chars

/-! ## Reading -/

/-- A number of at most `limit` digits, and what follows it. -/
def takeNumber? (limit : Nat) (cs : List Char) : Option (Nat × List Char) :=
  let digits := (cs.take limit).takeWhile Char.isDigit
  if digits.isEmpty then none else some (Nat.ofDigitChars 10 digits 0, cs.drop digits.length)

/-- A number with blanks before it. -/
def readNumber? (limit : Nat) (cs : List Char) : Option (Nat × List Char) :=
  takeNumber? limit (dropBlanks cs)

/-- A mark with blanks before it. -/
def readMark? (mark : Char) (cs : List Char) : Option (List Char) :=
  match dropBlanks cs with
  | c :: rest => if c = mark then some rest else none
  | [] => none

/-- A year: at most four digits, or a sign and any number of them. -/
def readYear? (cs : List Char) : Option (Int × List Char) :=
  match dropBlanks cs with
  | '-' :: rest => (takeNumber? rest.length rest).map fun (n, rest) => (-(n : Int), rest)
  | '+' :: rest => (takeNumber? rest.length rest).map fun (n, rest) => ((n : Int), rest)
  | cs => (takeNumber? 4 cs).map fun (n, rest) => ((n : Int), rest)

/-- A date. -/
def readDate? (cs : List Char) : Option (Date × List Char) := do
  let (year, cs) ← readYear? cs
  let cs ← readMark? '-' cs
  let (month, cs) ← readNumber? 2 cs
  let cs ← readMark? '-' cs
  let (day, cs) ← readNumber? 2 cs
  let date ← Date.ofParts? year month day
  some (date, cs)

/-- The fraction of a second in nanoseconds, if there is one. -/
def readFraction? : List Char → Option (Nat × List Char)
  | '.' :: rest =>
    let digits := (rest.take 9).takeWhile Char.isDigit
    if digits.isEmpty then none
    else some (Nat.ofDigitChars 10 digits 0 * Nat.pow 10 (9 - digits.length),
      rest.dropWhile Char.isDigit)
  | cs => some (0, cs)

/-- A time of day. -/
def readTime? (cs : List Char) : Option (TimeOfDay × List Char) := do
  let (hour, cs) ← readNumber? 2 cs
  let cs ← readMark? ':' cs
  let (minute, cs) ← readNumber? 2 cs
  let cs ← readMark? ':' cs
  let (second, cs) ← readNumber? 2 cs
  let (nanos, cs) ← readFraction? cs
  let time ← TimeOfDay.ofClock? hour minute second nanos
  some (time, cs)

/-- Two digits, and what follows them. -/
def twoDigits? : List Char → Option (Nat × List Char)
  | a :: b :: rest =>
    if a.isDigit && b.isDigit then some (Nat.ofDigitChars 10 [a, b] 0, rest) else none
  | _ => none

/-- Hours and minutes of an offset, in minutes; less than a day. -/
def readOffsetSize? (cs : List Char) : Option (Nat × List Char) := do
  let (hours, cs) ← twoDigits? cs
  let (minutes, cs) ← twoDigits? (cs.dropWhile fun c => c = ':' || isBlank c)
  if minutes < 60 && hours < 24 then some (hours * 60 + minutes, cs) else none

/-- The minutes by which a clock is ahead of the zero meridian's. -/
def readOffset? : List Char → Option (Int × List Char)
  | '+' :: rest => (readOffsetSize? rest).map fun (size, rest) => ((size : Int), rest)
  | '-' :: rest => (readOffsetSize? rest).map fun (size, rest) => (-(size : Int), rest)
  | '\u2212' :: rest => (readOffsetSize? rest).map fun (size, rest) => (-(size : Int), rest)
  | 'Z' :: rest => some (0, rest)
  | 'z' :: rest => some (0, rest)
  | u :: t :: c :: rest =>
    if u.toUpper = 'U' && t.toUpper = 'T' && c.toUpper = 'C' then some (0, rest) else none
  | _ => none

/-- The mark between a date and a time of day. -/
def isTimeMark (c : Char) : Bool := c = 'T' || c = 't' || c = ' '

/-- Read an instant. -/
def read? (s : String) : Option Instant := do
  let (date, cs) ← readDate? s.toList
  match cs with
  | [] => none
  | mark :: cs =>
    if isTimeMark mark then
      let (time, cs) ← readTime? cs
      let (ahead, cs) ← readOffset? (dropBlanks cs)
      if (dropBlanks cs).isEmpty then ofLocal? date time ahead else none
    else none

end Instant

end Statechart
