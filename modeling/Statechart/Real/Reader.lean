import Statechart.Real.Binary64

/-!
# Reading numbers

A number is written with an optional sign, then digits with an optional point among them and an
optional power of ten, or one of the words for infinity and for not-a-number in any case.
-/
namespace Statechart.Binary64

/-- An optional sign, and what follows it. -/
def takeSign : List Char → Bool × List Char
  | '-' :: rest => (true, rest)
  | '+' :: rest => (false, rest)
  | rest => (false, rest)

/-- The power of ten at the end of a number.  Without one it is zero. -/
def readExponent? : List Char → Option Int
  | [] => some 0
  | mark :: rest =>
    let (negative, digits) := takeSign rest
    if mark.toLower = 'e' && !digits.isEmpty && digits.all Char.isDigit then
      let power := Nat.ofDigitChars 10 digits 0
      some (if negative then -(power : Int) else power)
    else none

/-- The fraction after a number's integer part, and what follows it. -/
def takeFraction : List Char → List Char × List Char
  | '.' :: rest => (rest.takeWhile Char.isDigit, rest.dropWhile Char.isDigit)
  | rest => ([], rest)

/-- A number without its sign. -/
def readUnsigned? (negative : Bool) (cs : List Char) : Option Binary64 :=
  let word := String.ofList (cs.map Char.toLower)
  if word = "inf" || word = "infinity" then some (infinity negative)
  else if word = "nan" then some nan
  else
    let front := cs.takeWhile Char.isDigit
    let (back, rest) := takeFraction (cs.dropWhile Char.isDigit)
    if front.isEmpty && back.isEmpty then none
    else (readExponent? rest).map fun power =>
      ofDecimal negative (Nat.ofDigitChars 10 (front ++ back) 0) (power - back.length)

/-- The number nearest to the one written. -/
def read? (s : String) : Option Binary64 :=
  let (negative, rest) := takeSign s.toList
  readUnsigned? negative rest

end Statechart.Binary64
