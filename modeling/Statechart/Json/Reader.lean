import Statechart.Json.Basic

/-!
# Reading JSON

`Json.read?` reads a whole text as one document, with blanks around it and nothing after it.  A
text between quotes holds no raw control characters; an escape by number gives a code unit, and
two units that form a surrogate pair give one character.

Reading recurses on fuel.  Every nested document and every further item starts with a character
that has been consumed by then, so twice the length of the text is fuel enough.
-/
namespace Statechart.Json

/-- A blank between the parts of a document. -/
def isSpace (c : Char) : Bool := c = ' ' || c = '\t' || c = '\n' || c = '\r'

/-- The text from its first character that is not blank. -/
def skipSpace (cs : List Char) : List Char := cs.dropWhile isSpace

/-- A part of a text between quotes. -/
inductive TextUnit
  /-- A character, as it stands or by a short escape. -/
  | char (c : Char)
  /-- A code unit, escaped by number. -/
  | unit (code : Nat)

/-- Value of a hexadecimal digit of either case. -/
def hexDigit? (c : Char) : Option Nat :=
  if c.isDigit then some (c.toNat - '0'.toNat)
  else if 'a' ≤ c ∧ c ≤ 'f' then some (c.toNat - 'a'.toNat + 10)
  else if 'A' ≤ c ∧ c ≤ 'F' then some (c.toNat - 'A'.toNat + 10)
  else none

/-- The character of a short escape. -/
def shortEscape? : Char → Option Char
  | '"' => some '"'
  | '\\' => some '\\'
  | '/' => some '/'
  | 'b' => some '\x08'
  | 'f' => some '\x0c'
  | 'n' => some '\n'
  | 'r' => some '\r'
  | 't' => some '\t'
  | _ => none

/-- Read up to the closing quote. -/
def readUnits? : List Char → Option (List TextUnit × List Char)
  | [] => none
  | '"' :: rest => some ([], rest)
  | '\\' :: 'u' :: a :: b :: c :: d :: rest => do
    let a ← hexDigit? a
    let b ← hexDigit? b
    let c ← hexDigit? c
    let d ← hexDigit? d
    let (units, rest) ← readUnits? rest
    some (.unit (a * 4096 + b * 256 + c * 16 + d) :: units, rest)
  | '\\' :: letter :: rest => do
    let c ← shortEscape? letter
    let (units, rest) ← readUnits? rest
    some (.char c :: units, rest)
  | c :: rest =>
    if c.toNat < 0x20 || c = '\\' then none
    else do
      let (units, rest) ← readUnits? rest
      some (.char c :: units, rest)

/-- A code unit that opens a surrogate pair. -/
def isHigh (code : Nat) : Bool := 0xd800 ≤ code && code < 0xdc00

/-- A code unit that closes a surrogate pair. -/
def isLow (code : Nat) : Bool := 0xdc00 ≤ code && code < 0xe000

/-- The characters of a text.  A code unit that is half a pair needs the other half. -/
def joinUnits? : List TextUnit → Option (List Char)
  | [] => some []
  | .char c :: rest => (joinUnits? rest).map (c :: ·)
  | .unit high :: .unit low :: rest =>
    if isHigh high && isLow low then
      (joinUnits? rest).map (Char.ofNat (0x10000 + (high - 0xd800) * 0x400 + (low - 0xdc00)) :: ·)
    else if isHigh high || isLow high then none
    else (joinUnits? (.unit low :: rest)).map (Char.ofNat high :: ·)
  | .unit code :: rest =>
    if isHigh code || isLow code then none
    else (joinUnits? rest).map (Char.ofNat code :: ·)

/-- Read a text after its opening quote. -/
def readText? (cs : List Char) : Option (JsonText × List Char) :=
  (readUnits? cs).map fun (units, rest) => ((joinUnits? units).map String.ofList, rest)

/-- At least one digit, and what follows the digits. -/
def readDigits? (cs : List Char) : Option (List Char × List Char) :=
  let digits := cs.takeWhile Char.isDigit
  if digits.isEmpty then none else some (digits, cs.dropWhile Char.isDigit)

/-- The integer part of a number: a zero alone, or digits that start with none. -/
def readInteger? : List Char → Option (List Char × List Char)
  | '0' :: rest => some (['0'], rest)
  | cs => readDigits? cs

/-- The fraction of a number, if it has one. -/
def readFraction? : List Char → Option (List Char × List Char)
  | '.' :: rest => (readDigits? rest).map fun (digits, rest) => ('.' :: digits, rest)
  | cs => some ([], cs)

/-- The sign of an exponent, if it has one. -/
def readSign : List Char → List Char × List Char
  | '+' :: rest => (['+'], rest)
  | '-' :: rest => (['-'], rest)
  | cs => ([], cs)

/-- The exponent of a number, if it has one. -/
def readExponent? : List Char → Option (List Char × List Char)
  | [] => some ([], [])
  | mark :: rest =>
    if mark = 'e' || mark = 'E' then
      let (sign, rest) := readSign rest
      (readDigits? rest).map fun (digits, rest) => (mark :: sign ++ digits, rest)
    else some ([], mark :: rest)

/-- A number without its sign. -/
def readUnsigned? (cs : List Char) : Option (List Char × List Char) := do
  let (integer, cs) ← readInteger? cs
  let (fraction, cs) ← readFraction? cs
  let (exponent, cs) ← readExponent? cs
  some (integer ++ fraction ++ exponent, cs)

/-- A number. -/
def readNumber? : List Char → Option (List Char × List Char)
  | '-' :: rest => (readUnsigned? rest).map fun (written, rest) => ('-' :: written, rest)
  | cs => readUnsigned? cs

mutual

/-- Read a document that starts at the first character. -/
def readDocument? : Nat → List Char → Option (Json × List Char)
  | 0, _ => none
  | fuel + 1, cs =>
    match cs with
    | 'n' :: 'u' :: 'l' :: 'l' :: rest => some (.null, rest)
    | 't' :: 'r' :: 'u' :: 'e' :: rest => some (.truth true, rest)
    | 'f' :: 'a' :: 'l' :: 's' :: 'e' :: rest => some (.truth false, rest)
    | '"' :: rest => (readText? rest).map fun (value, rest) => (.text value, rest)
    | '[' :: rest =>
      match skipSpace rest with
      | ']' :: rest => some (.array [], rest)
      | rest => (readItems? fuel rest).map fun (items, rest) => (.array items, rest)
    | '\x7b' :: rest =>
      match skipSpace rest with
      | '\x7d' :: rest => some (.object [], rest)
      | rest => (readMembers? fuel rest).map fun (members, rest) => (.object members, rest)
    | cs => (readNumber? cs).map fun (written, rest) => (.number written, rest)

/-- Read the items of an array, at least one, up to its closing bracket. -/
def readItems? : Nat → List Char → Option (List Json × List Char)
  | 0, _ => none
  | fuel + 1, cs => do
    let (item, rest) ← readDocument? fuel cs
    match skipSpace rest with
    | ']' :: rest => some ([item], rest)
    | ',' :: rest => do
      let (items, rest) ← readItems? fuel (skipSpace rest)
      some (item :: items, rest)
    | _ => none

/-- Read the members of an object, at least one, up to its closing brace. -/
def readMembers? : Nat → List Char → Option (List (JsonText × Json) × List Char)
  | 0, _ => none
  | fuel + 1, cs => do
    let (name, value, rest) ← match cs with
      | '"' :: rest => do
        let (name, rest) ← readText? rest
        match skipSpace rest with
        | ':' :: rest => do
          let (value, rest) ← readDocument? fuel (skipSpace rest)
          some (name, value, rest)
        | _ => none
      | _ => none
    match skipSpace rest with
    | '\x7d' :: rest => some ([(name, value)], rest)
    | ',' :: rest => do
      let (members, rest) ← readMembers? fuel (skipSpace rest)
      some ((name, value) :: members, rest)
    | _ => none

end

/-- Read a whole text as one document. -/
def read? (s : String) : Option Json := do
  let cs := skipSpace s.toList
  let (document, rest) ← readDocument? (2 * cs.length + 2) cs
  if (skipSpace rest).isEmpty then some document else none

end Statechart.Json
