import Statechart.Json.Basic

/-!
# Writing JSON

A document is written on one line without blanks, or with every item and member on a line of its
own, indented by two spaces a level; an empty array or object stays closed up.  Quotes,
backslashes and controls are escaped, the controls that have one by their letter.
-/
namespace Statechart.Json

/-- The letter of a character that is written as a short escape. -/
def escapeLetter? : Char → Option Char
  | '"' => some '"'
  | '\\' => some '\\'
  | '\x08' => some 'b'
  | '\x0c' => some 'f'
  | '\n' => some 'n'
  | '\r' => some 'r'
  | '\t' => some 't'
  | _ => none

/-- A control written as a code unit of four digits. -/
def escapeUnit (c : Char) : List Char :=
  ['\\', 'u', '0', '0', Nat.digitChar (c.toNat / 16), Nat.digitChar (c.toNat % 16)]

/-- One character as it stands between quotes. -/
def escape (c : Char) : List Char :=
  match escapeLetter? c with
  | some letter => ['\\', letter]
  | none => if c.toNat < 0x20 then escapeUnit c else [c]

/-- A text between quotes.  Without a string, half a surrogate pair stands for it. -/
def textChars : JsonText → List Char
  | none => ['"', '\\', 'u', 'd', '8', '0', '0', '"']
  | some s => '"' :: s.toList.flatMap escape ++ ['"']

/-- Where documents are laid out over lines, the start of a line at a depth. -/
def lineStart : Option Nat → List Char
  | none => []
  | some depth => '\n' :: List.replicate (2 * depth) ' '

/-- The mark between a name and its value. -/
def nameEnd : Option Nat → List Char
  | none => [':']
  | some _ => [':', ' ']

mutual

/-- A document at a depth; without a depth, on one line. -/
def chars (depth : Option Nat) : Json → List Char
  | .null => ['n', 'u', 'l', 'l']
  | .truth true => ['t', 'r', 'u', 'e']
  | .truth false => ['f', 'a', 'l', 's', 'e']
  | .number written => written
  | .text value => textChars value
  | .array [] => ['[', ']']
  | .array (item :: items) =>
    let inner := depth.map (· + 1)
    '[' :: lineStart inner ++ chars inner item ++ itemChars inner items ++ lineStart depth ++ [']']
  | .object [] => ['\x7b', '\x7d']
  | .object ((name, value) :: members) =>
    let inner := depth.map (· + 1)
    '\x7b' :: lineStart inner ++ textChars name ++ nameEnd depth ++ chars inner value ++
      memberChars inner members ++ lineStart depth ++ ['\x7d']

/-- The items after the first, each after a comma. -/
def itemChars (depth : Option Nat) : List Json → List Char
  | [] => []
  | item :: items => ',' :: lineStart depth ++ chars depth item ++ itemChars depth items

/-- The members after the first, each after a comma. -/
def memberChars (depth : Option Nat) : List (JsonText × Json) → List Char
  | [] => []
  | (name, value) :: members =>
    ',' :: lineStart depth ++ textChars name ++ nameEnd depth ++ chars depth value ++
      memberChars depth members

end

/-- The document on one line. -/
def compact (document : Json) : String := String.ofList (chars none document)

/-- The document over lines. -/
def pretty (document : Json) : String := String.ofList (chars (some 0) document)

end Statechart.Json
