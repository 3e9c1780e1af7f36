import Proximity.Text.Digit

/-! Integers read from text: blanks around, an optional sign, and digits with single underscores between. -/

namespace Proximity.Text

/-- The blanks below code point 128; the separators from 28 to 31 are not among them. -/
def asciiBlanks : List Char := ['\t', '\n', '\x0b', '\x0c', '\r', ' ']

/-- The blanks from code point 128 on. -/
def wideBlanks : List Nat := [
  0x85, 0xA0, 0x1680, 0x2000, 0x2001, 0x2002, 0x2003, 0x2004, 0x2005, 0x2006, 0x2007, 0x2008,
  0x2009, 0x200A, 0x2028, 0x2029, 0x202F, 0x205F, 0x3000]

/-- Whether a character may stand around a numeral. -/
def isBlank (char : Char) : Bool :=
  asciiBlanks.contains char || wideBlanks.contains char.toNat

/-- A text without the blanks at both of its ends. -/
def trimBlanks (text : List Char) : List Char :=
  ((text.dropWhile isBlank).reverse.dropWhile isBlank).reverse

/-- Digits read behind the value of the digits before them. -/
def readDigits? (value : Nat) : List Char → Option Nat
  | [] => some value
  -- An underscore stands between two digits, never at the end.
  | '_' :: char :: rest => do
    let digit ← digitValue? char
    readDigits? (value * 10 + digit) rest
  | char :: rest => do
    let digit ← digitValue? char
    readDigits? (value * 10 + digit) rest

/-- The most digits that a numeral may have, leading zeros among them. -/
def digitLimit : Nat := 4300

/-- A numeral without a sign: a digit first, and no more digits than allowed. -/
def readNatural? (text : List Char) : Option Nat :=
  match text with
  | [] => none
  | char :: rest =>
    if digitLimit < text.countP (· ≠ '_') then none
    else do
      let digit ← digitValue? char
      readDigits? digit rest

/-- A numeral with at most one sign, which touches the first digit. -/
def readSigned? : List Char → Option Int
  | '+' :: rest => (readNatural? rest).map Int.ofNat
  | '-' :: rest => (readNatural? rest).map fun value => -(value : Int)
  | text => (readNatural? text).map Int.ofNat

/-- The integer a text spells, if it spells one. -/
def readInteger? (text : String) : Option Int :=
  readSigned? (trimBlanks text.toList)

/-- The shortest decimal spelling of an integer. -/
def writeInteger (value : Int) : String :=
  match value with
  | .ofNat magnitude => String.ofList (Nat.toDigits 10 magnitude)
  | .negSucc below => String.ofList ('-' :: Nat.toDigits 10 (below + 1))

end Proximity.Text
