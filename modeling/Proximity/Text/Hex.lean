import Proximity.Bytes

/-! Byte strings spelled as pairs of hexadecimal digits. -/

namespace Proximity.Text

/-- The sixteen digits, in order of value. -/
def hexDigits : List Char :=
  ['0', '1', '2', '3', '4', '5', '6', '7', '8', '9', 'a', 'b', 'c', 'd', 'e', 'f']

/-- The two digits of one byte, the high half first. -/
def hexPair (byte : UInt8) : List Char :=
  [hexDigits.getD (byte.toNat / 16) '0', hexDigits.getD (byte.toNat % 16) '0']

/-- A byte string in lower-case digits, two to a byte. -/
def writeHex (data : Bytes) : String :=
  String.ofList (data.flatMap hexPair)

/-- The value of a digit in either case. -/
def hexValue? (char : Char) : Option Nat :=
  if '0' ≤ char ∧ char ≤ '9' then some (char.toNat - '0'.toNat)
  else if 'a' ≤ char ∧ char ≤ 'f' then some (char.toNat - 'a'.toNat + 10)
  else if 'A' ≤ char ∧ char ≤ 'F' then some (char.toNat - 'A'.toNat + 10)
  else none

/-- Whether a character may stand between two pairs. -/
def isHexGap (char : Char) : Bool :=
  ['\t', '\n', '\x0b', '\x0c', '\r', ' '].contains char

/-- The bytes spelled by pairs of digits, with gaps anywhere but inside a pair. -/
def readPairs? : List Char → Option Bytes
  | [] => some []
  | [char] => if isHexGap char then some [] else none
  | high :: low :: rest =>
    if isHexGap high then readPairs? (low :: rest)
    else do
      let upper ← hexValue? high
      let lower ← hexValue? low
      let bytes ← readPairs? rest
      return UInt8.ofNat (16 * upper + lower) :: bytes

/-- The byte string a text spells, if it spells one. -/
def readHex? (text : String) : Option Bytes :=
  readPairs? text.toList

end Proximity.Text
