import Proximity.Text.Unprintable

/-! Names quoted for a message, so that any text shows on one line and can be read back. -/

namespace Proximity.Text

/-- A number in lower-case hexadecimal, filled with zeros to a width. -/
def hexNumeral (width value : Nat) : List Char :=
  let digits := Nat.toDigits 16 value
  List.replicate (width - digits.length) '0' ++ digits

/-- One character inside quotes of the given kind. -/
def quoteChar (mark char : Char) : List Char :=
  if char = mark ∨ char = '\\' then ['\\', char]
  else if char = '\t' then ['\\', 't']
  else if char = '\n' then ['\\', 'n']
  else if char = '\r' then ['\\', 'r']
  else if !isUnprintable char then [char]
  -- The escape is the shortest of three that holds the code point.
  else if char.toNat < 0x100 then '\\' :: 'x' :: hexNumeral 2 char.toNat
  else if char.toNat < 0x10000 then '\\' :: 'u' :: hexNumeral 4 char.toNat
  else '\\' :: 'U' :: hexNumeral 8 char.toNat

/-- Single quotes, or double ones where the text holds single quotes only. -/
def quoteMark (text : List Char) : Char :=
  if text.contains '\x27' && !text.contains '"' then '"' else '\x27'

/-- A text between quotes, with the quote, the backslash and every unprintable character escaped. -/
def quoted (text : String) : String :=
  let mark := quoteMark text.toList
  String.ofList (mark :: text.toList.flatMap (quoteChar mark) ++ [mark])

end Proximity.Text
