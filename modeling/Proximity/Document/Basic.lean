import Proximity.Document.Real
import Proximity.Text.Hex

/-! Untyped documents, and the lenient ways to take one for an object, a sequence, a number or bytes. -/

namespace Proximity

/-- A value of a data format without a schema; the members of an object keep their order. -/
inductive Document where
  | null
  | boolean (value : Bool)
  | integer (value : Int)
  | real (value : Float)
  | text (value : String)
  | list (items : List Document)
  | object (members : List (String × Document))

namespace Document

/-- The member of an object with a key. -/
def member (key : String) : Document → Except Fault Document
  | object members =>
    match members.lookup key with
    | some value => .ok value
    | none => .error (.missingKey key)
  | _ => .error .notObject

/-- What there is to go through: the items of a list, the characters of a text, the keys of an object. -/
def items : Document → Except Fault (List Document)
  | list items => .ok items
  | text value => .ok (value.toList.map fun char => text (String.ofList [char]))
  | object members => .ok (members.map fun named => text named.1)
  | _ => .error .notSequence

/-- The integer a document stands for: a number without its fraction, a truth value as one or zero, or
a numeral. -/
def toInteger : Document → Except Fault Int
  | integer value => .ok value
  | real value => truncateReal value
  | boolean value => .ok (if value then 1 else 0)
  | text value =>
    match Text.readInteger? value with
    | some spelled => .ok spelled
    | none => .error .malformedNumeral
  | _ => .error .notNumber

/-- The bytes a document spells. -/
def toBytes : Document → Except Fault Bytes
  | text value =>
    match Text.readHex? value with
    | some spelled => .ok spelled
    | none => .error .malformedHex
  | _ => .error .notText

end Document

end Proximity
