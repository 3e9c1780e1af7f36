import Proximity.Text.Numeral
import Proximity.Text.Quoted

/-! Everything that can be refused, by its cause, and the wording of each refusal that has one. -/

namespace Proximity

/-- Why an operation was refused. -/
inductive Fault where
  /-- The multiplicative group has no element of this order. -/
  | noRootOfUnity (order : Nat) (degree : Int)
  /-- Zero has no inverse. -/
  | zeroInverse
  /-- An integer is not the least residue of any field element. -/
  | outsideField
  /-- Nested lists do not fill a rectangular array. -/
  | ragged
  /-- A list stands where an integer is meant. -/
  | listElement
  /-- Integers without a word in common are nested too deep. -/
  | deepMixture
  /-- A sequence was asked for with a negative length. -/
  | negativeLength
  /-- An array cannot be laid out in the shape asked for. -/
  | misshapen
  /-- An array has more bytes than there are addresses. -/
  | oversized
  /-- A size or position was divided by zero. -/
  | divisionByZero
  /-- The hash function is not one of those supported. -/
  | unknownHash (name : String)
  /-- An integer does not fit the fixed width it is encoded in. -/
  | wideInteger
  /-- The number of leaves is not a power of two. -/
  | leafCount (count : Nat)
  /-- A leaf index does not name a leaf. -/
  | leafOutOfRange (index : Int) (count : Nat)
  /-- A batched proof was asked for without any leaf. -/
  | noLeafIndex
  /-- A batched proof was asked for with a leaf named twice. -/
  | repeatedLeafIndex
  /-- A challenge was asked for before a commitment it could bind to. -/
  | unboundChallenge
  /-- Every value of the sampling counter has been used. -/
  | counterExhausted
  /-- Positions can only be drawn from a power-of-two domain. -/
  | domainSize (size : Int)
  /-- The number of positions to draw does not fit the domain. -/
  | queryCount (size count : Int)
  /-- Evaluations cannot be split into rows of one width. -/
  | unevenRows (count : Nat) (width : Int)
  /-- The folding factor is not a power of two from two on. -/
  | foldingFactor (factor : Int)
  /-- The remainder limit is not a power of two. -/
  | remainderLimit (limit : Int)
  /-- The remainder limit is below the folding factor. -/
  | remainderBelowFactor (limit factor : Int)
  /-- The blowup factor is not a power of two. -/
  | blowupFactor (factor : Int)
  /-- A domain cannot be shifted by zero. -/
  | zeroOffset
  /-- Layers of an earlier commit phase have not been opened yet. -/
  | proofPending
  /-- Evaluations belong to another field. -/
  | foreignField (given expected : String)
  /-- Evaluations do not form a vector. -/
  | notVector (shape : List Nat)
  /-- The number of evaluations is not a power of two. -/
  | evaluationCount (count : Nat)
  /-- The number of evaluations does not allow every round of folding. -/
  | unfoldable (count rounds factor : Nat)
  /-- Commitment is not offered for this folding factor. -/
  | unsupportedFactor (factor : Nat)
  /-- A proof was asked for before the commit phase. -/
  | nothingCommitted
  /-- A proof was asked for without any query position. -/
  | noQueryPosition
  /-- Query positions lie outside the first domain. -/
  | positionsOutOfRange (positions : List Int) (size : Nat)
  /-- A row index lies beyond the last row. -/
  | rowOutOfRange
  /-- A layer index lies beyond the last layer. -/
  | layerOutOfRange
  /-- A proof has no remainder yet. -/
  | noRemainder
  /-- A document lacks a member. -/
  | missingKey (key : String)
  /-- A member was looked up in something that is not an object. -/
  | notObject
  /-- A document has no items to go through. -/
  | notSequence
  /-- A document of this kind is never an integer. -/
  | notNumber
  /-- A text does not spell an integer. -/
  | malformedNumeral
  /-- A number is beyond every integer. -/
  | infiniteNumber
  /-- A number is not comparable to any integer. -/
  | undefinedNumber
  /-- Bytes are only read from a text. -/
  | notText
  /-- A text does not spell bytes. -/
  | malformedHex
deriving DecidableEq, Repr

namespace Fault

/-- Integers between brackets. -/
def bracketed (values : List Int) : String :=
  "[" ++ ", ".intercalate (values.map Text.writeInteger) ++ "]"

/-- A shape between parentheses, where a single length keeps a comma. -/
def shapeText : List Nat → String
  | [length] => "(" ++ Text.writeInteger length ++ ",)"
  | lengths => "(" ++ ", ".intercalate (lengths.map fun length : Nat => Text.writeInteger length) ++ ")"

/-- The wording of a refusal; those that come from arithmetic or from the shape of the input have none. -/
def message? : Fault → Option String
  | noRootOfUnity order degree =>
    some ("field of order " ++ Text.writeInteger order ++ " has no primitive "
      ++ Text.writeInteger degree ++ "-th root of unity")
  | zeroInverse => some "cannot invert a zero field element"
  | unknownHash name =>
    some ("hash must be one of ('sha3_256', 'blake2s', 'sha256'), got " ++ Text.quoted name)
  | leafCount count =>
    some ("number of leaves must be a power of two, got " ++ Text.writeInteger count)
  | leafOutOfRange index count =>
    some ("Leaf index " ++ Text.writeInteger index ++ " out of range [0, "
      ++ Text.writeInteger count ++ ")")
  | noLeafIndex => some "at least one leaf index is required"
  | repeatedLeafIndex => some "leaf indexes must be unique"
  | unboundChallenge =>
    some "a challenge cannot be drawn before the layer it binds to is committed"
  | domainSize size =>
    some ("domain_size must be a power of two, got " ++ Text.writeInteger size)
  | queryCount size count =>
    some ("num_queries must be in [1, " ++ Text.writeInteger size ++ "], got "
      ++ Text.writeInteger count)
  | unevenRows count width =>
    some (Text.writeInteger count ++ " evaluations cannot be split into rows of "
      ++ Text.writeInteger width)
  | foldingFactor factor =>
    some ("folding_factor must be a power of two >= 2, got " ++ Text.writeInteger factor)
  | remainderLimit limit =>
    some ("max_remainder_size must be a power of two, got " ++ Text.writeInteger limit)
  | remainderBelowFactor limit factor =>
    some ("max_remainder_size (" ++ Text.writeInteger limit
      ++ ") cannot be smaller than folding_factor (" ++ Text.writeInteger factor ++ ")")
  | blowupFactor factor =>
    some ("blowup_factor must be a power of two, got " ++ Text.writeInteger factor)
  | zeroOffset => some "domain_offset must be nonzero"
  | proofPending => some "a prior proof generation request has not been completed yet"
  | foreignField given expected =>
    some ("evaluations belong to " ++ given ++ ", expected " ++ expected)
  | notVector shape => some ("evaluations must be one-dimensional, got shape " ++ shapeText shape)
  | evaluationCount count =>
    some ("number of evaluations must be a power of two, got " ++ Text.writeInteger count)
  | unfoldable count rounds factor =>
    some (Text.writeInteger count ++ " evaluations cannot be folded " ++ Text.writeInteger rounds
      ++ " times by a factor of " ++ Text.writeInteger factor)
  | unsupportedFactor factor =>
    some ("folding factor " ++ Text.writeInteger factor ++ " is not supported")
  | nothingCommitted => some "FRI layers have not been built yet"
  | noQueryPosition => some "at least one query position is required"
  | positionsOutOfRange positions size =>
    some ("query positions " ++ bracketed positions ++ " out of range [0, "
      ++ Text.writeInteger size ++ ")")
  | _ => none

end Fault

end Proximity
