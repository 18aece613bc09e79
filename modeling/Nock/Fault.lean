import Nock.Decimal

/-!
# What can go wrong

Every operation of the library that can fail does so with a `Fault`.  A fault names its cause and
carries what the message needs; the wording is in `Fault.message` alone.
-/

namespace Nock

/-- The causes of failure. -/
inductive Fault where
  /-- Axis 0 addresses nothing. -/
  | zeroAxis
  /-- An atom has neither head nor tail. -/
  | splitAtom
  /-- A cell has no successor. -/
  | bumpCell
  /-- The axis of a lookup is a cell. -/
  | cellAxis
  /-- The axis of an edit is a cell. -/
  | cellEditAxis
  /-- No rule has this opcode, here as text. -/
  | unknownOpcode (text : String)
  /-- An edit formula does not say what to edit. -/
  | malformedEdit
  /-- An atom is no formula. -/
  | atomFormula
  /-- The computation is nested deeper than the bound allows. -/
  | tooDeep
  /-- A closing bracket without an opening one. -/
  | unmatched (position : Nat)
  /-- An opening bracket that is never closed. -/
  | unclosed (position : Nat)
  /-- A dot outside a number. -/
  | strayDot (position : Nat)
  /-- A character that belongs to no noun. -/
  | strayChar (c : Char) (position : Nat)
  /-- A run of digits, here as quoted text, that is not a decimal number. -/
  | notDecimal (quoted : String)
  /-- A number text with too many digits. -/
  | longText (digits : Nat)
  /-- A number with too many digits to be written. -/
  | longNumber
  /-- The empty tuple is no noun. -/
  | emptyTuple
  /-- A value, here as text, that is no noun. -/
  | notNoun (text : String)
  /-- A negative number has no bytes. -/
  | negative
  /-- The bits end too early. -/
  | outOfBits
  /-- A back-reference to a position where no finished noun begins. -/
  | unknownReference (position : Nat)
  /-- The value that stands for nothing is no sequence. -/
  | noSequence
  /-- A number cannot be shifted by fewer than no places. -/
  | negativeShift
  /-- The operands are not of the kinds that the action takes. -/
  | wrongOperands
  deriving DecidableEq, Repr

namespace Fault

/-- What a message about the digit limit begins with. -/
def limitText : String :=
  "Exceeds the limit (" ++ Nat.repr Decimal.maxDigits ++ " digits) for integer string conversion"

/-- What a message about the digit limit ends with. -/
def limitAdvice : String :=
  "; use sys.set_int_max_str_digits() to increase the limit"

/-- The wording of a fault. -/
def message : Fault → String
  | zeroAxis => "fail"
  | splitAtom => "fail: atom"
  | bumpCell => "fail: cell"
  | cellAxis => "fas: first argument must be atom"
  | cellEditAxis => "fail: x must be atom"
  | unknownOpcode text => "Unknown opcode: " ++ text
  | malformedEdit => "Opcode 10 requires [b c] as first argument"
  | atomFormula => "crash: invalid formula (atom)"
  | tooDeep => "maximum recursion depth exceeded"
  | unmatched p => "unmatched ] at " ++ Nat.repr p
  | unclosed p => "unclosed [ at " ++ Nat.repr p
  | strayDot p => "floating dot at " ++ Nat.repr p
  | strayChar c p => "unrecognized character " ++ c.toString ++ " at " ++ Nat.repr p
  | notDecimal quoted => "invalid literal for int() with base 10: " ++ quoted
  | longText digits => limitText ++ ": value has " ++ Nat.repr digits ++ " digits" ++ limitAdvice
  | longNumber => limitText ++ limitAdvice
  | emptyTuple => "Empty tuple cannot be converted to Noun"
  | notNoun text => "Cannot convert " ++ text ++ " to Noun"
  | negative => "can't convert negative int to unsigned"
  | outOfBits => "Slice index out of range."
  | unknownReference p => Nat.repr p
  | noSequence => "object of type 'NoneType' has no len()"
  | negativeShift => "negative shift count"
  | wrongOperands => "operands do not fit"

end Fault

end Nock
