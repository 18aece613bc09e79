import Nock.Text.Digit

/-!
# Percent signs

A number may be written with a percent sign in front.  Such signs are dropped before anything else
is done with a text: a percent sign is dropped exactly if a decimal digit follows it.
-/

namespace Nock.Notebook

/-- Drop every percent sign that a decimal digit follows. -/
def dropPercentChars : List Char → List Char
  | '%' :: d :: rest =>
      if Text.isDecimal d then dropPercentChars (d :: rest)
      else '%' :: dropPercentChars (d :: rest)
  | c :: rest => c :: dropPercentChars rest
  | [] => []

/-- Drop every percent sign that a decimal digit follows. -/
def dropPercents (text : String) : String :=
  String.ofList (dropPercentChars text.toList)

end Nock.Notebook
