/-!
# Classes of characters

A class of characters is written down as its **switch points**: the ascending list of the code
points at which membership changes, starting from "outside".  So `[48, 58]` is the class of the
code points 48 to 57.  Long Unicode classes stay short this way, and membership is one walk along
the list that ends at the first switch point beyond the character.
-/

namespace Nock.Text

/-- A class of characters, given by the code points where membership changes. -/
structure CharClass where
  switches : List Nat

namespace CharClass

/-- Walk along the switch points up to `code`, turning membership over at each of them. -/
def walk (code : Nat) : List Nat → Bool → Bool
  | [], inside => inside
  | s :: rest, inside => if code < s then inside else walk code rest !inside

/-- Does the class hold the character? -/
def holds (k : CharClass) (c : Char) : Bool :=
  walk c.toNat k.switches false

end CharClass

end Nock.Text
