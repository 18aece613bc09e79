import Nock.Workload.Report

/-!
# Reading nouns, and failing to

Texts are taken in turns.  They are read and printed again, or they have a flaw and are refused.
-/

namespace Nock.Workload

/-- Read `count` of the texts and print the nouns. -/
def reading (texts : List String) (count : Int) : Except Fault Report :=
  (cycle texts count).mapM fun text => do
    let n ← Noun.parse text
    return .text (← n.pretty false)

/-- Read `count` of the texts and report why they were refused. -/
def refusing (texts : List String) (count : Int) : Except Fault Report :=
  return (cycle texts count).filterMap fun text =>
    match Noun.parse text with
    | .error fault => some (.text fault.message)
    | .ok _ => none

end Nock.Workload
