import Nock.Notebook
import Nock.Workload.Report

/-!
# Commanding kernels

Kernels of one notebook are given commands.  Some are taken in turns, and of each of these the last
message is reported.  Others follow, of which only the outcome is reported.
-/

namespace Nock.Workload

open Notebook

/-- A command for one of the kernels, to be answered aloud or silently. -/
structure Request where
  code : String
  silent : Bool := false
  kernel : Int := 0

/-- The word for the outcome of a command. -/
def status (reply : Reply) : Entry :=
  .text (if reply.fault.isNone then "ok" else "error")

/-- The last thing that was said, if anything. -/
def lastMessage (reply : Reply) : List Entry :=
  match reply.messages.getLast? with
  | some m => [.message m]
  | none => []

/-- Give commands one after the other and collect the replies. -/
def giveCommands (bound : Nat) (nb : Notebook) : List Request → List Reply × Notebook
  | [] => ([], nb)
  | request :: rest =>
      let (reply, nb) := nb.execute bound request.kernel request.silent request.code
      let (replies, nb) := giveCommands bound nb rest
      (reply :: replies, nb)

/-- Give `count` of the commands and then the closing ones. -/
def commanding (bound : Nat) (commands closing : List Request) (count : Int) :
    Except Fault Report :=
  let (replies, nb) := giveCommands bound {} (cycle commands count)
  let (closingReplies, _) := giveCommands bound nb closing
  return replies.map (fun reply => .row (status reply :: lastMessage reply))
    ++ closingReplies.map status ++ [.text (dropPercents "%5 %6")]

end Nock.Workload
