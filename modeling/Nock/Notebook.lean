import Nock.Notebook.Kernel

/-!
# Notebooks

A notebook has any number of kernels, known by numbers, and one set of variables for all of them.
A kernel comes into being when its number is first used.
-/

namespace Nock

/-- The kernels used so far and the variables they share. -/
structure Notebook where
  kernels : List (Int × Notebook.Kernel) := []
  vars : Notebook.Variables := []
  deriving Inhabited

namespace Notebook

/-- The kernel with the given number, new if the number was not used before. -/
def kernel (nb : Notebook) (number : Int) : Kernel :=
  (nb.kernels.lookup number).getD {}

/-- What the kernel with the given number works on. -/
def desk (nb : Notebook) (number : Int) : Desk :=
  ⟨nb.kernel number, nb.vars⟩

/-- Put back what the kernel with the given number has worked on. -/
def putBack (nb : Notebook) (number : Int) (desk : Desk) : Notebook :=
  ⟨(number, desk.kernel) :: nb.kernels.filter (·.1 ≠ number), desk.vars⟩

/-- Let the kernel with the given number answer a text. -/
def execute (bound : Nat) (nb : Notebook) (number : Int) (silent : Bool) (code : String) :
    Reply × Notebook :=
  let (reply, desk) := (nb.desk number).execute bound silent code.toList
  (reply, nb.putBack number desk)

end Notebook

end Nock
