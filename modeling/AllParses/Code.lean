import AllParses.Log
import AllParses.Run

/-!
# Code

Code of a client runs in the course of a parse. It may write to a log, it may fail, and it may make
functions. Functions are numbered: code is given how many have been made, and hands on how many
there are after it.
-/

namespace AllParses

/-- Code that answers a value. -/
abbrev Code (ε α : Type) := StateT Nat (Run ε) α

namespace Code

variable {ε α : Type}

/-- A number for a new function. -/
def fresh : Code ε Nat := fun made => pure (made, made + 1)

/-- Code that ends with an error. -/
def raise (e : Error) : Code ε α := fun _ => Run.raise e

/-- Code that ends with the value that is there, or else with the error. -/
def getOrRaise (e : Error) : Option α → Code ε α
  | some a => pure a
  | none => raise e

/-- Code of a client as part of a parse: what it logs are notes. -/
def noted (code : Code String α) : Code Entry α := fun made => (code.run made).mapLog Entry.note

end Code

end AllParses
