import AllParses.Example.Arithmetic
import AllParses.Example.Emphasis
import AllParses.Example.Words

/-!
# Demonstrations

The reports of the examples, by name.
-/

namespace AllParses.Example

/-- The demonstrations, by name. -/
def demonstrations : List (String × Run Entry String) :=
  [("arithmetic", Arithmetic.report), ("emphasis", Emphasis.report), ("words", Words.report)]

/-- What is printed for a name: a demonstration, or why there is none. -/
def demonstrate (name : String) : Except String String :=
  match demonstrations.lookup name with
  | none => .error ("unknown demonstration: " ++ name)
  | some report =>
    match report.result with
    | .ok text => .ok text
    | .error e => .error e.message

end AllParses.Example
