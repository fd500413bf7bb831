import AllParses.Example.Demonstration

/-!
# The command line

Prints the demonstrations whose names are given: `arithmetic`, `emphasis` and `words`. Without a
name it prints all three.
-/

open AllParses.Example (demonstrate demonstrations)

def main (args : List String) : IO UInt32 := do
  let names := if args.isEmpty then demonstrations.map Prod.fst else args
  for name in names do
    match demonstrate name with
    | .ok text => IO.print text
    | .error message =>
      IO.eprintln message
      return 1
  return 0
