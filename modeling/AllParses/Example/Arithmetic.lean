import AllParses.Parser.Chain
import AllParses.Parser.Character
import AllParses.Parser.Outcome
import AllParses.Text.Written

/-!
# Sums and differences

Chains of numbers with plus and minus signs between them. The same chain is folded from the left,
as usual, and from the right.
-/

namespace AllParses.Example.Arithmetic

open AllParses.Parser

/-- A number in decimal digits. Every shorter run of digits is a result as well. -/
def number : Parser Int :=
  digit.many1.map fun ds => pure (Text.ofDigits ds : Nat)

/-- Addition. -/
def plus : Operator Int := fun a b => pure (a + b)

/-- Subtraction. -/
def minus : Operator Int := fun a b => pure (a - b)

/-- A plus or a minus sign. -/
def operator : Parser (Operator Int) :=
  choice
    [(char (.char '+')).map fun _ => pure plus,
      (char (.char '-')).map fun _ => pure minus]

/-- The value of a chain, computed from the left. -/
def left : Parser Int := number.chainl1 operator

/-- The value of a chain, computed from the right. -/
def right : Parser Int := number.chainr1 operator

/-- The written form of a chosen result beside the error that stands in its place. -/
def outcome : Except ParseError Int → String
  | .ok n => "(" ++ (Value.int n).written ++ ", None)"
  | .error e => "(None, " ++ e.written ++ ")"

/-- A demonstration: all results of one chain, its values folded both ways, and an error. -/
def report : Run Entry String := do
  let source := Input.start (.text "8-4-2".toList)
  let results ← left.run source
  let fromLeft ← left.parseAll source
  let fromRight ← right.parseAll source
  let chosen ← left.runParser (.start (.text "8-4-".toList))
  return String.join (results.map fun s => (s.map Value.int).row 6 ++ "\n")
    ++ "left:  " ++ (Value.list (fromLeft.map .int)).written ++ "\n"
    ++ "right: " ++ (Value.list (fromRight.map .int)).written ++ "\n"
    ++ outcome chosen ++ "\n"

end AllParses.Example.Arithmetic
