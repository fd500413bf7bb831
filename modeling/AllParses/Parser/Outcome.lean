import AllParses.Parser.Basic
import AllParses.Value.Equality
import AllParses.Value.Written

/-!
# Outcomes

A parser answers all its successes; the functions here choose among them. They want the whole
input consumed, and otherwise report how far the parser came.
-/

namespace AllParses

variable {α : Type}

/-- Why no complete parse was chosen: a message, and what the parser stopped before. -/
structure ParseError where
  message : String
  remainder : Option Sequence

namespace ParseError

/-- The line shown for the error: the remainder is cut after 20 tokens. -/
def line (e : ParseError) : String :=
  match e.remainder with
  | none => "Parse error: " ++ e.message
  | some rest =>
    "Parse error: " ++ e.message ++ " (stopped before " ++ (rest.take 20).toValue.written ++ ")"

/-- The written form of the error. -/
def written (e : ParseError) : String :=
  let remainder := (e.remainder.map Sequence.toValue).getD .none
  "ParseError(message=" ++ (Value.str e.message).written ++ ", remainder=" ++ remainder.written
    ++ ")"

/-- Equal messages and equal remainders. -/
def same (e f : ParseError) : Bool :=
  e.message == f.message &&
    match e.remainder, f.remainder with
    | none, none => true
    | some r, some s => r.toValue == s.toValue
    | _, _ => false

end ParseError

/-- The written form of a success. -/
def Success.written (s : Success Value) : String :=
  "ParseResult(value=" ++ s.value.written ++ ", remainder=" ++ s.rest.toValue.written ++ ")"

/-- The written form of a list of successes. -/
def Success.writtenAll (successes : List (Success Value)) : String :=
  "[" ++ ", ".intercalate (successes.map Success.written) ++ "]"

/-- A row of a table of successes: the value in a column, and what is left. -/
def Success.row (width : Nat) (s : Success Value) : String :=
  Text.padRight width s.value.written ++ " rest=" ++ s.rest.toValue.written

/-- The first of the shortest inputs, among `best` and the others. -/
def shortest : Input → List Input → Input
  | best, [] => best
  | best, inp :: others => shortest (if inp.length < best.length then inp else best) others

/-- The values of the successes that consumed the whole input. -/
def complete (successes : List (Success α)) : List α :=
  (successes.filter fun s => s.rest.isEmpty).map Success.value

/-- The first complete success, or else an error that tells where the best attempt stopped. -/
def chosen (inp : Input) (successes : List (Success α)) : Except ParseError α :=
  match complete successes with
  | a :: _ => .ok a
  | [] =>
    match successes.map Success.rest with
    | [] => .error ⟨"no parse", some inp.sequence⟩
    | rest :: others =>
      .error ⟨toString successes.length ++ " partial parse(s), none consumed all input",
        some (shortest rest others).sequence⟩

namespace Parser

/-- The values of all complete parses, in order. -/
def parseAll (p : Parser α) (inp : Input) : Run Entry (List α) :=
  complete <$> p.run inp

/-- The first complete parse, or an error. -/
def runParser (p : Parser α) (inp : Input) : Run Entry (Except ParseError α) :=
  chosen inp <$> p.run inp

/-- What is printed for the first complete parse, or for the error. -/
def parseTest (p : Parser Value) (inp : Input) : Run Entry String :=
  (fun
    | .ok v => v.display ++ "\n"
    | .error e => e.line ++ "\n") <$> p.runParser inp

end Parser

end AllParses
