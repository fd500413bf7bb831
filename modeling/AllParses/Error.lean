import AllParses.Text.Class
import AllParses.Value.Kind

/-!
# Errors

What can go wrong apart from a parser finding no result: a parser that cannot be made, a token or
value of the wrong kind, an error raised by client code, or a recursion that goes too deep.
-/

namespace AllParses

/-- The causes for which a run ends without an answer. -/
inductive Error where
  /-- A fixed number of repetitions was negative. -/
  | negativeCount (n : Int)
  /-- What should follow a parser is neither a parser nor a function. -/
  | notSequenceable (kind : Kind)
  /-- A collection was expected. -/
  | notIterable (kind : Kind)
  /-- A set cannot hold the value, nor be asked for it. -/
  | unhashable (kind : Kind)
  /-- A class of text was asked of another value. -/
  | notText (cls : TextClass) (kind : Kind)
  /-- Texts were to be joined, but the value at a position is none. -/
  | notJoinable (position : Nat) (kind : Kind)
  /-- A value was applied that is no function. -/
  | notCallable (kind : Kind)
  /-- Client code raised an error. -/
  | raised (message : String)
  /-- An operation of client code does not apply to its operands. -/
  | illTyped (operation : String)
  /-- A name stands for nothing. -/
  | unknownName (name : String)
  /-- The recursion exceeded the depth it was given. -/
  | tooDeep
  deriving DecidableEq, Repr

/-- The text of an error. -/
def Error.message : Error → String
  | negativeCount n => "count: n must be non-negative, got " ++ toString n
  | notSequenceable kind => "cannot sequence a parser with " ++ kind.name
  | notIterable kind => "'" ++ kind.name ++ "' object is not iterable"
  | unhashable kind => "unhashable type: '" ++ kind.name ++ "'"
  | notText cls kind =>
    "descriptor '" ++ cls.predicate ++ "' for 'str' objects doesn't apply to a '" ++ kind.name
      ++ "' object"
  | notJoinable position kind =>
    "sequence item " ++ toString position ++ ": expected str instance, " ++ kind.name ++ " found"
  | notCallable kind => "'" ++ kind.name ++ "' object is not callable"
  | raised message => message
  | illTyped operation => "unsupported operand for " ++ operation
  | unknownName name => "name '" ++ name ++ "' is not defined"
  | tooDeep => "maximum recursion depth exceeded"

end AllParses
