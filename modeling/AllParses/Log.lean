import AllParses.Sequence
import AllParses.Value.Written

/-!
# The log

Parsers report what they do, and client code may add notes of its own. The entries of one run
form one list, in the order in which they happen.
-/

namespace AllParses

/-- One record of the log. -/
inductive Entry where
  /-- A repetition was dropped because the repeated parser consumed nothing. -/
  | dropped (parser : String)
  /-- A traced parser starts on a sequence that begins with `seen`. -/
  | trying (label : String) (seen : Sequence)
  /-- A traced parser ended with that many results. -/
  | found (label : String) (results : Nat)
  /-- A note of client code. -/
  | note (text : String)

/-- The line shown for a record. -/
def Entry.line : Entry → String
  | dropped parser =>
    "DEBUG many: dropped a repetition of " ++ parser ++ " that consumed no input"
  | trying label seen => "DEBUG " ++ label ++ ": trying " ++ seen.toValue.written
  | found label results => "DEBUG " ++ label ++ ": " ++ toString results ++ " result(s)"
  | note text => "USER " ++ text

end AllParses
