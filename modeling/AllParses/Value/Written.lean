import AllParses.Run
import AllParses.Text.Written
import AllParses.Value.Basic

/-!
# The written form of values

How values are shown in names, messages and records: texts are quoted, lists stand in brackets,
tuples in parentheses (one item alone keeps a comma), dictionaries in braces. Every value has a
written form, however long its numbers are and however deep it is. Values that are texts can be
joined instead, as they are.
-/

namespace AllParses.Value

open Text (quoted quotedBytes)

mutual

/-- The written form of a value. -/
def written : Value → String
  | none => "None"
  | bool b => if b then "True" else "False"
  | int n => toString n
  | str s => quoted s.toList
  | bytes bs => quotedBytes bs
  | list vs => "[" ++ ", ".intercalate (writtenAll vs) ++ "]"
  | tuple [v] => "(" ++ written v ++ ",)"
  | tuple vs => "(" ++ ", ".intercalate (writtenAll vs) ++ ")"
  | dict entries => "\x7b" ++ ", ".intercalate (writtenEntries entries) ++ "\x7d"
  | fn _ _ _ _ => "<fn>"

/-- The written forms of the values of a list. -/
def writtenAll : List Value → List String
  | [] => []
  | v :: vs => written v :: writtenAll vs

/-- The written forms of the entries of a dictionary. -/
def writtenEntries : List (Value × Value) → List String
  | [] => []
  | (k, v) :: entries => (written k ++ ": " ++ written v) :: writtenEntries entries

end

/-- What is shown of a value where it is not quoted: a text as it is, all else in written form. -/
def display : Value → String
  | str s => s
  | v => written v

/-! ## Joining texts -/

variable {ε : Type}

/-- The texts that the values of a list are. The first value that is no text is an error, which
tells its position; positions are counted from `position`. -/
def texts (position : Nat) : List Value → Run ε (List String)
  | [] => pure []
  | str s :: vs => (s :: ·) <$> texts (position + 1) vs
  | v :: _ => Run.raise (.notJoinable position v.kind)

/-- The texts of a list, put together with the separator between them. -/
def joinTexts (separator : String) (vs : List Value) : Run ε String :=
  separator.intercalate <$> texts 0 vs

end AllParses.Value
