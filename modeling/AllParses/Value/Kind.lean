/-!
# Kinds of values

The kind of a value is what error messages say about it.
-/

namespace AllParses

/-- The kinds of values. -/
inductive Kind where
  | none
  | bool
  | int
  | str
  | bytes
  | list
  | tuple
  | dict
  | fn
  deriving DecidableEq, Repr

/-- The name of a kind in error messages. -/
def Kind.name : Kind → String
  | none => "NoneType"
  | bool => "bool"
  | int => "int"
  | str => "str"
  | bytes => "bytes"
  | list => "list"
  | tuple => "tuple"
  | dict => "dict"
  | fn => "function"

end AllParses
