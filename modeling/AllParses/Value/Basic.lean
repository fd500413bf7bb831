import AllParses.Value.Kind

/-!
# Values and actions

Tokens, results and the data of client code are `Value`s. Client code itself is an `Action`, an
expression over named values; a function value is an action that waits for its parameters,
together with the values its other names stand for. Hence the two types are declared together.

Not among the values are floating-point numbers, texts with surrogates that have no partner, and
objects of a client's own types: for those, equality, hashing and the written form would be code of
the client, while here they are functions that always answer.
-/

namespace AllParses

mutual

/-- A value. Dictionaries list their entries in the order of insertion. Functions carry a number,
by which they are told apart. -/
inductive Value where
  | none
  | bool (b : Bool)
  | int (n : Int)
  | str (s : String)
  | bytes (bs : List UInt8)
  | list (vs : List Value)
  | tuple (vs : List Value)
  | dict (entries : List (Value × Value))
  | fn (number : Nat) (params : List String) (body : Action) (env : List (String × Value))

/-- An expression of the client's callbacks. -/
inductive Action where
  | lit (v : Value)
  | var (name : String)
  | list (items : List Action)
  | tuple (items : List Action)
  | add (a b : Action)
  | sub (a b : Action)
  | mul (a b : Action)
  | mod (a b : Action)
  | eq (a b : Action)
  | lt (a b : Action)
  | not (a : Action)
  | ite (test yes no : Action)
  | length (a : Action)
  | display (a : Action)
  | written (a : Action)
  | int (a : Action)
  | join (separator items : Action)
  | occurs (needle text : Action)
  | get (a key : Action)
  | lambda (params : List String) (body : Action)
  | apply (f : Action) (args : List Action)
  | log (note next : Action)
  | raise (message : String)

end

namespace Value

/-- The kind of a value. -/
def kind : Value → Kind
  | none => .none
  | bool _ => .bool
  | int _ => .int
  | str _ => .str
  | bytes _ => .bytes
  | list _ => .list
  | tuple _ => .tuple
  | dict _ => .dict
  | fn _ _ _ _ => .fn

/-- The value of one character of text. -/
def char (c : Char) : Value := str (String.singleton c)

/-- The value of one byte. -/
def byte (b : UInt8) : Value := int b.toNat

/-- The number that a value stands for; truth values count as 0 and 1. -/
def number? : Value → Option Int
  | bool b => some (if b then 1 else 0)
  | int n => some n
  | _ => Option.none

/-- The elements that a value is a collection of: the characters of a text, the items of a list or
tuple, the numbers of bytes, the keys of a dictionary. -/
def elements? : Value → Option (List Value)
  | str s => some (s.toList.map char)
  | bytes bs => some (bs.map byte)
  | list vs => some vs
  | tuple vs => some vs
  | dict entries => some (entries.map Prod.fst)
  | _ => Option.none

/-- Whether a value counts as true in a condition. -/
def isTruthy : Value → Bool
  | none => false
  | bool b => b
  | int n => n != 0
  | str s => !s.isEmpty
  | bytes bs => !bs.isEmpty
  | list vs => !vs.isEmpty
  | tuple vs => !vs.isEmpty
  | dict entries => !entries.isEmpty
  | fn _ _ _ _ => true

mutual

/-- The kind of the first part of a value that keeps it from being looked up in a set. -/
def unhashable? : Value → Option Kind
  | list _ => some .list
  | dict _ => some .dict
  | tuple vs => firstUnhashable? vs
  | _ => Option.none

/-- The kind that `unhashable?` finds first in a list. -/
def firstUnhashable? : List Value → Option Kind
  | [] => Option.none
  | v :: vs =>
    match v.unhashable? with
    | some kind => some kind
    | Option.none => firstUnhashable? vs

end

end Value

end AllParses
