import AllParses.Code
import AllParses.Value.Equality
import AllParses.Value.Written

/-!
# Actions of client code

An action is evaluated in an environment, operands first and from left to right. It may add notes
to the log, make functions and raise an error. Applying functions is left to the caller of
`Action.eval`, so that evaluation goes by the structure of the action; `Value.call` ties the knot,
with a bound on how many applications may be nested.
-/

namespace AllParses

/-- What names stand for. -/
abbrev Env := List (String × Value)

namespace Value

open Run

/-- The sum of two numbers, or two texts, lists or tuples put together. -/
def add : Value → Value → Run String Value
  | str s, str t => pure (str (s ++ t))
  | list vs, list ws => pure (list (vs ++ ws))
  | tuple vs, tuple ws => pure (tuple (vs ++ ws))
  | bytes as, bytes bs => pure (bytes (as ++ bs))
  | v, w =>
    match v.number?, w.number? with
    | some m, some n => pure (int (m + n))
    | _, _ => raise (.illTyped "add")

/-- An operation on two numbers. -/
def arithmetic (name : String) (op : Int → Int → Run String Value) (v w : Value) :
    Run String Value :=
  match v.number?, w.number? with
  | some m, some n => op m n
  | _, _ => raise (.illTyped name)

/-- The number of elements of a collection. -/
def length (v : Value) : Run String Value :=
  match v.elements? with
  | some vs => pure (int vs.length)
  | Option.none => raise (.illTyped "len")

/-- The number that a text of decimal digits denotes, or the number itself. -/
def toInt : Value → Run String Value
  | str s =>
    if !s.isEmpty && s.toList.all Char.isDigit then pure (int (Text.ofDigits s.toList))
    else raise (.illTyped "int")
  | v =>
    match v.number? with
    | some n => pure (int n)
    | Option.none => raise (.illTyped "int")

/-- The texts of a collection, put together with the separator between them. -/
def join (separator items : Value) : Run String Value :=
  match separator, items.elements? with
  | str s, some vs => str <$> joinTexts s vs
  | _, _ => raise (.illTyped "join")

/-- Whether the needle stands somewhere in the text. -/
def occursIn (needle : List Char) : List Char → Bool
  | [] => needle.isEmpty
  | c :: cs => needle.isPrefixOf (c :: cs) || occursIn needle cs

/-- Whether a text stands somewhere in another. -/
def occurs : Value → Value → Run String Value
  | str s, str t => pure (bool (occursIn s.toList t.toList))
  | _, _ => raise (.illTyped "in")

/-- The item at a position of a list; negative positions count from the end. -/
def itemAt (vs : List Value) (position : Int) : Run String Value :=
  let position := if position < 0 then position + vs.length else position
  if position < 0 then raise (.illTyped "get")
  else getOrRaise (.illTyped "get") vs[position.toNat]?

/-- The value under a key of a dictionary, or at a position of another collection. -/
def get : Value → Value → Run String Value
  | dict entries, key => getOrRaise (.illTyped "get") (valueAt? entries key)
  | v, key =>
    match v.elements?, key.number? with
    | some vs, some position => itemAt vs position
    | _, _ => raise (.illTyped "get")

end Value

namespace Action

open Run

variable (call : Value → List Value → Code String Value) (env : Env)

mutual

/-- The value of an action. Functions are applied by `call`. -/
def eval : Action → Code String Value
  | lit v => pure v
  | var x => Code.getOrRaise (.unknownName x) (env.lookup x)
  | list items => do return .list (← evalAll items)
  | tuple items => do return .tuple (← evalAll items)
  | add a b => do (← eval a).add (← eval b)
  | sub a b => do Value.arithmetic "sub" (fun m n => pure (.int (m - n))) (← eval a) (← eval b)
  | mul a b => do Value.arithmetic "mul" (fun m n => pure (.int (m * n))) (← eval a) (← eval b)
  | mod a b => do
    Value.arithmetic "mod"
      (fun m n => if n = 0 then Run.raise (.illTyped "mod") else pure (.int (m.fmod n)))
      (← eval a) (← eval b)
  | eq a b => do return .bool ((← eval a) == (← eval b))
  | lt a b => do Value.arithmetic "lt" (fun m n => pure (.bool (m < n))) (← eval a) (← eval b)
  | not a => do return .bool (!(← eval a).isTruthy)
  | ite test yes no => do if (← eval test).isTruthy then eval yes else eval no
  | length a => do (← eval a).length
  | display a => do return .str (← eval a).display
  | written a => do return .str (← eval a).written
  | int a => do (← eval a).toInt
  | join separator items => do (← eval separator).join (← eval items)
  | occurs needle text => do (← eval needle).occurs (← eval text)
  | get a key => do (← eval a).get (← eval key)
  | lambda params body => do return .fn (← Code.fresh) params body env
  | apply f args => do
    let v ← eval f
    call v (← evalAll args)
  | log note next => do
    emit (← eval note).display
    eval next
  | raise message => Code.raise (.raised message)
termination_by structural a => a

/-- The values of actions, evaluated in turn. -/
def evalAll : List Action → Code String (List Value)
  | [] => pure []
  | a :: as => do return (← eval a) :: (← evalAll as)
termination_by structural as => as

end

end Action

/-- Applies a function value to arguments, with at most `depth` applications within one another. -/
def Value.call : Nat → Value → List Value → Code String Value
  | 0, _, _ => Code.raise .tooDeep
  | depth + 1, .fn _ params body env, args =>
    if params.length = args.length then body.eval (Value.call depth) (params.zip args ++ env)
    else Code.raise (.illTyped "call")
  | _ + 1, v, _ => Code.raise (.notCallable v.kind)

end AllParses
