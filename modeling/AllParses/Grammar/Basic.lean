import AllParses.Parser.Chain
import AllParses.Parser.Character
import AllParses.Parser.Count

/-!
# Grammars

A grammar is a parser before it is made: an expression over the parsers and combinators of this
library, whose callbacks are functions on values. Making it may call client code, and so may fail;
continuations and deferred parts are made anew each time they are reached, which is how a grammar
can mention itself. Named rules are given apart, as a list; how many uses of them may be nested
is bounded by a depth.
-/

namespace AllParses

/-- An expression that stands for a parser. -/
inductive Grammar where
  /-- Succeeds with the value and consumes nothing. -/
  | result (v : Value)
  | zero
  | item
  | eof
  /-- Any token, under the name of a character. -/
  | anyChar
  | ofClass (cls : TextClass)
  | digit
  | hexDigit
  /-- Any number of blanks. -/
  | spaces
  /-- Any number of letters. -/
  | word
  | char (wanted : Value)
  /-- The elements of the value as successive tokens. -/
  | string (whole : Value)
  /-- A token among the elements of the value. -/
  | oneOf (members : Value)
  /-- A token not among the elements of the value. -/
  | noneOf (members : Value)
  /-- A token that passes a test of the client. -/
  | satisfy (test : Value → Code String Bool)
  /-- A parser made by hand, which gives the same values and rests on every input. -/
  | constant (name : Option String) (successes : List (Value × Sequence))
  /-- A use of a named rule. -/
  | ref (name : String)
  /-- Runs client code first, when the parser is made. -/
  | after (code : Code String Value) (next : Value → Grammar)
  /-- Made anew at each parse. -/
  | deferred (name : Option String) (body : Grammar)
  /-- Continued by the grammar that the client makes of each value. -/
  | bind (p : Grammar) (next : Value → Grammar)
  /-- Each value replaced by what the client makes of it. -/
  | map (f : Value → Code String Value) (p : Grammar)
  | pair (p q : Grammar)
  /-- The value of the second. -/
  | keepRight (p q : Grammar)
  /-- The value of the first. -/
  | keepLeft (p q : Grammar)
  /-- The value of the part between an opening and a closing one. -/
  | between (opening closing p : Grammar)
  /-- The successes of both. -/
  | either (p q : Grammar)
  /-- The successes of the second only if the first has none. -/
  | orElse (p q : Grammar)
  /-- At most one success. -/
  | first (p : Grammar)
  /-- Or the value, without consuming input. -/
  | option (v : Value) (p : Grammar)
  /-- Or nothing, without a value. -/
  | optional (p : Grammar)
  | many (p : Grammar)
  | many1 (p : Grammar)
  | count (n : Value) (p : Grammar)
  | sepBy (p separator : Grammar)
  | sepBy1 (p separator : Grammar)
  /-- A chain folded from the left; `apply` says how a value acts as an operator. -/
  | chainl1 (apply : Value → Value → Value → Code String Value) (p op : Grammar)
  /-- A chain folded from the right. -/
  | chainr1 (apply : Value → Value → Value → Code String Value) (p op : Grammar)
  /-- The values, without consuming input. -/
  | lookAhead (p : Grammar)
  /-- Succeeds where the grammar fails. -/
  | notFollowedBy (p : Grammar)
  /-- Logs the beginning and the end of each use. -/
  | trace (label : String) (p : Grammar)
  /-- Under another name. -/
  | label (name : String) (p : Grammar)

namespace Grammar

/-- The successes of all the grammars, in order. -/
def choice (ps : List Grammar) : Grammar := ps.foldr either zero

/-- The parser that a value of the grammar is an operator for. -/
def operators (apply : Value → Value → Value → Code String Value) (op : Parser Value) :
    Parser (Operator Value) :=
  op.mapValue fun f a b => (apply f a b).noted

/-- What the uses of named rules do. -/
abbrev Calls := String → Input → Run Entry (List (Success Value))

/-- Makes the parser for which a grammar stands: its parts first, from left to right. -/
def make (calls : Calls) : Grammar → Code Entry (Parser Value)
  | result v => pure ((Parser.result v).label ("result(" ++ v.written ++ ")"))
  | zero => pure Parser.zero
  | item => pure Parser.item
  | eof => pure (Parser.eof.mapValue fun _ => .none)
  | anyChar => pure Parser.anyChar
  | ofClass cls => pure ((Parser.ofClass cls).mapValue .str)
  | digit => pure (Parser.digit.mapValue .char)
  | hexDigit => pure (Parser.hexDigit.mapValue .char)
  | spaces => pure (Parser.spaces.mapValue fun _ => .none)
  | word => pure (Parser.word.mapValue .str)
  | char wanted => pure (Parser.char wanted)
  | string whole => do return (← Parser.string whole)
  | oneOf members => do return Parser.oneOf (← Parser.setOf members)
  | noneOf members => do return Parser.noneOf (← Parser.setOf members)
  | satisfy test => pure (Parser.satisfy fun token => (test token).noted)
  | constant name successes =>
    pure ⟨name, fun inp => pure (successes.map fun (v, rest) => ⟨v, ⟨rest, inp.made⟩⟩)⟩
  | ref name => pure ⟨some name, calls name⟩
  | after code next => do make calls (next (← code.noted))
  | deferred name body => pure ⟨name, (Parser.ofCode (make calls body)).run⟩
  | bind p next => do return (← make calls p).bind fun v => make calls (next v)
  | map f p => do return (← make calls p).map fun v => (f v).noted
  | pair p q => do
    let p ← make calls p
    let q ← make calls q
    return (p.pair q).mapValue fun (v, w) => .tuple [v, w]
  | keepRight p q => do return (← make calls p).keepRight (← make calls q)
  | keepLeft p q => do return (← make calls p).keepLeft (← make calls q)
  | between opening closing p => do
    let opening ← make calls opening
    let closing ← make calls closing
    let p ← make calls p
    return Parser.between opening closing p
  | either p q => do
    let p ← make calls p
    let q ← make calls q
    return Parser.choice [p, q]
  | orElse p q => do return (← make calls p).orElse (← make calls q)
  | first p => do return (← make calls p).first
  | option v p => do return Parser.option v (← make calls p)
  | optional p => do return (← make calls p).optional.mapValue fun _ => .none
  | many p => do return (← make calls p).many.mapValue .list
  | many1 p => do return (← make calls p).many1.mapValue .list
  | count n p => do
    let p ← make calls p
    let n ← Code.getOrRaise (.illTyped "count") n.number?
    return (← Parser.countOf n p).mapValue .list
  | sepBy p separator => do
    let p ← make calls p
    return (p.sepBy (← make calls separator)).mapValue .list
  | sepBy1 p separator => do
    let p ← make calls p
    return (p.sepBy1 (← make calls separator)).mapValue .list
  | chainl1 apply p op => do
    let p ← make calls p
    return p.chainl1 (operators apply (← make calls op))
  | chainr1 apply p op => do
    let p ← make calls p
    return p.chainr1 (operators apply (← make calls op))
  | lookAhead p => do return (← make calls p).lookAhead
  | notFollowedBy p => do return (← make calls p).notFollowedBy.mapValue fun _ => .none
  | trace title p => do return (← make calls p).trace title
  | label name p => do return (← make calls p).label name
termination_by structural g => g

end Grammar

/-- Named rules. -/
abbrev Rules := List (String × Grammar)

namespace Rules

/-- Uses a named rule: its grammar is made anew. At most `depth` uses may be nested. -/
def call (rules : Rules) : Nat → Grammar.Calls
  | 0, _, _ => Run.raise .tooDeep
  | depth + 1, name, inp => do
    let body ← Run.getOrRaise (.unknownName name) (rules.lookup name)
    (Parser.ofCode (body.make (rules.call depth))).run inp

/-- Makes the parser for a grammar over the rules. The functions made together with it are counted
before those of each parse. -/
def make (rules : Rules) (depth : Nat) (g : Grammar) : Run Entry (Parser Value) := do
  let (p, made) ← (g.make (rules.call depth)).run 0
  return ⟨p.name, fun inp => p.run (inp.withMade (made + inp.made))⟩

end Rules

end AllParses
