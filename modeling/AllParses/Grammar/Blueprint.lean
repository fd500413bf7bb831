import AllParses.Action
import AllParses.Grammar.Basic

/-!
# Blueprints

A blueprint describes a grammar as data: its callbacks are actions, and a name stands for the value
that a success hands on. In an environment a blueprint becomes a grammar.
-/

namespace AllParses

/-- A description of a grammar. -/
inductive Blueprint where
  | result (a : Action)
  | zero
  | item
  | eof
  | anyChar
  | ofClass (cls : TextClass)
  | digit
  | hexDigit
  | spaces
  | word
  | char (wanted : Action)
  | string (whole : Action)
  | oneOf (members : Action)
  | noneOf (members : Action)
  | satisfy (token : String) (test : Action)
  | constant (name : Option String) (successes : List (Value × Sequence))
  | ref (name : String)
  /-- Deferred under a name; each time it is made, a note says so. -/
  | deferred (name : Option String) (body : Blueprint)
  /-- Continued by the second, in which `value` names the value of the first. -/
  | bind (p : Blueprint) (value : String) (q : Blueprint)
  | map (p : Blueprint) (value : String) (f : Action)
  | pair (p q : Blueprint)
  | keepRight (p q : Blueprint)
  | keepLeft (p q : Blueprint)
  | between (opening closing p : Blueprint)
  /-- Followed by a value that is no parser, which cannot be. -/
  | followedBy (p : Blueprint) (v : Action)
  | either (p q : Blueprint)
  | orElse (p q : Blueprint)
  | first (p : Blueprint)
  | option (a : Action) (p : Blueprint)
  | optional (p : Blueprint)
  | many (p : Blueprint)
  | many1 (p : Blueprint)
  | count (n : Action) (p : Blueprint)
  | sepBy (p separator : Blueprint)
  | sepBy1 (p separator : Blueprint)
  | chainl1 (p op : Blueprint)
  | chainr1 (p op : Blueprint)
  | lookAhead (p : Blueprint)
  | notFollowedBy (p : Blueprint)
  | trace (label : String) (p : Blueprint)
  | label (name : String) (p : Blueprint)

namespace Blueprint

/-- The successes of all the blueprints, in order. -/
def choice (ps : List Blueprint) : Blueprint := ps.foldr either zero

/-- The note that a deferred part is being made. -/
def thunkNote (name : Option String) : Code String Value := do
  Run.emit ("thunk " ++ name.getD "None")
  return .none

/-- The grammar that a blueprint describes, its actions evaluated in the environment and with at
most `depth` nested applications of functions. -/
def grammar (depth : Nat) (env : Env) : Blueprint → Grammar
  | result a => .after (a.eval (Value.call depth) env) .result
  | zero => .zero
  | item => .item
  | eof => .eof
  | anyChar => .anyChar
  | ofClass cls => .ofClass cls
  | digit => .digit
  | hexDigit => .hexDigit
  | spaces => .spaces
  | word => .word
  | char wanted => .after (wanted.eval (Value.call depth) env) .char
  | string whole => .after (whole.eval (Value.call depth) env) .string
  | oneOf members => .after (members.eval (Value.call depth) env) .oneOf
  | noneOf members => .after (members.eval (Value.call depth) env) .noneOf
  | satisfy token test =>
    .satisfy fun v => Value.isTruthy <$> test.eval (Value.call depth) ((token, v) :: env)
  | constant name successes => .constant name successes
  | ref name => .ref name
  | deferred name body => .deferred name (.after (thunkNote name) fun _ => body.grammar depth env)
  | bind p value q => .bind (p.grammar depth env) fun v => q.grammar depth ((value, v) :: env)
  | map p value f =>
    .map (fun v => f.eval (Value.call depth) ((value, v) :: env)) (p.grammar depth env)
  | pair p q => .pair (p.grammar depth env) (q.grammar depth env)
  | keepRight p q => .keepRight (p.grammar depth env) (q.grammar depth env)
  | keepLeft p q => .keepLeft (p.grammar depth env) (q.grammar depth env)
  | between opening closing p =>
    .between (opening.grammar depth env) (closing.grammar depth env) (p.grammar depth env)
  | followedBy p a =>
    .keepRight (p.grammar depth env)
      (.after
        (do
          let v ← a.eval (Value.call depth) env
          Code.raise (.notSequenceable v.kind))
        .result)
  | either p q => .either (p.grammar depth env) (q.grammar depth env)
  | orElse p q => .orElse (p.grammar depth env) (q.grammar depth env)
  | first p => .first (p.grammar depth env)
  | option a p =>
    .after (a.eval (Value.call depth) env) fun v => .option v (p.grammar depth env)
  | optional p => .optional (p.grammar depth env)
  | many p => .many (p.grammar depth env)
  | many1 p => .many1 (p.grammar depth env)
  | count n p => .after (n.eval (Value.call depth) env) fun v => .count v (p.grammar depth env)
  | sepBy p separator => .sepBy (p.grammar depth env) (separator.grammar depth env)
  | sepBy1 p separator => .sepBy1 (p.grammar depth env) (separator.grammar depth env)
  | chainl1 p op =>
    .chainl1 (fun f a b => Value.call depth f [a, b]) (p.grammar depth env) (op.grammar depth env)
  | chainr1 p op =>
    .chainr1 (fun f a b => Value.call depth f [a, b]) (p.grammar depth env) (op.grammar depth env)
  | lookAhead p => .lookAhead (p.grammar depth env)
  | notFollowedBy p => .notFollowedBy (p.grammar depth env)
  | trace title p => .trace title (p.grammar depth env)
  | label name p => .label name (p.grammar depth env)

end Blueprint

end AllParses
