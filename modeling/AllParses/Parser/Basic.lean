import AllParses.Code
import AllParses.Input

/-!
# Parsers

A parser reads an input and answers every way in which it can succeed, in order: each success
pairs a value with what is left of the input. No success is no error. This file holds the
parsers that do not look beyond one token, and `bind`, on which all sequencing rests.

## What is left out

The limits of an interpreter are no part of a run. Recursion may go to any depth that a definition
does not bound itself, and lists and numbers may be of any size.

Some parsers show a value in their name: the grammar `result`, and `char` and `string`. The name is
made when the parser is made, which takes the written form of the value. This step is total here:
each `Value` has a written form, and no code of a client, whose own types of tokens might refuse
one, is run for it. What is not among the values is said where they are defined.
-/

namespace AllParses

/-- One way to succeed. -/
structure Success (α : Type) where
  value : α
  rest : Input

/-- A parser, under the name by which it is shown. -/
structure Parser (α : Type) where
  name : Option String
  run : Input → Run Entry (List (Success α))

variable {α β γ : Type}

/-- The same success with another value. -/
def Success.map (f : α → β) (s : Success α) : Success β := ⟨f s.value, s.rest⟩

@[simp] theorem Success.map_mk (f : α → β) (a : α) (rest : Input) :
    Success.map f ⟨a, rest⟩ = ⟨f a, rest⟩ := rfl

@[simp] theorem Success.map_id : Success.map (fun a : α => a) = id := rfl

@[simp] theorem Success.map_comp_map (g : β → γ) (f : α → β) :
    Success.map g ∘ Success.map f = Success.map fun a => g (f a) := rfl

namespace Parser

/-- How a parser is shown. The empty name is no name. -/
def describe (p : Parser α) : String :=
  match p.name with
  | none => "<Parser>"
  | some name => if name.isEmpty then "<Parser>" else "<Parser " ++ name ++ ">"

/-- The same parser under a new name. -/
def label (name : String) (p : Parser α) : Parser α := ⟨some name, p.run⟩

/-- The same parser, its values seen through `f`. -/
def mapValue (f : α → β) (p : Parser α) : Parser β :=
  ⟨p.name, fun inp => List.map (Success.map f) <$> p.run inp⟩

/-- Succeeds with the value and consumes nothing. The name that shows the value is given by
`Grammar.make`, for values that have a written form. -/
def result (a : α) : Parser α := ⟨none, fun inp => pure [⟨a, inp⟩]⟩

/-- Always fails. -/
def zero : Parser α := ⟨some "zero", fun _ => pure []⟩

/-- Consumes exactly one token. -/
def item : Parser Value where
  name := some "item"
  run inp :=
    match inp.next? with
    | none => pure []
    | some (token, rest) => pure [⟨token, rest⟩]

/-- The parser that code makes, at the place where it is used. -/
def ofCode (code : Code Entry (Parser α)) : Parser α where
  name := none
  run inp := do
    let (p, made) ← code.run inp.made
    p.run (inp.withMade made)

/-- Runs `p`, then for each of its successes the parser that `next` makes of the value, on what
that success left. The results are grouped by the successes of `p`. -/
def bind (p : Parser α) (next : α → Code Entry (Parser β)) : Parser β where
  name := none
  run inp := do
    Run.flatMap (fun s => (ofCode (next s.value)).run s.rest) (← p.run inp)

/-- Consumes one token if the reading of it gives a value. -/
def accept (read : Value → Code Entry (Option α)) : Parser α :=
  (item.bind fun token => do
    match ← read token with
    | some a => return result a
    | none => return zero).label "satisfy"

/-- Consumes one token if it passes the test. -/
def satisfy (test : Value → Code Entry Bool) : Parser Value :=
  accept fun token => do
    if ← test token then return some token else return none

@[simp] theorem run_label (name : String) (p : Parser α) (inp : Input) :
    (p.label name).run inp = p.run inp := rfl

@[simp] theorem run_mapValue (f : α → β) (p : Parser α) (inp : Input) :
    (p.mapValue f).run inp = List.map (Success.map f) <$> p.run inp := rfl

@[simp] theorem run_result (a : α) (inp : Input) : (result a).run inp = pure [⟨a, inp⟩] := rfl

@[simp] theorem run_zero (inp : Input) : (zero : Parser α).run inp = pure [] := rfl

theorem run_ofCode (code : Code Entry (Parser α)) (inp : Input) :
    (ofCode code).run inp = code.run inp.made >>= fun q => q.1.run (inp.withMade q.2) := rfl

/-- Code that only answers a parser adds nothing to it. -/
@[simp] theorem run_ofCode_pure (p : Parser α) (inp : Input) :
    (ofCode (pure p)).run inp = p.run inp := rfl

theorem run_bind (p : Parser α) (next : α → Code Entry (Parser β)) (inp : Input) :
    (p.bind next).run inp =
      p.run inp >>= Run.flatMap fun s => (ofCode (next s.value)).run s.rest := rfl

end Parser

end AllParses
