import AllParses.Parser.Basic

/-!
# Looking without consuming

Parsers that look at the input and leave all of it, and `trace`, which looks at a parser.
-/

namespace AllParses.Parser

variable {α : Type}

/-- Succeeds only if no token is left. -/
def eof : Parser Unit :=
  ⟨some "eof", fun inp => pure (if inp.isEmpty then [⟨(), inp⟩] else [])⟩

/-- The values of `p`, without consuming input. The functions made on the way stay counted. -/
def lookAhead (p : Parser α) : Parser α :=
  ⟨none, fun inp => List.map (fun s => ⟨s.value, inp.withMade s.rest.made⟩) <$> p.run inp⟩

/-- Succeeds, consuming nothing, exactly when `p` fails. -/
def notFollowedBy (p : Parser α) : Parser Unit :=
  ⟨none, fun inp => (fun successes => if successes.isEmpty then [⟨(), inp⟩] else []) <$> p.run inp⟩

/-- `p`, logging how the input begins that it gets, and how many results it gives. -/
def trace (label : String) (p : Parser α) : Parser α where
  name := some label
  run inp := do
    Run.emit (.trying label (inp.sequence.take 30))
    let successes ← p.run inp
    Run.emit (.found label successes.length)
    pure successes

theorem run_notFollowedBy (p : Parser α) (inp : Input) :
    p.notFollowedBy.run inp =
      (fun successes => if successes.isEmpty then [⟨(), inp⟩] else []) <$> p.run inp := rfl

end AllParses.Parser
