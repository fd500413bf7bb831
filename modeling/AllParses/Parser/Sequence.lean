import AllParses.Parser.Basic

/-!
# Sequences

Parsers run one after the other. All of them are made with `bind`, so their results come in the
order of the first parser's successes; none of them has a name.
-/

namespace AllParses.Parser

variable {α β γ : Type}

/-- Applies `f` to the value of every success. -/
def map (f : α → Code Entry β) (p : Parser α) : Parser β :=
  p.bind fun a => result <$> f a

/-- `p`, then `q`, with both values. -/
def pair (p : Parser α) (q : Parser β) : Parser (α × β) :=
  p.bind fun a => pure (q.bind fun b => pure (result (a, b)))

/-- `p`, then `q`, with the value of `q`. -/
def keepRight (p : Parser α) (q : Parser β) : Parser β :=
  p.bind fun _ => pure q

/-- `p`, then `q`, with the value of `p`. -/
def keepLeft (p : Parser α) (q : Parser β) : Parser α :=
  p.bind fun a => pure (q.bind fun _ => pure (result a))

/-- `opening`, then `p`, then `closing`, with the value of `p`. -/
def between (opening : Parser β) (closing : Parser γ) (p : Parser α) : Parser α :=
  opening.keepRight (p.keepLeft closing)

theorem run_map (f : α → Code Entry β) (p : Parser α) (inp : Input) :
    (p.map f).run inp =
      p.run inp >>= Run.flatMap fun s =>
        (f s.value).run s.rest.made >>= fun b => pure [⟨b.1, s.rest.withMade b.2⟩] := by
  simp only [Parser.map, run_bind, run_ofCode, map_eq_pure_bind, StateT.run_bind,
    StateT.run_pure, bind_assoc, pure_bind, run_result]

theorem run_keepRight (p : Parser α) (q : Parser β) (inp : Input) :
    (p.keepRight q).run inp = p.run inp >>= Run.flatMap fun s => q.run s.rest := by
  simp [keepRight, run_bind]

theorem run_keepLeft (p : Parser α) (q : Parser β) (inp : Input) :
    (p.keepLeft q).run inp =
      p.run inp >>= Run.flatMap fun s =>
        q.run s.rest >>= Run.flatMap fun t => pure [⟨s.value, t.rest⟩] := by
  simp [keepLeft, run_bind]

theorem run_pair (p : Parser α) (q : Parser β) (inp : Input) :
    (p.pair q).run inp =
      p.run inp >>= Run.flatMap fun s =>
        q.run s.rest >>= Run.flatMap fun t => pure [⟨(s.value, t.value), t.rest⟩] := by
  simp [pair, run_bind]

end AllParses.Parser
