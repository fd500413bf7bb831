import AllParses.Parser.Sequence

/-!
# Choices

`choice` explores every alternative, also after one has succeeded, so an ambiguous grammar yields
all its parses. `orElse` and `first` commit.
-/

namespace AllParses.Parser

variable {α β : Type}

/-- The successes of all the parsers on the same input, in their order. -/
def choice : List (Parser α) → Parser α
  | [] => zero
  | ps => ⟨none, fun inp => Run.flatMap (fun p => p.run inp) ps⟩

/-- The successes of `p` if there are any, else those of `q`, which is not run before. -/
def orElse (p q : Parser α) : Parser α where
  name := none
  run inp := do
    match ← p.run inp with
    | [] => q.run inp
    | successes => pure successes

/-- At most the first success of `p`. -/
def first (p : Parser α) : Parser α := ⟨none, fun inp => List.take 1 <$> p.run inp⟩

/-- The successes of `p`, and after them `a` without consuming input. -/
def option (a : α) (p : Parser α) : Parser α := choice [p, result a]

/-- Like `option`, without a value. -/
def optional (p : Parser α) : Parser Unit := choice [p.keepRight (result ()), result ()]

theorem run_choice (ps : List (Parser α)) (inp : Input) :
    (choice ps).run inp = Run.flatMap (fun p => p.run inp) ps := by
  cases ps <;> rfl

theorem run_orElse (p q : Parser α) (inp : Input) :
    (p.orElse q).run inp = p.run inp >>= fun
      | [] => q.run inp
      | successes => pure successes := rfl

theorem run_first (p : Parser α) (inp : Input) : p.first.run inp = List.take 1 <$> p.run inp := rfl

end AllParses.Parser
