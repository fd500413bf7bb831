import AllParses.Parser.Choice

/-!
# Fixed repetition

`count n p` extends all partial results by one more `p`, `n` times over. Keeping the order of the
partial results keeps the order in which a nested sequence of `n` parsers would answer.
-/

namespace AllParses.Parser

variable {α : Type}

/-- Every partial result, continued in each way in which `p` succeeds on what it left. -/
def extend (p : Parser α) (partials : List (Success (List α))) :
    Run Entry (List (Success (List α))) :=
  Run.flatMap
    (fun s => List.map (fun t => ⟨s.value ++ [t.value], t.rest⟩) <$> p.run s.rest) partials

/-- Extends the partial results `n` times, or until none is left. -/
def extendTimes (p : Parser α) : Nat → List (Success (List α)) →
    Run Entry (List (Success (List α)))
  | 0, partials => pure partials
  | n + 1, partials => do
    match ← extend p partials with
    | [] => pure []
    | longer => extendTimes p n longer

/-- Exactly `n` repetitions of `p`, in every way `p` allows. -/
def count (n : Nat) (p : Parser α) : Parser (List α) :=
  ⟨none, fun inp => extendTimes p n [⟨[], inp⟩]⟩

/-- `count` for a number that may turn out to be negative, which is an error. -/
def countOf (n : Int) (p : Parser α) : Run Entry (Parser (List α)) :=
  if n < 0 then Run.raise (.negativeCount n) else pure (count n.toNat p)

end AllParses.Parser
