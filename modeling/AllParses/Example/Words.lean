import AllParses.Parser.Character
import AllParses.Parser.Outcome

/-!
# Words

A demonstration of words, of which every prefix is a result, and of letters in sequence.
-/

namespace AllParses.Example.Words

open AllParses.Parser

/-- Two lower-case letters in a row, joined. -/
def doubleLower : Parser String :=
  lower.bind fun a => pure (lower.bind fun b => pure (result (a ++ b)))

/-- Two letters in a row. -/
def twoLetters : Parser Value :=
  (letter.pair letter).mapValue fun (a, b) => .tuple [.str a, .str b]

/-- A demonstration: the prefixes of a word, two pairs of letters, and the only complete word. -/
def report : Run Entry String := do
  let prefixes ← word.run (.start (.text "hello world".toList))
  let joined ← (doubleLower.mapValue Value.str).run (.start (.text "abcd".toList))
  let paired ← twoLetters.run (.start (.text "xy".toList))
  let whole ← word.parseAll (.start (.text "hello".toList))
  return String.join (prefixes.map fun s => (s.map Value.str).row 10 ++ "\n")
    ++ Success.writtenAll joined ++ "\n"
    ++ Success.writtenAll paired ++ "\n"
    ++ (Value.list (whole.map .str)).written ++ "\n"

end AllParses.Example.Words
