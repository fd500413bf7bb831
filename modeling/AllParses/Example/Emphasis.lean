import AllParses.Parser.Character
import AllParses.Parser.Outcome

/-!
# Emphasis in marked-up text

Spans between two equal delimiters, such as `_is_` and `**markdown**`.
-/

namespace AllParses.Example.Emphasis

open AllParses.Parser

/-- An underscore and the letter or digit before which it opens italics. -/
def beginItalics : Parser (Value × String) := (char (.char '_')).pair alphaNum

/-- A letter or digit and the underscore that closes italics after it. -/
def endItalics : Parser (String × Value) := alphaNum.pair (char (.char '_'))

/-- The text between two delimiters; it holds no character of the delimiter. -/
def emphasis (delimiter : String) : Parser String :=
  let inner := (noneOf (delimiter.toList.map .char)).many1.map joinTexts
  (between (text delimiter) (text delimiter) inner).first

/-- A span in italics. -/
def italics : Parser String := emphasis "_"

/-- A span in bold. -/
def bold : Parser String := emphasis "**"

/-- `beginItalics` with tuples for values. -/
def beginItalicsValue : Parser Value := beginItalics.mapValue fun (v, s) => .tuple [v, .str s]

/-- `endItalics` with tuples for values. -/
def endItalicsValue : Parser Value := endItalics.mapValue fun (s, v) => .tuple [.str s, v]

/-- All results on a text, on a line. -/
def line (p : Parser Value) (s : String) : Run Entry String :=
  (Success.writtenAll · ++ "\n") <$> p.run (.start (.text s.toList))

/-- A demonstration of the delimiters and the spans. -/
def report : Run Entry String := do
  let markedUp := "_is_ a test of **markdown** parsing."
  let opening ← line beginItalicsValue markedUp
  let closing ← line endItalicsValue "s_ a test"
  let inItalics ← line (italics.mapValue .str) markedUp
  let inBold ← line (bold.mapValue .str) "**markdown** parsing."
  return opening ++ closing ++ inItalics ++ inBold

end AllParses.Example.Emphasis
