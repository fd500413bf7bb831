import AllParses.Parser.Lookahead
import AllParses.Parser.Repetition
import AllParses.Value.Equality
import AllParses.Value.Written

/-!
# Tokens and characters

Parsers that test one token, and those that read texts from them. Tests for a class of text
insist on text; tests for membership insist on a token that can be looked up in a set.
-/

namespace AllParses.Parser

/-- A token that equals the wanted one, which is shown in the name. -/
def char (wanted : Value) : Parser Value :=
  (satisfy fun token => pure (token == wanted)).label ("'" ++ wanted.display ++ "'")

def anyChar : Parser Value :=
  (satisfy fun _ => pure true).label "any_char"

/-! ## Sets -/

/-- Ends with an error if the token cannot be looked up in a set. -/
def requireHashable (token : Value) : Run Entry Unit :=
  match token.unhashable? with
  | some kind => Run.raise (.unhashable kind)
  | none => pure ()

/-- The elements that a set made from the value has. -/
def setOf (v : Value) : Run Entry (List Value) := do
  let members ← Run.getOrRaise (.notIterable v.kind) v.elements?
  match Value.firstUnhashable? members with
  | some kind => Run.raise (.unhashable kind)
  | none => pure members

def oneOf (set : List Value) : Parser Value :=
  (satisfy fun token => do
    requireHashable token
    pure (set.contains token)).label "one_of"

def noneOf (set : List Value) : Parser Value :=
  (satisfy fun token => do
    requireHashable token
    pure (!set.contains token)).label "none_of"

/-- A token that is one of the characters. -/
def charIn (cs : List Char) : Parser Char :=
  accept fun token => do
    requireHashable token
    pure (cs.find? fun c => token == Value.char c)

def digit : Parser Char :=
  (charIn "0123456789".toList).label "digit"

def hexDigit : Parser Char :=
  (charIn "0123456789abcdefABCDEF".toList).label "hexadecimal digit"

/-! ## Classes -/

/-- A token of text that belongs to the class. -/
def ofClass (cls : TextClass) : Parser String :=
  (accept fun
    | .str s => pure (if cls.holds s then some s else none)
    | token => Code.raise (.notText cls token.kind)).label cls.title

def space : Parser String := ofClass .blank

def upper : Parser String := ofClass .uppercase

def lower : Parser String := ofClass .lowercase

def letter : Parser String := ofClass .letter

def alphaNum : Parser String := ofClass .letterOrNumeral

/-- Skips blanks. Every shorter run of blanks is a result as well. -/
def spaces : Parser Unit := (space.many.keepRight (result ())).label "spaces"

/-! ## Texts -/

/-- The tokens one after the other; the value is given beforehand. -/
def spell {α : Type} (value : α) : List Value → Input → Run Entry (List (Success α))
  | [], inp => pure [⟨value, inp⟩]
  | wanted :: more, inp => do
    match ← (char wanted).run inp with
    | [] => pure []
    | s :: _ => spell value more s.rest

/-- The characters of a text as successive tokens. -/
def text (s : String) : Parser String :=
  ⟨some ("'" ++ s ++ "'"), spell s (s.toList.map Value.char)⟩

/-- The elements of a value as successive tokens. The value itself is the result. -/
def string (whole : Value) : Run Entry (Parser Value) := do
  let tokens ← Run.getOrRaise (.notIterable whole.kind) whole.elements?
  pure ⟨some ("'" ++ whole.display ++ "'"), spell whole tokens⟩

/-- Values that are texts, put together. -/
def joinTexts (vs : List Value) : Code Entry String := StateT.lift (Value.joinTexts "" vs)

/-- Words that are read with at most `depth` uses of the rule within one another. -/
def wordWithin : Nat → Parser String
  | 0 => ⟨some "word", fun _ => Run.raise .tooDeep⟩
  | depth + 1 =>
    (choice
      [letter.bind fun c => pure ((wordWithin depth).map fun more => pure (c ++ more)),
        result ""]).label "word"

/-- A word is a letter followed by a word, or empty. Every prefix of the letters is a result.
Each letter shortens the input, so the length of the input bounds the depth. An interpreter may
allow less depth than a long word needs, and then ends with an error; such a limit is not
modelled. -/
def word : Parser String :=
  ⟨some "word", fun inp => (wordWithin (inp.length + 1)).run inp⟩

end AllParses.Parser
