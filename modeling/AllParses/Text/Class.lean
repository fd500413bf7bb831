import AllParses.Text.Cased
import AllParses.Text.CodePoints

/-!
# Classes of text

The classes a token of text may be tested for. A class is asked of a whole string: most
classes want a non-empty string of members, the two cases want a cased character and none of
another case.
-/

namespace AllParses

/-- A property of strings. -/
inductive TextClass where
  | blank
  | uppercase
  | lowercase
  | letter
  | letterOrNumeral
  deriving DecidableEq, Repr

namespace TextClass

open Text

/-- The word by which error messages call the class. -/
def predicate : TextClass → String
  | blank => "isspace"
  | uppercase => "isupper"
  | lowercase => "islower"
  | letter => "isalpha"
  | letterOrNumeral => "isalnum"

/-- The name of a parser for one token of the class. -/
def title : TextClass → String
  | blank => "space"
  | uppercase => "uppercase letter"
  | lowercase => "lowercase letter"
  | letter => "letter"
  | letterOrNumeral => "letter or digit"

/-- A non-empty text all of whose characters are in the set. -/
def everywhere (isMember : Char → Bool) (cs : List Char) : Bool :=
  !cs.isEmpty && cs.all isMember

/-- A text with a character of the case asked for and none of the other cases. -/
def oneCase (isWanted isOther : Char → Bool) (cs : List Char) : Bool :=
  cs.any isWanted && cs.all (!isOther ·)

/-- Whether a text belongs to the class. -/
def holds (cls : TextClass) (s : String) : Bool :=
  match cls with
  | blank => everywhere blanks.contains s.toList
  | uppercase =>
    oneCase uppercaseChars.contains
      (fun c => lowercaseChars.contains c || titlecaseChars.contains c) s.toList
  | lowercase =>
    oneCase lowercaseChars.contains
      (fun c => uppercaseChars.contains c || titlecaseChars.contains c) s.toList
  | letter => everywhere letters.contains s.toList
  | letterOrNumeral => everywhere (fun c => letters.contains c || numerals.contains c) s.toList

end TextClass

end AllParses
