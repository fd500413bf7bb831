import AllParses.Text.Printable

/-!
# Written forms of texts and numbers

A text or bytes are written between quotes, with what cannot be shown replaced by escapes. The
apostrophe is the quote unless the text holds an apostrophe and no double quote. In a table, written
forms are put into columns. Decimal digits are the written form of a number, and are read back here.
-/

namespace AllParses.Text

/-! ## Quotes -/

/-- The last `width` hexadecimal digits of a number, in lower case. -/
def hex : Nat → Nat → List Char
  | 0, _ => []
  | width + 1, n => hex width (n / 16) ++ [Nat.digitChar (n % 16)]

/-- The quote in which characters are written. -/
def quoteFor (cs : List Char) : Char :=
  if cs.contains '\'' && !cs.contains '"' then '"' else '\''

/-- The escapes that texts and bytes have in common: the quote in use, the backslash, and the
three control characters with a letter of their own. -/
def shortEscape? (quote c : Char) : Option (List Char) :=
  if c == quote || c == '\\' then some ['\\', c]
  else if c == '\n' then some ['\\', 'n']
  else if c == '\r' then some ['\\', 'r']
  else if c == '\t' then some ['\\', 't']
  else none

/-- The shortest numeric escape that fits. -/
def numericEscape (c : Char) : List Char :=
  if c.toNat ≤ 0xff then '\\' :: 'x' :: hex 2 c.toNat
  else if c.toNat ≤ 0xffff then '\\' :: 'u' :: hex 4 c.toNat
  else '\\' :: 'U' :: hex 8 c.toNat

/-- One character inside quotes. -/
def escape (quote c : Char) : List Char :=
  (shortEscape? quote c).getD (if printables.contains c then [c] else numericEscape c)

/-- A text between quotes. -/
def quoted (cs : List Char) : String :=
  let quote := quoteFor cs
  String.ofList (quote :: cs.flatMap (escape quote) ++ [quote])

/-- One byte inside quotes: bytes outside the visible ASCII range are written in hexadecimal. -/
def escapeByte (quote : Char) (b : UInt8) : List Char :=
  let c := Char.ofNat b.toNat
  (shortEscape? quote c).getD
    (if 0x20 ≤ b.toNat && b.toNat ≤ 0x7e then [c] else '\\' :: 'x' :: hex 2 b.toNat)

/-- Bytes between quotes, after the letter `b`. -/
def quotedBytes (bs : List UInt8) : String :=
  let quote := quoteFor (bs.map fun b => Char.ofNat b.toNat)
  String.ofList ('b' :: quote :: bs.flatMap (escapeByte quote) ++ [quote])

/-! ## Columns -/

/-- A text at the left of a column of the given width. -/
def padRight (width : Nat) (s : String) : String :=
  s ++ String.ofList (List.replicate (width - s.length) ' ')

/-! ## Decimal digits -/

/-- The number that a text of decimal digits denotes, beginning with the highest digit. -/
def ofDigits (cs : List Char) : Nat :=
  cs.foldl (fun n c => n * 10 + (c.toNat - '0'.toNat)) 0

end AllParses.Text
