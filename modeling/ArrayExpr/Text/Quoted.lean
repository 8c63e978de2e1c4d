import ArrayExpr.Text.Printable

/-!
# Quoted texts

`quoted` writes a text on one line between two marks, so that it can be told from what stands around it. The mark is
the apostrophe, or the double quote if the text holds an apostrophe and no double quote. A backslash goes before the
mark and before itself; line feed, carriage return and tabulation have letters of their own; every other character
that cannot be shown is written by its code point, in the shortest of three widths.
-/

namespace ArrayExpr.Text

/-- The lowest `width` hexadecimal digits of a number, in lower case. -/
def hexDigits : Nat → Nat → List Char
  | 0, _ => []
  | width + 1, n => hexDigits width (n / 16) ++ [Nat.digitChar (n % 16)]

/-- The mark that goes around a text. -/
def quoteMark (text : List Char) : Char :=
  if text.contains '\'' && !text.contains '"' then '"' else '\''

/-- A character as it is written between two marks. -/
def escaped (mark c : Char) : List Char :=
  if c == mark || c == '\\' then ['\\', c]
  else if c == '\n' then ['\\', 'n']
  else if c == '\r' then ['\\', 'r']
  else if c == '\t' then ['\\', 't']
  else if isPrintable c then [c]
  else if c.toNat < 0x100 then '\\' :: 'x' :: hexDigits 2 c.toNat
  else if c.toNat < 0x10000 then '\\' :: 'u' :: hexDigits 4 c.toNat
  else '\\' :: 'U' :: hexDigits 8 c.toNat

/-- The characters of a quoted text, marks included. -/
def quotedChars (text : List Char) : List Char :=
  let mark := quoteMark text
  mark :: (text.flatMap (escaped mark) ++ [mark])

/-- A text between quotation marks, on one line. -/
def quoted (text : String) : String := String.ofList (quotedChars text.toList)

example : quotedChars ['a', '\'', '\n'] = ['"', 'a', '\'', '\\', 'n', '"'] := by decide

example : quotedChars ['\u0085', '\''] = ['"', '\\', 'x', '8', '5', '\'', '"'] := by decide +kernel

end ArrayExpr.Text
