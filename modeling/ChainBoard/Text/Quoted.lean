import ChainBoard.Text.Unshown

/-!
# Texts in quotes

A text that is part of a message stands in double quotes, so that its end is seen. Inside, the quote
and the backslash take a backslash in front; tab, line feed, carriage return and the null character
are written by a letter or digit; and every other character that is not shown is written by its
number in braces.

## Main definitions

* `quoteChar`: a character inside quotes
* `quoted`: a text in quotes
-/

namespace ChainBoard.Text

/-- A character by its number: base 16, small letters, as few digits as needed. -/
def byNumber (c : Char) : List Char :=
  ['\\', 'u', '\x7b'] ++ Nat.toDigits 16 c.toNat ++ ['\x7d']

/-- A character inside quotes. -/
def quoteChar (c : Char) : List Char :=
  match c with
  | '\x00' => ['\\', '0']
  | '\t' => ['\\', 't']
  | '\r' => ['\\', 'r']
  | '\n' => ['\\', 'n']
  | '\\' => ['\\', '\\']
  | '"' => ['\\', '"']
  | c => if isUnshown c then byNumber c else [c]

/-- A text in double quotes. -/
def quoted (s : List Char) : List Char :=
  '"' :: s.flatMap quoteChar ++ ['"']

end ChainBoard.Text
