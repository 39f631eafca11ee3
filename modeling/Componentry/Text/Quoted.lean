import Componentry.Text.Hidden

/-!
# Quoted text

Characters and texts as they appear in messages and listings: between quotation marks, on one line,
with every hidden character spelled by its code point.

## Main definitions

* `Text.escape` writes one character inside a given pair of quotation marks
* `Text.quote` and `Text.quoteChar` write a whole text and a single character
-/

namespace Componentry.Text

/-- The spelling of a character by its code point, in lower-case hexadecimal without padding. -/
def codePointEscape (c : Char) : List Char :=
  ['\\', 'u', '\x7b'] ++ Nat.toDigits 16 c.toNat ++ ['\x7d']

/-- One character between quotation marks `mark`: the mark and the backslash are preceded by a
backslash, the null character and the three common controls have names, and other hidden characters
are spelled by code point. -/
def escape (mark c : Char) : List Char :=
  if c = Char.ofNat 0 then ['\\', '0']
  else if c = '\t' then ['\\', 't']
  else if c = '\r' then ['\\', 'r']
  else if c = '\n' then ['\\', 'n']
  else if c = '\\' then ['\\', '\\']
  else if c = mark then ['\\', mark]
  else if isHidden c then codePointEscape c
  else [c]

/-- The characters between two quotation marks. -/
def quoteWith (mark : Char) (text : List Char) : String :=
  String.ofList (mark :: text.flatMap (escape mark) ++ [mark])

/-- A text in double quotation marks. -/
def quote (text : String) : String := quoteWith '"' text.toList

/-- A character in single quotation marks. -/
def quoteChar (c : Char) : String := quoteWith '\'' [c]

/-- A list of texts, each quoted, in square brackets. -/
def quoteList (texts : List String) : String :=
  "[" ++ ", ".intercalate (texts.map quote) ++ "]"

end Componentry.Text
