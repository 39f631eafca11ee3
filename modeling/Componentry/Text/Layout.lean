/-!
# Columns and blank ends

Small layout rules of the listings: numbers and words padded to a column, and text without the
blanks at its end.

## Main definitions

* `Text.padLeft`, `Text.padRight` bring a text to a least width
* `Text.isBlank` is the white space of Unicode
* `Text.trimEnd` drops the blanks at the end of a text
* `Text.hex` writes a number in hexadecimal with a least number of digits, `Text.readHex?` reads one
-/

namespace Componentry.Text

/-- The text with copies of `fill` in front, at least `width` characters long. -/
def padLeft (fill : Char) (width : Nat) (text : List Char) : List Char :=
  List.replicate (width - text.length) fill ++ text

/-- The text followed by spaces, at least `width` characters long. -/
def padRight (width : Nat) (text : List Char) : List Char :=
  text ++ List.replicate (width - text.length) ' '

/-- The characters with the Unicode property of white space. -/
def isBlank (c : Char) : Bool :=
  let point := c.toNat
  (0x9 ≤ point && point ≤ 0xd) || point == 0x20 || point == 0x85 || point == 0xa0 || point == 0x1680
    || (0x2000 ≤ point && point ≤ 0x200a) || point == 0x2028 || point == 0x2029 || point == 0x202f
    || point == 0x205f || point == 0x3000

/-- The text up to its last character that is not blank. -/
def trimEnd (text : String) : String :=
  String.ofList (text.toList.reverse.dropWhile isBlank).reverse

/-- A number in lower-case hexadecimal, with leading zeros up to `width` digits. -/
def hex (width n : Nat) : String :=
  String.ofList (padLeft '0' width (Nat.toDigits 16 n))

/-- The value of a hexadecimal digit in either case. -/
def hexDigit? (c : Char) : Option Nat :=
  if '0' ≤ c ∧ c ≤ '9' then some (c.toNat - '0'.toNat)
  else if 'a' ≤ c ∧ c ≤ 'f' then some (c.toNat - 'a'.toNat + 10)
  else if 'A' ≤ c ∧ c ≤ 'F' then some (c.toNat - 'A'.toNat + 10)
  else none

/-- The number with the given hexadecimal digits after `0x`. -/
def readHex? (text : String) : Option Nat :=
  match text.toList with
  | '0' :: 'x' :: digits => digits.foldlM (fun acc c => (hexDigit? c).map (16 * acc + ·)) 0
  | _ => none

end Componentry.Text
