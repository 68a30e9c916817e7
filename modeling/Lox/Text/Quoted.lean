import Lox.Text.Extender
import Lox.Text.Inkless

/-!
# Quoted text

`quote` puts a text in quotes so that each character of it can be seen: a character without a shape
of its own is written as its code point, and the backslash and the quote are escaped.
-/

namespace Lox.Text

/-- The code point of a character in hexadecimal digits. -/
def codePoint (c : Char) : String :=
  "\\u\x7b" ++ String.ofList (Nat.toDigits 16 c.toNat) ++ "\x7d"

/-- A character inside quotes. The blank stands for itself. -/
def escape (c : Char) : String :=
  match c with
  | '\x00' => "\\0"
  | '\t' => "\\t"
  | '\n' => "\\n"
  | '\r' => "\\r"
  | '\\' => "\\\\"
  | '"' => "\\\""
  | ' ' => " "
  | c => if isInkless c || isExtender c then codePoint c else c.toString

/-- A text in quotes. -/
def quote (text : String) : String := "\"" ++ String.join (text.toList.map escape) ++ "\""

end Lox.Text
