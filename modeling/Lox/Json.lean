/-!
# JSON documents

A document keeps the order of its fields and the text of its numbers. `render` writes it over
several lines with an indentation of two blanks.
-/

namespace Lox

inductive Json where
  | null
  /-- A number as it is written. -/
  | number (text : String)
  | string (value : String)
  | array (items : List Json)
  | object (fields : List (String × Json))

namespace Json

/-- A hexadecimal digit in lower case. -/
def hexDigit (n : Nat) : Char :=
  if n < 10 then Char.ofNat ('0'.toNat + n) else Char.ofNat ('a'.toNat + (n - 10))

/-- A character inside quotes. Quotes, backslashes and control characters are escaped. -/
def escape (c : Char) : String :=
  match c with
  | '"' => "\\\""
  | '\\' => "\\\\"
  | '\x08' => "\\b"
  | '\x0c' => "\\f"
  | '\n' => "\\n"
  | '\r' => "\\r"
  | '\t' => "\\t"
  | c =>
    if c.toNat < 0x20 then
      "\\u00" ++ String.ofList [hexDigit (c.toNat / 16), hexDigit (c.toNat % 16)]
    else c.toString

/-- A text in quotes. -/
def quote (s : String) : String := "\"" ++ String.join (s.toList.map escape) ++ "\""

/-- The start of a line at the given depth. -/
def newLine (depth : Nat) : String := "\n" ++ String.join (List.replicate depth "  ")

mutual

/-- The document, whose first line stands at the given depth. -/
def renderAt (depth : Nat) : Json → String
  | null => "null"
  | number text => text
  | string value => quote value
  | array [] => "[]"
  | array (item :: items) =>
    "[" ++ newLine (depth + 1) ++ item.renderAt (depth + 1) ++ renderItems (depth + 1) items ++
      newLine depth ++ "]"
  | object [] => "\x7b\x7d"
  | object (field :: fields) =>
    "\x7b" ++ newLine (depth + 1) ++ renderField (depth + 1) field ++
      renderFields (depth + 1) fields ++ newLine depth ++ "\x7d"

/-- Further items, each on a line of its own. -/
def renderItems (depth : Nat) : List Json → String
  | [] => ""
  | item :: items => "," ++ newLine depth ++ item.renderAt depth ++ renderItems depth items

/-- A field. -/
def renderField (depth : Nat) : String × Json → String
  | (name, value) => quote name ++ ": " ++ value.renderAt depth

/-- Further fields, each on a line of its own. -/
def renderFields (depth : Nat) : List (String × Json) → String
  | [] => ""
  | field :: fields => "," ++ newLine depth ++ renderField depth field ++ renderFields depth fields

end

/-- The document over several lines. -/
def render (document : Json) : String := document.renderAt 0

end Json

end Lox
