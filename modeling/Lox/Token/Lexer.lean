import Lox.Diagnostic
import Lox.Token.Basic

/-!
# Splitting a text into tokens

`munch` takes the longest piece off the front of a text: a token, a piece of layout, or something
that is no token. `lex` does so until the text is used up. A token and an error both have the line
on which their piece ends.
-/

namespace Lox

/-- Text that forms no token. -/
inductive LexCause where
  /-- A character that begins nothing. -/
  | stray (c : Char)
  /-- A string without its closing quote. -/
  | unclosedString
  deriving DecidableEq, Repr

/-- Text that forms no token, with the line on which it ends. -/
structure LexError where
  cause : LexCause
  line : Nat
  deriving DecidableEq, Repr

def LexCause.message : LexCause → String
  | stray c => s!"Unexpected character: {c}"
  | unclosedString => "Unterminated string."

def LexError.diagnostic (e : LexError) : Diagnostic := .lexical e.line e.cause.message

namespace Lexer

/-- What the front of a text is. -/
inductive Form where
  /-- Blanks, line ends and comments, which separate tokens. -/
  | layout
  | token (kind : Kind)
  | error (cause : LexCause)

/-- A piece taken off the front of a text, and what stands behind it. -/
structure Piece where
  form : Form
  text : List Char
  rest : List Char

/-- Letters and the underscore begin a word. -/
def isWordStart (c : Char) : Bool := c.isAlpha || c == '_'

/-- Letters, digits and the underscore continue a word. -/
def isWordPart (c : Char) : Bool := c.isAlphanum || c == '_'

/-- The number that a text of digits stands for. -/
def digitsValue (digits : List Char) : Nat :=
  digits.foldl (fun n c => n * 10 + (c.toNat - '0'.toNat)) 0

/-- The number written as digits before and after a point. -/
def numberValue (whole fraction : List Char) : Float :=
  Decimal.toFloat ⟨digitsValue (whole ++ fraction), -(fraction.length : Int)⟩

/-- A piece of the symbol `alone`, or of `joined` where an equals sign follows. -/
def symbolPiece (alone joined : Symbol) (c : Char) : List Char → Piece
  | '=' :: rest => ⟨.token (.symbol joined), [c, '='], rest⟩
  | rest => ⟨.token (.symbol alone), [c], rest⟩

/-- A slash, or a comment up to the end of the line. -/
def slashPiece : List Char → Piece
  | '/' :: rest =>
    ⟨.layout, '/' :: '/' :: rest.takeWhile (· != '\n'), rest.dropWhile (· != '\n')⟩
  | rest => ⟨.token (.symbol .slash), ['/'], rest⟩

/-- A string up to the next quote. Without one, everything is used up. -/
def stringPiece (rest : List Char) : Piece :=
  let value := rest.takeWhile (· != '"')
  match rest.dropWhile (· != '"') with
  | [] => ⟨.error .unclosedString, '"' :: rest, []⟩
  | quote :: after => ⟨.token (.string (String.ofList value)), '"' :: value ++ [quote], after⟩

/-- Digits, and a point with more digits if at least one digit follows the point. -/
def numberPiece (text : List Char) : Piece :=
  let whole := text.takeWhile Char.isDigit
  match text.dropWhile Char.isDigit with
  | '.' :: d :: rest =>
    if d.isDigit then
      let fraction := (d :: rest).takeWhile Char.isDigit
      ⟨.token (.number (numberValue whole fraction)), whole ++ '.' :: fraction,
        (d :: rest).dropWhile Char.isDigit⟩
    else ⟨.token (.number (numberValue whole [])), whole, '.' :: d :: rest⟩
  | rest => ⟨.token (.number (numberValue whole [])), whole, rest⟩

/-- A word, which is a keyword or an identifier. -/
def wordPiece (text : List Char) : Piece :=
  let word := text.takeWhile isWordPart
  let kind := match Keyword.ofText? (String.ofList word) with
    | some k => .keyword k
    | none => .identifier
  ⟨.token kind, word, text.dropWhile isWordPart⟩

/-- The longest piece of the text `c :: rest`. -/
def munch (c : Char) (rest : List Char) : Piece :=
  let single (s : Symbol) : Piece := ⟨.token (.symbol s), [c], rest⟩
  match c with
  | '(' => single .leftParen
  | ')' => single .rightParen
  | '{' => single .leftBrace
  | '}' => single .rightBrace
  | ',' => single .comma
  | '.' => single .dot
  | '-' => single .minus
  | '+' => single .plus
  | ';' => single .semicolon
  | '*' => single .star
  | '!' => symbolPiece .bang .bangEqual c rest
  | '=' => symbolPiece .equal .equalEqual c rest
  | '<' => symbolPiece .less .lessEqual c rest
  | '>' => symbolPiece .greater .greaterEqual c rest
  | ' ' | '\r' | '\t' | '\n' => ⟨.layout, [c], rest⟩
  | '/' => slashPiece rest
  | '"' => stringPiece rest
  | _ =>
    if c.isDigit then numberPiece (c :: rest)
    else if isWordStart c then wordPiece (c :: rest)
    else ⟨.error (.stray c), [c], rest⟩

/-- The line ends in a text. -/
def newlines (text : List Char) : Nat := text.count '\n'

/-- The line ends that are counted when a piece is taken: one for a line end outside of strings, and
those inside of a string, also where it is never closed. A comment stops in front of the line end, and
the other pieces have none. -/
def Piece.lineEnds (p : Piece) : Nat :=
  match p.form with
  | .layout => if p.text = ['\n'] then 1 else 0
  | .token (.string _) | .error .unclosedString => newlines p.text
  | .token _ | .error (.stray _) => 0

/-- The tokens and errors of a text that begins on the given line. A piece has at least one
character, so `fuel` as large as the length of the text lasts to its end. -/
def lexFrom : (fuel line : Nat) → List Char → List (Except LexError Token)
  | _, line, [] => [.ok ⟨.endOfInput, "", line⟩]
  | 0, _, _ :: _ => []
  | fuel + 1, line, c :: cs =>
    let piece := munch c cs
    let line := line + piece.lineEnds
    match piece.form with
    | .layout => lexFrom fuel line piece.rest
    | .token kind => .ok ⟨kind, String.ofList piece.text, line⟩ :: lexFrom fuel line piece.rest
    | .error cause => .error ⟨cause, line⟩ :: lexFrom fuel line piece.rest

end Lexer

/-- The tokens of a text, with an error where a piece of it is no token. The last one is the end of
the input. -/
def lex (source : String) : List (Except LexError Token) :=
  let text := source.toList
  Lexer.lexFrom text.length 1 text

/-- The tokens among the pieces of a text. -/
def tokensOf (items : List (Except LexError Token)) : List Token :=
  items.filterMap fun | .ok t => some t | .error _ => none

/-- The errors among the pieces of a text. -/
def errorsOf (items : List (Except LexError Token)) : List LexError :=
  items.filterMap fun | .ok _ => none | .error e => some e

end Lox
