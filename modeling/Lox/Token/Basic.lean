import Lox.Number

/-!
# Tokens

A token is a stretch of source text, its *lexeme*, with what it is and the line it ends on.
-/

namespace Lox

/-- Punctuation and operators. -/
inductive Symbol where
  | leftParen | rightParen | leftBrace | rightBrace
  | comma | dot | minus | plus | semicolon | slash | star
  | bang | bangEqual | equal | equalEqual
  | greater | greaterEqual | less | lessEqual
  deriving DecidableEq, Repr

/-- Words that are no identifiers. -/
inductive Keyword where
  | andKw | classKw | elseKw | falseKw | forKw | funKw | ifKw | nilKw | orKw
  | printKw | returnKw | superKw | thisKw | trueKw | varKw | whileKw
  deriving DecidableEq, Repr

/-- What a token is. -/
inductive Kind where
  | symbol (symbol : Symbol)
  | keyword (keyword : Keyword)
  | identifier
  | string (value : String)
  | number (value : Float)
  | endOfInput
  deriving Repr

/-- A token of the source text. -/
structure Token where
  kind : Kind
  lexeme : String
  line : Nat
  deriving Repr

namespace Symbol

/-- The symbol as it is written in a source text. -/
def text : Symbol → String
  | leftParen => "("
  | rightParen => ")"
  | leftBrace => "\x7b"
  | rightBrace => "\x7d"
  | comma => ","
  | dot => "."
  | minus => "-"
  | plus => "+"
  | semicolon => ";"
  | slash => "/"
  | star => "*"
  | bang => "!"
  | bangEqual => "!="
  | equal => "="
  | equalEqual => "=="
  | greater => ">"
  | greaterEqual => ">="
  | less => "<"
  | lessEqual => "<="

/-- The symbol's name in a listing of tokens. -/
def name : Symbol → String
  | leftParen => "LEFT_PAREN"
  | rightParen => "RIGHT_PAREN"
  | leftBrace => "LEFT_BRACE"
  | rightBrace => "RIGHT_BRACE"
  | comma => "COMMA"
  | dot => "DOT"
  | minus => "MINUS"
  | plus => "PLUS"
  | semicolon => "SEMICOLON"
  | slash => "SLASH"
  | star => "STAR"
  | bang => "BANG"
  | bangEqual => "BANG_EQUAL"
  | equal => "EQUAL"
  | equalEqual => "EQUAL_EQUAL"
  | greater => "GREATER"
  | greaterEqual => "GREATER_EQUAL"
  | less => "LESS"
  | lessEqual => "LESS_EQUAL"

end Symbol

namespace Keyword

/-- All keywords. -/
def all : List Keyword :=
  [andKw, classKw, elseKw, falseKw, forKw, funKw, ifKw, nilKw, orKw,
   printKw, returnKw, superKw, thisKw, trueKw, varKw, whileKw]

/-- The keyword as it is written in a source text. -/
def text : Keyword → String
  | andKw => "and"
  | classKw => "class"
  | elseKw => "else"
  | falseKw => "false"
  | forKw => "for"
  | funKw => "fun"
  | ifKw => "if"
  | nilKw => "nil"
  | orKw => "or"
  | printKw => "print"
  | returnKw => "return"
  | superKw => "super"
  | thisKw => "this"
  | trueKw => "true"
  | varKw => "var"
  | whileKw => "while"

/-- The keyword's name in a listing of tokens. -/
def name : Keyword → String
  | andKw => "AND"
  | classKw => "CLASS"
  | elseKw => "ELSE"
  | falseKw => "FALSE"
  | forKw => "FOR"
  | funKw => "FUN"
  | ifKw => "IF"
  | nilKw => "NIL"
  | orKw => "OR"
  | printKw => "PRINT"
  | returnKw => "RETURN"
  | superKw => "SUPER"
  | thisKw => "THIS"
  | trueKw => "TRUE"
  | varKw => "VAR"
  | whileKw => "WHILE"

/-- The keyword that a word is. -/
def ofText? (word : String) : Option Keyword := all.find? fun k => k.text == word

end Keyword

namespace Kind

/-- The name in a listing of tokens. -/
def name : Kind → String
  | symbol s => s.name
  | keyword k => k.name
  | identifier => "IDENTIFIER"
  | string _ => "STRING"
  | number _ => "NUMBER"
  | endOfInput => "EOF"

/-- Both are the same sort of token, whatever value a string or a number has. -/
def sameSort : Kind → Kind → Bool
  | symbol a, symbol b => a == b
  | keyword a, keyword b => a == b
  | identifier, identifier => true
  | string _, string _ => true
  | number _, number _ => true
  | endOfInput, endOfInput => true
  | _, _ => false

/-- The value of a string or a number as a listing shows it. -/
def literalText : Kind → String
  | string value => value
  | number value => Number.literal value
  | _ => "null"

end Kind

namespace Token

/-- Same sort, same text, same line. -/
def agrees (a b : Token) : Bool :=
  a.kind.sameSort b.kind && a.lexeme == b.lexeme && a.line == b.line

/-- The token's line in a listing: name, lexeme and value. -/
def listing (t : Token) : String := s!"{t.kind.name} {t.lexeme} {t.kind.literalText}"

/-- The end of a token list that lacks its end token. -/
def missingEnd : Token := ⟨.endOfInput, "", 0⟩

/-- The token ends the input. -/
def isEnd (t : Token) : Bool := t.kind.sameSort .endOfInput

end Token

end Lox
