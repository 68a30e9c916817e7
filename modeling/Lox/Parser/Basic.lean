import Lox.Diagnostic
import Lox.Syntax.Basic
import Lox.Token.Basic

/-!
# Reading tokens

The state of a parse and the steps that look at the next token or take it. The end token is never
taken, and a list without one is read as if it ended in `Token.missingEnd`. An error either stops
the rule that meets it, or is recorded and the rule goes on.
-/

namespace Lox

/-- The number of a reference. References are numbered in the order in which they are read. -/
abbrev RefId := Nat

/-- Why tokens are no program. -/
inductive SyntaxCause where
  /-- The symbol is missing at this place. -/
  | expectedSymbol (symbol : Symbol) (place : String)
  /-- A name of this sort is missing. -/
  | expectedName (sort : String)
  | expectedExpression
  | expectedEnd
  | invalidTarget
  /-- There are more parameters or arguments than a call can have. -/
  | tooMany (sort : String)
  deriving DecidableEq, Repr

def SyntaxCause.message : SyntaxCause → String
  | expectedSymbol symbol place => s!"Expect '{symbol.text}' {place}."
  | expectedName sort => s!"Expect {sort}."
  | expectedExpression => "Expect expression."
  | expectedEnd => "Expect end of expression."
  | invalidTarget => "Invalid assignment target."
  | tooMany sort => s!"Can't have more than 255 {sort}."

/-- Why tokens are no program, and the token at which that shows. -/
structure SyntaxError where
  cause : SyntaxCause
  token : Token
  deriving Repr

/-- Where the error stands, in words. -/
def SyntaxError.location (e : SyntaxError) : String :=
  if e.token.isEnd then "at end" else s!"at '{e.token.lexeme}'"

def SyntaxError.diagnostic (e : SyntaxError) : Diagnostic :=
  .syntactic e.token.line e.location e.cause.message

/-- The most parameters or arguments that a call has. -/
def argumentLimit : Nat := 255

/-- How far a parse has come. -/
structure ParseState where
  /-- The tokens not yet taken. -/
  rest : List Token
  /-- The token taken last. -/
  previous : Token
  /-- The errors recorded so far, in order. -/
  errors : Array SyntaxError
  /-- The number of the next reference. -/
  nextRef : RefId

/-- A rule reads tokens and gives a result or the error that stopped it. -/
abbrev Parser := EStateM SyntaxError ParseState

namespace ParseState

/-- The state before the first token. -/
def start (tokens : List Token) (firstRef : RefId) : ParseState :=
  ⟨tokens, Token.missingEnd, #[], firstRef⟩

/-- The next token. -/
def peek (s : ParseState) : Token := s.rest.headD Token.missingEnd

/-- Nothing is left but the end. -/
def atEnd (s : ParseState) : Bool := s.peek.isEnd

/-- The next token is of this sort, and not the end. -/
def isNext (s : ParseState) (kind : Kind) : Bool := !s.atEnd && s.peek.kind.sameSort kind

/-- Takes the next token, unless it is the end. -/
def advance (s : ParseState) : ParseState :=
  match s.rest with
  | [] => s
  | t :: rest => if t.isEnd then s else { s with rest := rest, previous := t }

/-- Adds an error to those recorded. -/
def record (s : ParseState) (e : SyntaxError) : ParseState :=
  { s with errors := s.errors.push e }

end ParseState

namespace Parser

/-- The next token. -/
def peek : Parser Token := fun s => .ok s.peek s

/-- The next token is of this sort. -/
def check (kind : Kind) : Parser Bool := fun s => .ok (s.isNext kind) s

/-- The next token is this symbol. -/
def checkSymbol (symbol : Symbol) : Parser Bool := check (.symbol symbol)

/-- Nothing is left but the end. -/
def atEnd : Parser Bool := fun s => .ok s.atEnd s

/-- Takes the next token and gives it. -/
def advance : Parser Token := fun s =>
  let s := s.advance
  .ok s.previous s

/-- Takes the next token if it is of this sort, and says whether it was. -/
def accept (kind : Kind) : Parser Bool := fun s =>
  if s.isNext kind then .ok true s.advance else .ok false s

/-- Takes the next token if it is this symbol. -/
def acceptSymbol (symbol : Symbol) : Parser Bool := accept (.symbol symbol)

/-- Takes the next token if it is this keyword. -/
def acceptKeyword (keyword : Keyword) : Parser Bool := accept (.keyword keyword)

/-- Stops with an error at the next token. -/
def failHere {α : Type} (cause : SyntaxCause) : Parser α := fun s => .error ⟨cause, s.peek⟩ s

/-- Records an error at a token and goes on. -/
def report (cause : SyntaxCause) (token : Token) : Parser Unit := fun s =>
  .ok () (s.record ⟨cause, token⟩)

/-- Takes a token of this sort, or stops. -/
def expect (kind : Kind) (cause : SyntaxCause) : Parser Token := do
  if ← check kind then advance else failHere cause

/-- Takes this symbol, which has to stand here. -/
def expectSymbol (symbol : Symbol) (place : String) : Parser Token :=
  expect (.symbol symbol) (.expectedSymbol symbol place)

/-- Takes a name, which has to stand here. -/
def expectName (sort : String) : Parser Name := do
  let token ← expect .identifier (.expectedName sort)
  return ⟨token.lexeme, token.line⟩

/-- The token taken last. -/
def previous : Parser Token := fun s => .ok s.previous s

/-- A number that no other reference has. -/
def freshRef : Parser RefId := fun s => .ok s.nextRef { s with nextRef := s.nextRef + 1 }

/-- A reference to the variable of this name. -/
def reference (name : Name) : Parser (Reference RefId) := do
  return ⟨name, ← freshRef⟩

end Parser

end Lox
