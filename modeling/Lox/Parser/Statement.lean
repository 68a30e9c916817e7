import Lox.Parser.Expression

/-!
# Parsing statements

    declaration → "class" class | "fun" function | "var" variable | statement
    class       → IDENTIFIER ( "<" IDENTIFIER )? "{" function* "}"
    function    → IDENTIFIER "(" ( IDENTIFIER ( "," IDENTIFIER )* )? ")" "{" block
    variable    → IDENTIFIER ( "=" expression )? ";"
    statement   → "for" for | "if" if | "while" while | "return" expression? ";"
                | "{" block | "print" expression ";" | expression ";"
    block       → declaration* "}"

A `for` statement has no tree of its own, it stands for a loop in a block. A declaration in error is
recorded and left out, and the parse goes on at the next boundary between statements.
-/

namespace Lox.Parser

/-- Declarations up to a closing brace, which is left; `seen` are those read, last one first. -/
def blockItems (r : Rules) : Nat → List (Stmt RefId) → Parser (List (Stmt RefId))
  | 0, seen => pure seen.reverse
  | n + 1, seen => do
    if (← checkSymbol .rightBrace) || (← atEnd) then return seen.reverse
    else match ← r.declaration with
      | some s => blockItems r n (s :: seen)
      | none => blockItems r n seen

/-- The statements of a block, behind its opening brace. -/
def block (n : Nat) (r : Rules) : Parser (List (Stmt RefId)) := do
  let body ← blockItems r n []
  let _ ← expectSymbol .rightBrace "after block"
  return body

/-- Parameters up to the closing parenthesis, which is left; `seen` are those read, last one
first. -/
def params : Nat → List Name → Parser (List Name)
  | 0, seen => pure seen.reverse
  | n + 1, seen => do
    if argumentLimit ≤ seen.length then report (.tooMany "parameters") (← peek)
    let param ← expectName "parameter name"
    if ← acceptSymbol .comma then params n (param :: seen)
    else return (param :: seen).reverse

/-- A function, behind its keyword, or a method; `sort` says which. -/
def function (sort : String) (n : Nat) (r : Rules) : Parser (FunctionDecl RefId) := do
  let name ← expectName s!"{sort} name"
  let _ ← expectSymbol .leftParen s!"after {sort} name"
  let names ← if ← checkSymbol .rightParen then pure [] else params n []
  let _ ← expectSymbol .rightParen "after parameters"
  let _ ← expectSymbol .leftBrace s!"before {sort} body"
  return ⟨name, names, ← block n r⟩

/-- Methods up to a closing brace, which is left; `seen` are those read, last one first. -/
def methods (r : Rules) : Nat → List (FunctionDecl RefId) → Parser (List (FunctionDecl RefId))
  | 0, seen => pure seen.reverse
  | n + 1, seen => do
    if (← checkSymbol .rightBrace) || (← atEnd) then return seen.reverse
    else methods r n ((← function "method" n r) :: seen)

/-- The superclass that a class names, if it names one. -/
def superclass : Parser (Option (Reference RefId)) := do
  if ← acceptSymbol .less then
    let name ← expectName "superclass name"
    return some (← reference name)
  else return none

/-- A class, behind its keyword. -/
def classDeclaration (n : Nat) (r : Rules) : Parser (Stmt RefId) := do
  let name ← expectName "class name"
  let parent ← superclass
  let _ ← expectSymbol .leftBrace "before class body"
  let body ← methods r n []
  let _ ← expectSymbol .rightBrace "after class body"
  return .classDecl name parent body

/-- A variable, behind its keyword. -/
def variableDeclaration (r : Rules) : Parser (Stmt RefId) := do
  let name ← expectName "variable name"
  let initializer ← if ← acceptSymbol .equal then some <$> r.expression else pure none
  let _ ← expectSymbol .semicolon "after variable declaration"
  return .declare name initializer

/-- An expression as a statement. -/
def expressionStatement (expression : Parser (Expr RefId)) : Parser (Stmt RefId) := do
  let value ← expression
  let _ ← expectSymbol .semicolon "after expression"
  return .expression value

/-- The first part of a `for` statement. -/
def forInitializer (r : Rules) : Parser (Option (Stmt RefId)) := do
  if ← acceptSymbol .semicolon then return none
  else if ← acceptKeyword .varKw then some <$> variableDeclaration r
  else some <$> expressionStatement r.expression

/-- The loop that a `for` statement stands for. -/
def forLoop (initializer : Option (Stmt RefId)) (condition : Expr RefId)
    (increment : Option (Expr RefId)) (body : Stmt RefId) : Stmt RefId :=
  let step := match increment with
    | some e => .block [body, .expression e]
    | none => body
  let loop : Stmt RefId := .loop condition step
  match initializer with
  | some s => .block [s, loop]
  | none => loop

/-- A `for` statement, behind its keyword. -/
def forStatement (r : Rules) : Parser (Stmt RefId) := do
  let _ ← expectSymbol .leftParen "after 'for'"
  let initializer ← forInitializer r
  let condition ←
    if ← checkSymbol .semicolon then pure (.literal (.boolean true)) else r.expression
  let _ ← expectSymbol .semicolon "after loop condition"
  let increment ← if ← checkSymbol .rightParen then pure none else some <$> r.expression
  let _ ← expectSymbol .rightParen "after for clauses"
  return forLoop initializer condition increment (← r.statement)

/-- An `if` statement, behind its keyword. -/
def ifStatement (r : Rules) : Parser (Stmt RefId) := do
  let _ ← expectSymbol .leftParen "after 'if'"
  let condition ← r.expression
  let _ ← expectSymbol .rightParen "after if condition"
  let thenBranch ← r.statement
  let elseBranch ← if ← acceptKeyword .elseKw then some <$> r.statement else pure none
  return .conditional condition thenBranch elseBranch

/-- A `while` statement, behind its keyword. -/
def whileStatement (r : Rules) : Parser (Stmt RefId) := do
  let _ ← expectSymbol .leftParen "after 'while'"
  let condition ← r.expression
  let _ ← expectSymbol .rightParen "after condition"
  return .loop condition (← r.statement)

/-- A `return` statement, behind its keyword on the given line. -/
def returnStatement (line : Nat) (r : Rules) : Parser (Stmt RefId) := do
  let value ← if ← checkSymbol .semicolon then pure none else some <$> r.expression
  let _ ← expectSymbol .semicolon "after return value"
  return .ret line value

/-- A `print` statement, behind its keyword. -/
def printStatement (r : Rules) : Parser (Stmt RefId) := do
  let value ← r.expression
  let _ ← expectSymbol .semicolon "after value"
  return .print value

def statement (n : Nat) (r : Rules) : Parser (Stmt RefId) := do
  let token ← peek
  match token.kind with
  | .keyword .forKw => do
    let _ ← advance
    forStatement r
  | .keyword .ifKw => do
    let _ ← advance
    ifStatement r
  | .keyword .whileKw => do
    let _ ← advance
    whileStatement r
  | .keyword .returnKw => do
    let _ ← advance
    returnStatement token.line r
  | .symbol .leftBrace => do
    let _ ← advance
    return .block (← block n r)
  | .keyword .printKw => do
    let _ ← advance
    printStatement r
  | _ => expressionStatement (assignment n r)

/-- A declaration, or the error that stops it. -/
def declarationOrError (n : Nat) (r : Rules) : Parser (Stmt RefId) := do
  match (← peek).kind with
  | .keyword .classKw => do
    let _ ← advance
    classDeclaration n r
  | .keyword .funKw => do
    let _ ← advance
    return .function (← function "function" n r)
  | .keyword .varKw => do
    let _ ← advance
    variableDeclaration r
  | _ => statement n r

/-- The token begins a statement, whatever stands before it. -/
def beginsStatement (token : Token) : Bool :=
  match token.kind with
  | .keyword .classKw | .keyword .funKw | .keyword .varKw | .keyword .forKw
  | .keyword .ifKw | .keyword .whileKw | .keyword .printKw | .keyword .returnKw => true
  | _ => false

/-- Drops tokens up to the next boundary between statements: the end, behind a semicolon, or before
a token that begins a statement. Gives the last token before the boundary and the tokens behind
it. -/
def skipToBoundary (previous : Token) : List Token → Token × List Token
  | [] => (previous, [])
  | t :: rest =>
    if t.isEnd || previous.kind.sameSort (.symbol .semicolon) || beginsStatement t then
      (previous, t :: rest)
    else skipToBoundary t rest

/-- Drops the next token, and then those up to the next boundary. -/
def synchronize (s : ParseState) : ParseState :=
  let s := s.advance
  let (previous, rest) := skipToBoundary s.previous s.rest
  { s with rest := rest, previous := previous }

/-- A declaration; one in error is recorded, and the tokens up to the next boundary are dropped. -/
def declaration (n : Nat) (r : Rules) : Parser (Option (Stmt RefId)) := fun s =>
  match declarationOrError n r s with
  | .ok stmt s => .ok (some stmt) s
  | .error e s => .ok none (synchronize (s.record e))

end Lox.Parser
