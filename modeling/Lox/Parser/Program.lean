import Lox.Parser.Statement

/-!
# Parsing programs

`parseProgram` reads statements up to the end of the tokens, `parseExpression` one expression that
spans them. Both give what they could read and all errors.
-/

namespace Lox

namespace Parser

/-- The rules for up to `n - 1` tokens. Each rule that starts over has taken a token, so a parse of
`n - 1` tokens comes to its end before the rules for none at all. -/
def rules : Nat → Rules
  | 0 =>
    { expression := failHere .expectedExpression
      unary := failHere .expectedExpression
      statement := failHere .expectedExpression
      declaration := pure none }
  | n + 1 =>
    { expression := fun s => assignment n (rules n) s
      unary := fun s => unary n (rules n) s
      statement := fun s => statement n (rules n) s
      declaration := fun s => declaration n (rules n) s }

/-- Statements up to the end; `seen` are those read, last one first. -/
def programItems (r : Rules) : Nat → List (Stmt RefId) → Parser (List (Stmt RefId))
  | 0, seen => pure seen.reverse
  | n + 1, seen => do
    if ← atEnd then return seen.reverse
    else match ← r.declaration with
      | some s => programItems r n (s :: seen)
      | none => programItems r n seen

/-- An expression and nothing behind it. -/
def wholeExpression (r : Rules) : Parser (Expr RefId) := do
  let e ← r.expression
  if ← atEnd then return e else failHere .expectedEnd

end Parser

/-- What a parse gives. -/
structure Parsed (α : Type) where
  /-- What could be read. -/
  result : α
  /-- The errors, in the order in which they were met. -/
  errors : List SyntaxError
  /-- The number of the first reference of the next parse. -/
  nextRef : RefId

/-- The statements that the tokens form, without those in error. References are numbered from
`firstRef`. -/
def parseProgram (tokens : List Token) (firstRef : RefId) : Parsed (List (Stmt RefId)) :=
  let n := tokens.length + 1
  match Parser.programItems (Parser.rules n) n [] (.start tokens firstRef) with
  | .ok statements s => ⟨statements, s.errors.toList, s.nextRef⟩
  | .error e s => ⟨[], s.errors.toList ++ [e], s.nextRef⟩

/-- The expression that the tokens form. An error that stops the parse leaves none. -/
def parseExpression (tokens : List Token) (firstRef : RefId) : Parsed (Option (Expr RefId)) :=
  match Parser.wholeExpression (Parser.rules (tokens.length + 1)) (.start tokens firstRef) with
  | .ok e s => ⟨some e, s.errors.toList, s.nextRef⟩
  | .error e s => ⟨none, s.errors.toList ++ [e], s.nextRef⟩

end Lox
