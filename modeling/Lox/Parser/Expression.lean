import Lox.Parser.Basic

/-!
# Parsing expressions

One rule for each level of the grammar, from assignment, which binds least, to primary expressions.

    assignment → ( call "." )? IDENTIFIER "=" assignment | or
    or         → and ( "or" and )*
    and        → equality ( "and" equality )*
    equality   → comparison ( ( "!=" | "==" ) comparison )*
    comparison → term ( ( ">" | ">=" | "<" | "<=" ) term )*
    term       → factor ( ( "-" | "+" ) factor )*
    factor     → unary ( ( "/" | "*" ) unary )*
    unary      → ( "!" | "-" ) unary | call
    call       → primary ( "(" arguments? ")" | "." IDENTIFIER )*
    primary    → NUMBER | STRING | "true" | "false" | "nil" | "this" | IDENTIFIER
               | "(" assignment ")" | "super" "." IDENTIFIER

A rule that starts over, within parentheses or behind an operator, has taken a token before; it
finds the rules for what is left in a record of `Rules`, so that no rule refers to itself. A chain
of operators or arguments is bounded by a number `n` that is at least the number of tokens left.
-/

namespace Lox

/-- The rules for what is left behind a token that has been taken. -/
structure Rules where
  expression : Parser (Expr RefId)
  unary : Parser (Expr RefId)
  statement : Parser (Stmt RefId)
  /-- Gives nothing where the declaration was in error. -/
  declaration : Parser (Option (Stmt RefId))

namespace Parser

/-- Operands joined by operators of one level, to the left. -/
def chain (operator : Kind → Option BinaryOp) (operand : Parser (Expr RefId)) :
    Nat → Expr RefId → Parser (Expr RefId)
  | 0, left => pure left
  | n + 1, left => do
    match operator (← peek).kind with
    | none => return left
    | some op =>
      let token ← advance
      let right ← operand
      chain operator operand n (.binary op token.line left right)

/-- Operands joined by one logical operator, to the left. -/
def logicalChain (keyword : Keyword) (op : LogicalOp) (operand : Parser (Expr RefId)) :
    Nat → Expr RefId → Parser (Expr RefId)
  | 0, left => pure left
  | n + 1, left => do
    if ← acceptKeyword keyword then
      let right ← operand
      logicalChain keyword op operand n (.logical op left right)
    else return left

/-- Arguments up to the closing parenthesis, which is left; `seen` are those read, last one first. -/
def arguments (r : Rules) : Nat → List (Expr RefId) → Parser (List (Expr RefId))
  | 0, seen => pure seen.reverse
  | n + 1, seen => do
    if argumentLimit ≤ seen.length then report (.tooMany "arguments") (← peek)
    let argument ← r.expression
    if ← acceptSymbol .comma then arguments r n (argument :: seen)
    else return (argument :: seen).reverse

/-- A call of `callee`, behind the opening parenthesis. -/
def callOf (n : Nat) (r : Rules) (callee : Expr RefId) : Parser (Expr RefId) := do
  let values ← if ← checkSymbol .rightParen then pure [] else arguments r n []
  let closing ← expectSymbol .rightParen "after arguments"
  return .call callee closing.line values

/-- Calls and properties of `object`. -/
def suffixes (r : Rules) : Nat → Expr RefId → Parser (Expr RefId)
  | 0, object => pure object
  | n + 1, object => do
    if ← acceptSymbol .leftParen then
      let call ← callOf n r object
      suffixes r n call
    else if ← acceptSymbol .dot then
      let property ← expectName "property name after '.'"
      suffixes r n (.get object property)
    else return object

/-- A reference to a method of the superclass, behind its keyword on the given line. -/
def superMethod (line : Nat) : Parser (Expr RefId) := do
  let _ ← expectSymbol .dot "after 'super'"
  let method ← expectName "superclass method name"
  return .super line (← freshRef) method

/-- An expression in parentheses, behind the opening one. -/
def grouping (r : Rules) : Parser (Expr RefId) := do
  let inner ← r.expression
  let _ ← expectSymbol .rightParen "after expression"
  return .grouping inner

def primary (r : Rules) : Parser (Expr RefId) := do
  let token ← peek
  match token.kind with
  | .keyword .falseKw => do
    let _ ← advance
    return .literal (.boolean false)
  | .keyword .trueKw => do
    let _ ← advance
    return .literal (.boolean true)
  | .keyword .nilKw => do
    let _ ← advance
    return .literal .nil
  | .number value => do
    let _ ← advance
    return .literal (.number value)
  | .string value => do
    let _ ← advance
    return .literal (.string value)
  | .keyword .thisKw => do
    let _ ← advance
    return .this token.line (← freshRef)
  | .keyword .superKw => do
    let _ ← advance
    superMethod token.line
  | .identifier => do
    let _ ← advance
    return .variable (← reference ⟨token.lexeme, token.line⟩)
  | .symbol .leftParen => do
    let _ ← advance
    grouping r
  | _ => failHere .expectedExpression

def call (n : Nat) (r : Rules) : Parser (Expr RefId) := do
  suffixes r n (← primary r)

/-- The operator that a token is in front of an expression. -/
def unaryOp? : Kind → Option UnaryOp
  | .symbol .bang => some .not
  | .symbol .minus => some .negate
  | _ => none

def unary (n : Nat) (r : Rules) : Parser (Expr RefId) := do
  match unaryOp? (← peek).kind with
  | some op =>
    let token ← advance
    return .unary op token.line (← r.unary)
  | none => call n r

def factorOp? : Kind → Option BinaryOp
  | .symbol .star => some .multiply
  | .symbol .slash => some .divide
  | _ => none

def termOp? : Kind → Option BinaryOp
  | .symbol .minus => some .subtract
  | .symbol .plus => some .add
  | _ => none

def comparisonOp? : Kind → Option BinaryOp
  | .symbol .greater => some .greater
  | .symbol .greaterEqual => some .greaterEqual
  | .symbol .less => some .less
  | .symbol .lessEqual => some .lessEqual
  | _ => none

def equalityOp? : Kind → Option BinaryOp
  | .symbol .bangEqual => some .notEqual
  | .symbol .equalEqual => some .equal
  | _ => none

def factor (n : Nat) (r : Rules) : Parser (Expr RefId) := do
  chain factorOp? (unary n r) n (← unary n r)

def term (n : Nat) (r : Rules) : Parser (Expr RefId) := do
  chain termOp? (factor n r) n (← factor n r)

def comparison (n : Nat) (r : Rules) : Parser (Expr RefId) := do
  chain comparisonOp? (term n r) n (← term n r)

def equality (n : Nat) (r : Rules) : Parser (Expr RefId) := do
  chain equalityOp? (comparison n r) n (← comparison n r)

def conjunction (n : Nat) (r : Rules) : Parser (Expr RefId) := do
  logicalChain .andKw .and (equality n r) n (← equality n r)

def disjunction (n : Nat) (r : Rules) : Parser (Expr RefId) := do
  logicalChain .orKw .or (conjunction n r) n (← conjunction n r)

/-- The assignment of `value` to what `target` reads. A target that reads neither a variable nor a
property is an error at the equals sign, and the parse goes on with the target alone. -/
def assignTo (target : Expr RefId) (equals : Token) (value : Expr RefId) : Parser (Expr RefId) :=
  match target with
  | .variable name => return .assign name value
  | .get object property => return .set object property value
  | other => do
    report .invalidTarget equals
    return other

def assignment (n : Nat) (r : Rules) : Parser (Expr RefId) := do
  let target ← disjunction n r
  if ← acceptSymbol .equal then
    let equals ← previous
    assignTo target equals (← r.expression)
  else return target

end Parser

end Lox
