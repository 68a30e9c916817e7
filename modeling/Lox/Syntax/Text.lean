import Lox.Number
import Lox.Syntax.Basic

/-!
# Trees as text

`Expr.text` and `Stmt.text` write a tree in parentheses with what it is in front, such as
`(+ 1.0 (group 2.0))`. Lines and marks are left out.
-/

namespace Lox

variable {ρ : Type}

def Literal.text : Literal → String
  | number value => Number.tree value
  | string value => value
  | boolean true => "true"
  | boolean false => "false"
  | nil => "nil"

mutual

/-- The expression in parentheses. -/
def Expr.text : Expr ρ → String
  | .literal value => value.text
  | .grouping inner => "(group " ++ inner.text ++ ")"
  | .unary op _ operand => "(" ++ op.symbol ++ " " ++ operand.text ++ ")"
  | .binary op _ left right => "(" ++ op.symbol ++ " " ++ left.text ++ " " ++ right.text ++ ")"
  | .logical op left right => "(" ++ op.symbol ++ " " ++ left.text ++ " " ++ right.text ++ ")"
  | .variable target => target.name.text
  | .assign target value => "(= " ++ target.name.text ++ " " ++ value.text ++ ")"
  | .call callee _ arguments => "(call " ++ callee.text ++ Expr.textAll arguments ++ ")"
  | .get object property => "(. " ++ object.text ++ " " ++ property.text ++ ")"
  | .set object property value =>
    "(.= " ++ object.text ++ " " ++ property.text ++ " " ++ value.text ++ ")"
  | .this _ _ => thisName
  | .super _ _ method => "(super " ++ method.text ++ ")"

/-- The expressions with a blank before each. -/
def Expr.textAll : List (Expr ρ) → String
  | [] => ""
  | e :: es => " " ++ e.text ++ Expr.textAll es

end

/-- An expression with a blank before it, if there is one. -/
def Expr.text? : Option (Expr ρ) → String
  | none => ""
  | some e => " " ++ e.text

/-- The superclass in the heading of a class. -/
def superclassText : Option (Reference ρ) → String
  | none => ""
  | some superclass => " < " ++ superclass.name.text

/-- Parameters in parentheses. -/
def paramsText (params : List Name) : String :=
  "(" ++ " ".intercalate (params.map Name.text) ++ ")"

mutual

/-- The statement in parentheses. -/
def Stmt.text : Stmt ρ → String
  | .expression value => "(; " ++ value.text ++ ")"
  | .print value => "(print " ++ value.text ++ ")"
  | .declare name initializer => "(var " ++ name.text ++ Expr.text? initializer ++ ")"
  | .block body => "(block" ++ Stmt.textAll body ++ ")"
  | .conditional condition thenBranch none =>
    "(if " ++ condition.text ++ " " ++ thenBranch.text ++ ")"
  | .conditional condition thenBranch (some elseBranch) =>
    "(if " ++ condition.text ++ " " ++ thenBranch.text ++ " " ++ elseBranch.text ++ ")"
  | .loop condition body => "(while " ++ condition.text ++ " " ++ body.text ++ ")"
  | .function declaration => declaration.text "fun"
  | .ret _ value => "(return" ++ Expr.text? value ++ ")"
  | .classDecl name superclass methods =>
    "(class " ++ name.text ++ superclassText superclass ++ FunctionDecl.textAll methods ++ ")"

/-- The function in parentheses, with the given word in front. -/
def FunctionDecl.text (word : String) : FunctionDecl ρ → String
  | ⟨name, params, body⟩ =>
    "(" ++ word ++ " " ++ name.text ++ " " ++ paramsText params ++ Stmt.textAll body ++ ")"

/-- The statements with a blank before each. -/
def Stmt.textAll : List (Stmt ρ) → String
  | [] => ""
  | s :: ss => " " ++ s.text ++ Stmt.textAll ss

/-- The methods with a blank before each. -/
def FunctionDecl.textAll : List (FunctionDecl ρ) → String
  | [] => ""
  | d :: ds => " " ++ d.text "method" ++ FunctionDecl.textAll ds

end

end Lox
