/-!
# Syntax trees

Expressions and statements of the language. The trees carry a *mark* of type `ρ` on every
reference, that is on every variable read, assignment target, `this`, `super` and superclass name.
The parser marks references with numbers, resolution adds the place where each one finds its
variable, and evaluation needs only that place; so each phase says by its type what it knows.
-/

namespace Lox

/-- A name as it stands in a source text. -/
structure Name where
  text : String
  line : Nat
  deriving DecidableEq, Repr

/-- A name that stands for a variable, with its mark. -/
structure Reference (ρ : Type) where
  name : Name
  mark : ρ
  deriving DecidableEq, Repr

inductive Literal where
  | number (value : Float)
  | string (value : String)
  | boolean (value : Bool)
  | nil
  deriving Repr

inductive UnaryOp where
  | negate | not
  deriving DecidableEq, Repr

inductive BinaryOp where
  | add | subtract | multiply | divide
  | equal | notEqual | greater | greaterEqual | less | lessEqual
  deriving DecidableEq, Repr

inductive LogicalOp where
  | and | or
  deriving DecidableEq, Repr

def UnaryOp.symbol : UnaryOp → String
  | negate => "-"
  | not => "!"

def BinaryOp.symbol : BinaryOp → String
  | add => "+"
  | subtract => "-"
  | multiply => "*"
  | divide => "/"
  | equal => "=="
  | notEqual => "!="
  | greater => ">"
  | greaterEqual => ">="
  | less => "<"
  | lessEqual => "<="

def LogicalOp.symbol : LogicalOp → String
  | and => "and"
  | or => "or"

/-- The name that a method's instance goes by. -/
def thisName : String := "this"

/-- The name that the superclass goes by in the methods of a class. -/
def superName : String := "super"

/-- The name of the method that a new instance is set up by. -/
def initializerName : String := "init"

inductive Expr (ρ : Type) where
  | literal (value : Literal)
  | grouping (inner : Expr ρ)
  | unary (op : UnaryOp) (line : Nat) (operand : Expr ρ)
  | binary (op : BinaryOp) (line : Nat) (left right : Expr ρ)
  | logical (op : LogicalOp) (left right : Expr ρ)
  | variable (target : Reference ρ)
  | assign (target : Reference ρ) (value : Expr ρ)
  /-- The line is that of the closing parenthesis. -/
  | call (callee : Expr ρ) (line : Nat) (arguments : List (Expr ρ))
  | get (object : Expr ρ) (property : Name)
  | set (object : Expr ρ) (property : Name) (value : Expr ρ)
  | this (line : Nat) (mark : ρ)
  | super (line : Nat) (mark : ρ) (method : Name)
  deriving Repr

mutual

inductive Stmt (ρ : Type) where
  | expression (value : Expr ρ)
  | print (value : Expr ρ)
  | declare (name : Name) (initializer : Option (Expr ρ))
  | block (body : List (Stmt ρ))
  | conditional (condition : Expr ρ) (thenBranch : Stmt ρ) (elseBranch : Option (Stmt ρ))
  | loop (condition : Expr ρ) (body : Stmt ρ)
  | function (declaration : FunctionDecl ρ)
  | ret (line : Nat) (value : Option (Expr ρ))
  | classDecl (name : Name) (superclass : Option (Reference ρ)) (methods : List (FunctionDecl ρ))

/-- A function or a method. -/
structure FunctionDecl (ρ : Type) where
  name : Name
  params : List Name
  body : List (Stmt ρ)

end

namespace FunctionDecl

/-- The number of arguments a call has to have. -/
def arity {ρ : Type} (f : FunctionDecl ρ) : Nat := f.params.length

/-- The method sets up new instances. -/
def isInitializer {ρ : Type} (f : FunctionDecl ρ) : Bool := f.name.text == initializerName

end FunctionDecl

end Lox
