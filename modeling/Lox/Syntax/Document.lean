import Lox.Json
import Lox.Number
import Lox.Syntax.Basic

/-!
# Trees as JSON documents

A node is an object with one field, named for the sort of the node, whose value holds its parts; a
node without parts is its name alone. Marks are written as the numbers they are.
-/

namespace Lox

def Name.document (name : Name) : Json :=
  .object [("name", .string name.text), ("line", .number (toString name.line))]

def Reference.document (r : Reference Nat) : Json :=
  .object [("id", .number (toString r.mark)), ("name", r.name.document)]

def Literal.document : Literal → Json
  | number value => .object [("Number", .number (Number.document value))]
  | string value => .object [("Str", .string value)]
  | boolean true => .string "True"
  | boolean false => .string "False"
  | nil => .string "Nil"

def UnaryOp.document : UnaryOp → Json
  | negate => .string "Negate"
  | not => .string "Not"

def BinaryOp.document : BinaryOp → Json
  | add => .string "Add"
  | subtract => .string "Subtract"
  | multiply => .string "Multiply"
  | divide => .string "Divide"
  | equal => .string "Equal"
  | notEqual => .string "NotEqual"
  | greater => .string "Greater"
  | greaterEqual => .string "GreaterEqual"
  | less => .string "Less"
  | lessEqual => .string "LessEqual"

def LogicalOp.document : LogicalOp → Json
  | and => .string "And"
  | or => .string "Or"

/-- A node with named parts. -/
def nodeDocument (sort : String) (parts : List (String × Json)) : Json :=
  .object [(sort, .object parts)]

/-- A line number. -/
def lineDocument (line : Nat) : Json := .number (toString line)

mutual

def Expr.document : Expr Nat → Json
  | .literal value => .object [("Literal", value.document)]
  | .grouping inner => .object [("Grouping", inner.document)]
  | .unary op line operand =>
    nodeDocument "Unary"
      [("operator", op.document), ("line", lineDocument line), ("right", operand.document)]
  | .binary op line left right =>
    nodeDocument "Binary"
      [("left", left.document), ("operator", op.document), ("line", lineDocument line),
        ("right", right.document)]
  | .logical op left right =>
    nodeDocument "Logical"
      [("left", left.document), ("operator", op.document), ("right", right.document)]
  | .variable target => .object [("Variable", target.document)]
  | .assign target value =>
    nodeDocument "Assign" [("target", target.document), ("value", value.document)]
  | .call callee line arguments =>
    nodeDocument "Call"
      [("callee", callee.document), ("paren_line", lineDocument line),
        ("arguments", .array (Expr.documents arguments))]
  | .get object property =>
    nodeDocument "Get" [("object", object.document), ("name", property.document)]
  | .set object property value =>
    nodeDocument "Set"
      [("object", object.document), ("name", property.document), ("value", value.document)]
  | .this line mark => .object [("This", Reference.document ⟨⟨thisName, line⟩, mark⟩)]
  | .super line mark method =>
    nodeDocument "Super"
      [("keyword", Reference.document ⟨⟨superName, line⟩, mark⟩), ("method", method.document)]

def Expr.documents : List (Expr Nat) → List Json
  | [] => []
  | e :: es => e.document :: Expr.documents es

end

/-- An expression that may be missing. -/
def Expr.document? : Option (Expr Nat) → Json
  | none => .null
  | some e => e.document

/-- A superclass that may be missing. -/
def superclassDocument : Option (Reference Nat) → Json
  | none => .null
  | some r => r.document

mutual

def Stmt.document : Stmt Nat → Json
  | .expression value => .object [("Expression", value.document)]
  | .print value => .object [("Print", value.document)]
  | .declare name initializer =>
    nodeDocument "Var" [("name", name.document), ("initializer", Expr.document? initializer)]
  | .block body => .object [("Block", .array (Stmt.documents body))]
  | .conditional condition thenBranch none =>
    nodeDocument "If"
      [("condition", condition.document), ("then_branch", thenBranch.document),
        ("else_branch", .null)]
  | .conditional condition thenBranch (some elseBranch) =>
    nodeDocument "If"
      [("condition", condition.document), ("then_branch", thenBranch.document),
        ("else_branch", elseBranch.document)]
  | .loop condition body =>
    nodeDocument "While" [("condition", condition.document), ("body", body.document)]
  | .function declaration => .object [("Function", declaration.document)]
  | .ret line value =>
    nodeDocument "Return" [("line", lineDocument line), ("value", Expr.document? value)]
  | .classDecl name superclass methods =>
    nodeDocument "Class"
      [("name", name.document), ("superclass", superclassDocument superclass),
        ("methods", .array (FunctionDecl.documents methods))]

def FunctionDecl.document : FunctionDecl Nat → Json
  | ⟨name, params, body⟩ =>
    .object
      [("name", name.document), ("params", .array (params.map Name.document)),
        ("body", .array (Stmt.documents body))]

def Stmt.documents : List (Stmt Nat) → List Json
  | [] => []
  | s :: ss => s.document :: Stmt.documents ss

def FunctionDecl.documents : List (FunctionDecl Nat) → List Json
  | [] => []
  | d :: ds => d.document :: FunctionDecl.documents ds

end

end Lox
