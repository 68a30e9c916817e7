import Lox.Syntax.Basic

/-!
# The marks of a tree

`mapMarks f` gives every reference the mark `f name mark`, and `marks` lists the marks as they
stand in the tree. Two trees are equal up to their marks if `mapMarks fun _ _ => ()` makes them
equal.
-/

namespace Lox

variable {ρ σ : Type}

/-- Gives the reference a new mark. -/
def Reference.mapMark (f : String → ρ → σ) (r : Reference ρ) : Reference σ :=
  ⟨r.name, f r.name.text r.mark⟩

mutual

/-- Gives every reference of the expression a new mark. -/
def Expr.mapMarks (f : String → ρ → σ) : Expr ρ → Expr σ
  | .literal value => .literal value
  | .grouping inner => .grouping (inner.mapMarks f)
  | .unary op line operand => .unary op line (operand.mapMarks f)
  | .binary op line left right => .binary op line (left.mapMarks f) (right.mapMarks f)
  | .logical op left right => .logical op (left.mapMarks f) (right.mapMarks f)
  | .variable target => .variable (target.mapMark f)
  | .assign target value => .assign (target.mapMark f) (value.mapMarks f)
  | .call callee line arguments => .call (callee.mapMarks f) line (Expr.mapMarksAll f arguments)
  | .get object property => .get (object.mapMarks f) property
  | .set object property value => .set (object.mapMarks f) property (value.mapMarks f)
  | .this line mark => .this line (f thisName mark)
  | .super line mark method => .super line (f superName mark) method

/-- Gives every reference of the expressions a new mark. -/
def Expr.mapMarksAll (f : String → ρ → σ) : List (Expr ρ) → List (Expr σ)
  | [] => []
  | e :: es => e.mapMarks f :: Expr.mapMarksAll f es

end

mutual

/-- Gives every reference of the statement a new mark. -/
def Stmt.mapMarks (f : String → ρ → σ) : Stmt ρ → Stmt σ
  | .expression value => .expression (value.mapMarks f)
  | .print value => .print (value.mapMarks f)
  | .declare name initializer => .declare name (initializer.map (·.mapMarks f))
  | .block body => .block (Stmt.mapMarksAll f body)
  | .conditional condition thenBranch none =>
    .conditional (condition.mapMarks f) (thenBranch.mapMarks f) none
  | .conditional condition thenBranch (some elseBranch) =>
    .conditional (condition.mapMarks f) (thenBranch.mapMarks f) (some (elseBranch.mapMarks f))
  | .loop condition body => .loop (condition.mapMarks f) (body.mapMarks f)
  | .function declaration => .function (declaration.mapMarks f)
  | .ret line value => .ret line (value.map (·.mapMarks f))
  | .classDecl name superclass methods =>
    .classDecl name (superclass.map (·.mapMark f)) (FunctionDecl.mapMarksAll f methods)

/-- Gives every reference of the function a new mark. -/
def FunctionDecl.mapMarks (f : String → ρ → σ) : FunctionDecl ρ → FunctionDecl σ
  | ⟨name, params, body⟩ => ⟨name, params, Stmt.mapMarksAll f body⟩

/-- Gives every reference of the statements a new mark. -/
def Stmt.mapMarksAll (f : String → ρ → σ) : List (Stmt ρ) → List (Stmt σ)
  | [] => []
  | s :: ss => s.mapMarks f :: Stmt.mapMarksAll f ss

/-- Gives every reference of the functions a new mark. -/
def FunctionDecl.mapMarksAll (f : String → ρ → σ) : List (FunctionDecl ρ) → List (FunctionDecl σ)
  | [] => []
  | d :: ds => d.mapMarks f :: FunctionDecl.mapMarksAll f ds

end

mutual

/-- The marks of the expression, from left to right. -/
def Expr.marks : Expr ρ → List ρ
  | .literal _ => []
  | .grouping inner => inner.marks
  | .unary _ _ operand => operand.marks
  | .binary _ _ left right => left.marks ++ right.marks
  | .logical _ left right => left.marks ++ right.marks
  | .variable target => [target.mark]
  | .assign target value => target.mark :: value.marks
  | .call callee _ arguments => callee.marks ++ Expr.marksAll arguments
  | .get object _ => object.marks
  | .set object _ value => object.marks ++ value.marks
  | .this _ mark => [mark]
  | .super _ mark _ => [mark]

/-- The marks of the expressions. -/
def Expr.marksAll : List (Expr ρ) → List ρ
  | [] => []
  | e :: es => e.marks ++ Expr.marksAll es

end

/-- The marks of an expression that may be missing. -/
def Expr.marks? : Option (Expr ρ) → List ρ
  | none => []
  | some e => e.marks

mutual

/-- The marks of the statement, from left to right. -/
def Stmt.marks : Stmt ρ → List ρ
  | .expression value => value.marks
  | .print value => value.marks
  | .declare _ initializer => Expr.marks? initializer
  | .block body => Stmt.marksAll body
  | .conditional condition thenBranch none => condition.marks ++ thenBranch.marks
  | .conditional condition thenBranch (some elseBranch) =>
    condition.marks ++ thenBranch.marks ++ elseBranch.marks
  | .loop condition body => condition.marks ++ body.marks
  | .function declaration => declaration.marks
  | .ret _ value => Expr.marks? value
  | .classDecl _ none methods => FunctionDecl.marksAll methods
  | .classDecl _ (some superclass) methods => superclass.mark :: FunctionDecl.marksAll methods

/-- The marks of the function's body. -/
def FunctionDecl.marks : FunctionDecl ρ → List ρ
  | ⟨_, _, body⟩ => Stmt.marksAll body

/-- The marks of the statements. -/
def Stmt.marksAll : List (Stmt ρ) → List ρ
  | [] => []
  | s :: ss => s.marks ++ Stmt.marksAll ss

/-- The marks of the functions. -/
def FunctionDecl.marksAll : List (FunctionDecl ρ) → List ρ
  | [] => []
  | d :: ds => d.marks ++ FunctionDecl.marksAll ds

end

end Lox
