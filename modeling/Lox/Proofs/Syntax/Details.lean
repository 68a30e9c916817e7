import Lox.Proofs.Syntax.Shape

/-!
# The details of trees

The details of a tree are what stands at its nodes, apart from how these hang together: the
references and other names, the literals, how long the lists of parameters and arguments are, and
whether a branch or the body of a loop is a declaration.
-/

namespace Lox

variable {ρ : Type}

/-- What a reference is written as. -/
inductive RefSort where
  | variable | this | super
  deriving DecidableEq, Repr

/-- What stands at a node. -/
inductive Detail (ρ : Type) where
  /-- A branch of a conditional or the body of a loop. -/
  | branch (isDeclaration : Bool)
  | reference (sort : RefSort) (target : Reference ρ)
  /-- A name that is no reference: of what is declared, of a property or of a method. -/
  | name (name : Name)
  /-- Parameters or arguments. -/
  | list (size : Nat)
  | literal (value : Literal)

mutual

@[simp, grind =] def Expr.details : Expr ρ → List (Detail ρ)
  | .literal value => [.literal value]
  | .grouping inner => inner.details
  | .unary _ _ operand => operand.details
  | .binary _ _ left right | .logical _ left right => left.details ++ right.details
  | .variable target => [.reference .variable target]
  | .assign target value => .reference .variable target :: value.details
  | .call callee _ arguments =>
    .list arguments.length :: callee.details ++ Expr.detailsAll arguments
  | .get object property => .name property :: object.details
  | .set object property value => .name property :: object.details ++ value.details
  | .this line mark => [.reference .this ⟨⟨thisName, line⟩, mark⟩]
  | .super line mark method => [.reference .super ⟨⟨superName, line⟩, mark⟩, .name method]

@[simp, grind =] def Expr.detailsAll : List (Expr ρ) → List (Detail ρ)
  | [] => []
  | e :: es => e.details ++ Expr.detailsAll es

end

/-- The expression is an assignment to a variable. -/
def Expr.isAssign : Expr ρ → Bool
  | .assign .. => true
  | _ => false

@[simp, grind =] def Expr.details? : Option (Expr ρ) → List (Detail ρ)
  | none => []
  | some e => e.details

mutual

@[simp, grind =] def Stmt.details : Stmt ρ → List (Detail ρ)
  | .expression value | .print value => value.details
  | .declare name initializer => .name name :: Expr.details? initializer
  | .block body => Stmt.detailsAll body
  | .conditional condition thenBranch none =>
    .branch thenBranch.isDeclaration :: condition.details ++ thenBranch.details
  | .conditional condition thenBranch (some elseBranch) =>
    .branch thenBranch.isDeclaration :: .branch elseBranch.isDeclaration ::
      condition.details ++ thenBranch.details ++ elseBranch.details
  | .loop condition body => .branch body.isDeclaration :: condition.details ++ body.details
  | .function declaration => declaration.details
  | .ret _ value => Expr.details? value
  | .classDecl name superclass methods =>
    .name name :: superclass.toList.map (.reference .variable) ++ FunctionDecl.detailsAll methods

@[simp, grind =] def FunctionDecl.details : FunctionDecl ρ → List (Detail ρ)
  | ⟨name, params, body⟩ =>
    .name name :: .list params.length :: params.map .name ++ Stmt.detailsAll body

@[simp, grind =] def Stmt.detailsAll : List (Stmt ρ) → List (Detail ρ)
  | [] => []
  | s :: ss => s.details ++ Stmt.detailsAll ss

@[simp, grind =] def FunctionDecl.detailsAll : List (FunctionDecl ρ) → List (Detail ρ)
  | [] => []
  | d :: ds => d.details ++ FunctionDecl.detailsAll ds

end

/-- The details of a statement that is a branch or the body of a loop. -/
def Stmt.branchDetails (s : Stmt ρ) : List (Detail ρ) := .branch s.isDeclaration :: s.details

variable {x : Detail ρ}

theorem Expr.mem_detailsAll {es : List (Expr ρ)} :
    x ∈ Expr.detailsAll es ↔ ∃ e ∈ es, x ∈ e.details := by
  induction es with
  | nil => simp [Expr.detailsAll]
  | cons e es ih => simp [Expr.detailsAll, ih]

@[simp, grind =] theorem Expr.mem_detailsAll_reverse {es : List (Expr ρ)} :
    x ∈ Expr.detailsAll es.reverse ↔ x ∈ Expr.detailsAll es := by
  simp [Expr.mem_detailsAll]

theorem Stmt.mem_detailsAll {ss : List (Stmt ρ)} :
    x ∈ Stmt.detailsAll ss ↔ ∃ s ∈ ss, x ∈ s.details := by
  induction ss with
  | nil => simp [Stmt.detailsAll]
  | cons s ss ih => simp [Stmt.detailsAll, ih]

@[simp, grind =] theorem Stmt.mem_detailsAll_reverse {ss : List (Stmt ρ)} :
    x ∈ Stmt.detailsAll ss.reverse ↔ x ∈ Stmt.detailsAll ss := by
  simp [Stmt.mem_detailsAll]

theorem FunctionDecl.mem_detailsAll {ds : List (FunctionDecl ρ)} :
    x ∈ FunctionDecl.detailsAll ds ↔ ∃ d ∈ ds, x ∈ d.details := by
  induction ds with
  | nil => simp [FunctionDecl.detailsAll]
  | cons d ds ih => simp [FunctionDecl.detailsAll, ih]

@[simp, grind =] theorem FunctionDecl.mem_detailsAll_reverse {ds : List (FunctionDecl ρ)} :
    x ∈ FunctionDecl.detailsAll ds.reverse ↔ x ∈ FunctionDecl.detailsAll ds := by
  simp [FunctionDecl.mem_detailsAll]

end Lox
