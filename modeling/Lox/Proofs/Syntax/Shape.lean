import Lox.Syntax.Marks

/-!
# The shape of parsed trees

Every name of a parsed tree is the text of a token, and no branch of a conditional and no body of a
loop is itself a declaration. `Shaped allowed` says both, for names that are `allowed`.
-/

namespace Lox

variable {ρ : Type}

mutual

/-- All names of the expression are allowed. -/
def Expr.Shaped (allowed : String → Prop) : Expr ρ → Prop
  | .literal _ => True
  | .grouping inner => inner.Shaped allowed
  | .unary _ _ operand => operand.Shaped allowed
  | .binary _ _ left right => left.Shaped allowed ∧ right.Shaped allowed
  | .logical _ left right => left.Shaped allowed ∧ right.Shaped allowed
  | .variable target => allowed target.name.text
  | .assign target value => allowed target.name.text ∧ value.Shaped allowed
  | .call callee _ arguments => callee.Shaped allowed ∧ Expr.ShapedAll allowed arguments
  | .get object property => object.Shaped allowed ∧ allowed property.text
  | .set object property value =>
    object.Shaped allowed ∧ allowed property.text ∧ value.Shaped allowed
  | .this _ _ => True
  | .super _ _ method => allowed method.text

/-- All names of the expressions are allowed. -/
def Expr.ShapedAll (allowed : String → Prop) : List (Expr ρ) → Prop
  | [] => True
  | e :: es => e.Shaped allowed ∧ Expr.ShapedAll allowed es

end

/-- All names of an expression that may be missing are allowed. -/
def Expr.Shaped? (allowed : String → Prop) : Option (Expr ρ) → Prop
  | none => True
  | some e => e.Shaped allowed

/-- The statement binds a name in the scope that it stands in. -/
def Stmt.isDeclaration : Stmt ρ → Bool
  | .declare .. | .function _ | .classDecl .. => true
  | .expression _ | .print _ | .block _ | .conditional .. | .loop .. | .ret .. => false

mutual

/-- All names of the statement are allowed, and no branch or body of a loop is a declaration. -/
def Stmt.Shaped (allowed : String → Prop) : Stmt ρ → Prop
  | .expression value => value.Shaped allowed
  | .print value => value.Shaped allowed
  | .declare name initializer => allowed name.text ∧ Expr.Shaped? allowed initializer
  | .block body => Stmt.ShapedAll allowed body
  | .conditional condition thenBranch none =>
    condition.Shaped allowed ∧ thenBranch.isDeclaration = false ∧ thenBranch.Shaped allowed
  | .conditional condition thenBranch (some elseBranch) =>
    condition.Shaped allowed ∧ (thenBranch.isDeclaration = false ∧ thenBranch.Shaped allowed) ∧
      elseBranch.isDeclaration = false ∧ elseBranch.Shaped allowed
  | .loop condition body =>
    condition.Shaped allowed ∧ body.isDeclaration = false ∧ body.Shaped allowed
  | .function declaration => declaration.Shaped allowed
  | .ret _ value => Expr.Shaped? allowed value
  | .classDecl name superclass methods =>
    allowed name.text ∧ (∀ r ∈ superclass, allowed r.name.text) ∧
      FunctionDecl.ShapedAll allowed methods

/-- All names of the function are allowed, and no branch or body of a loop in it is a
declaration. -/
def FunctionDecl.Shaped (allowed : String → Prop) : FunctionDecl ρ → Prop
  | ⟨name, params, body⟩ =>
    allowed name.text ∧ (∀ p ∈ params, allowed p.text) ∧ Stmt.ShapedAll allowed body

/-- All of the statements are shaped. -/
def Stmt.ShapedAll (allowed : String → Prop) : List (Stmt ρ) → Prop
  | [] => True
  | s :: ss => s.Shaped allowed ∧ Stmt.ShapedAll allowed ss

/-- All of the functions are shaped. -/
def FunctionDecl.ShapedAll (allowed : String → Prop) : List (FunctionDecl ρ) → Prop
  | [] => True
  | d :: ds => d.Shaped allowed ∧ FunctionDecl.ShapedAll allowed ds

end

variable {allowed : String → Prop}

theorem Expr.shapedAll_iff {es : List (Expr ρ)} :
    Expr.ShapedAll allowed es ↔ ∀ e ∈ es, e.Shaped allowed := by
  induction es with
  | nil => simp [Expr.ShapedAll]
  | cons e es ih => simp [Expr.ShapedAll, ih]

theorem Stmt.shapedAll_iff {ss : List (Stmt ρ)} :
    Stmt.ShapedAll allowed ss ↔ ∀ s ∈ ss, s.Shaped allowed := by
  induction ss with
  | nil => simp [Stmt.ShapedAll]
  | cons s ss ih => simp [Stmt.ShapedAll, ih]

theorem FunctionDecl.shapedAll_iff {ds : List (FunctionDecl ρ)} :
    FunctionDecl.ShapedAll allowed ds ↔ ∀ d ∈ ds, d.Shaped allowed := by
  induction ds with
  | nil => simp [FunctionDecl.ShapedAll]
  | cons d ds ih => simp [FunctionDecl.ShapedAll, ih]

/-- Which statements are declarations does not depend on their marks. -/
theorem Stmt.isDeclaration_mapMarks {σ : Type} (f : String → ρ → σ) (s : Stmt ρ) :
    (s.mapMarks f).isDeclaration = s.isDeclaration := by
  match s with
  | .conditional _ _ none | .conditional _ _ (some _) => rfl
  | .expression _ | .print _ | .declare .. | .block _ | .loop .. | .function _ | .ret ..
  | .classDecl .. => rfl

end Lox
