import Lox.Scope.Violations
import Lox.Token.Basic

/-!
# Other lines

`mapLines f` puts what stands on a line on the line that `f` says. What is wrong with a tree does not
depend on its lines, and neither do the scopes behind a statement.
-/

namespace Lox

variable {ρ : Type} (f : Nat → Nat)

def Token.mapLine (t : Token) : Token := { t with line := f t.line }

def Name.mapLine (n : Name) : Name := { n with line := f n.line }

def Reference.mapLine (r : Reference ρ) : Reference ρ := { r with name := r.name.mapLine f }

def Violation.mapLine (v : Violation) : Violation := { v with line := f v.line }

@[simp] theorem Token.isEnd_mapLine (t : Token) : (t.mapLine f).isEnd = t.isEnd := rfl

@[simp] theorem Name.text_mapLine (n : Name) : (n.mapLine f).text = n.text := rfl

mutual

/-- Puts the expression on other lines. -/
def Expr.mapLines : Expr ρ → Expr ρ
  | .literal value => .literal value
  | .grouping inner => .grouping inner.mapLines
  | .unary op line operand => .unary op (f line) operand.mapLines
  | .binary op line left right => .binary op (f line) left.mapLines right.mapLines
  | .logical op left right => .logical op left.mapLines right.mapLines
  | .variable target => .variable (target.mapLine f)
  | .assign target value => .assign (target.mapLine f) value.mapLines
  | .call callee line arguments => .call callee.mapLines (f line) (Expr.mapLinesAll arguments)
  | .get object property => .get object.mapLines (property.mapLine f)
  | .set object property value => .set object.mapLines (property.mapLine f) value.mapLines
  | .this line mark => .this (f line) mark
  | .super line mark method => .super (f line) mark (method.mapLine f)

/-- Puts the expressions on other lines. -/
def Expr.mapLinesAll : List (Expr ρ) → List (Expr ρ)
  | [] => []
  | e :: es => e.mapLines :: Expr.mapLinesAll es

end

mutual

/-- Puts the statement on other lines. -/
def Stmt.mapLines : Stmt ρ → Stmt ρ
  | .expression value => .expression (value.mapLines f)
  | .print value => .print (value.mapLines f)
  | .declare name initializer => .declare (name.mapLine f) (initializer.map (·.mapLines f))
  | .block body => .block (Stmt.mapLinesAll body)
  | .conditional condition thenBranch none =>
    .conditional (condition.mapLines f) thenBranch.mapLines none
  | .conditional condition thenBranch (some elseBranch) =>
    .conditional (condition.mapLines f) thenBranch.mapLines (some elseBranch.mapLines)
  | .loop condition body => .loop (condition.mapLines f) body.mapLines
  | .function declaration => .function declaration.mapLines
  | .ret line value => .ret (f line) (value.map (·.mapLines f))
  | .classDecl name superclass methods =>
    .classDecl (name.mapLine f) (superclass.map (·.mapLine f)) (FunctionDecl.mapLinesAll methods)

/-- Puts the function on other lines. -/
def FunctionDecl.mapLines : FunctionDecl ρ → FunctionDecl ρ
  | ⟨name, params, body⟩ => ⟨name.mapLine f, params.map (·.mapLine f), Stmt.mapLinesAll body⟩

/-- Puts the statements on other lines. -/
def Stmt.mapLinesAll : List (Stmt ρ) → List (Stmt ρ)
  | [] => []
  | s :: ss => s.mapLines :: Stmt.mapLinesAll ss

/-- Puts the functions on other lines. -/
def FunctionDecl.mapLinesAll : List (FunctionDecl ρ) → List (FunctionDecl ρ)
  | [] => []
  | d :: ds => d.mapLines :: FunctionDecl.mapLinesAll ds

end

@[simp] theorem Expr.length_mapLinesAll (es : List (Expr ρ)) :
    (Expr.mapLinesAll f es).length = es.length := by
  induction es with
  | nil => rfl
  | cons e es ih => simp [Expr.mapLinesAll, ih]

/-! ## Scopes -/

/-- The scopes behind a statement do not depend on its lines. -/
theorem Stmt.scopesAfter_mapLines (scopes : Scopes) :
    ∀ s : Stmt ρ, (s.mapLines f).scopesAfter scopes = s.scopesAfter scopes
  | .expression _ | .print _ | .declare .. | .block _ | .ret .. | .classDecl .. => rfl
  | .function ⟨_, _, _⟩ => rfl
  | .conditional _ t none => t.scopesAfter_mapLines scopes
  | .conditional _ t (some e) => by
    simp only [Stmt.mapLines, Stmt.scopesAfter]
    rw [t.scopesAfter_mapLines, e.scopesAfter_mapLines]
  | .loop _ b => b.scopesAfter_mapLines scopes

theorem Scopes.enterFunction_mapLine (scopes : Scopes) (params : List Name) :
    scopes.enterFunction (params.map (·.mapLine f)) = scopes.enterFunction params := by
  simp only [Scopes.enterFunction, List.foldl_map, Name.text_mapLine]

theorem Context.inFunction_mapLine (c : Context) (params : List Name) :
    c.inFunction (params.map (·.mapLine f)) = c.inFunction params := by
  simp only [Context.inFunction, Scopes.enterFunction_mapLine]

theorem Context.inMethod_mapLine (c : Context) (name : Name) (params : List Name) :
    c.inMethod (name.mapLine f) (params.map (·.mapLine f)) = c.inMethod name params := by
  unfold Context.inMethod
  rw [Scopes.enterFunction_mapLine]
  rfl

theorem Context.inClass_mapLine (c : Context) (superclass : Option (Reference ρ)) :
    c.inClass (superclass.map (·.mapLine f)) = c.inClass superclass := by
  cases superclass <;> rfl

/-! ## Violations -/

theorem violationIf_mapLine (condition : Bool) (cause : ScopeCause) (line : Nat) :
    violationIf condition cause (f line) =
      (violationIf condition cause line).map (·.mapLine f) := by
  cases condition <;> rfl

theorem redeclaration_mapLine (scopes : Scopes) (name : Name) :
    redeclaration scopes (name.mapLine f) = (redeclaration scopes name).map (·.mapLine f) :=
  violationIf_mapLine f _ _ _

theorem paramViolations_mapLine (scopes : Scopes) (params : List Name) :
    paramViolations scopes (params.map (·.mapLine f)) =
      (paramViolations scopes params).map (·.mapLine f) := by
  induction params generalizing scopes with
  | nil => rfl
  | cons p ps ih =>
    simp only [List.map_cons, paramViolations, List.map_append, redeclaration_mapLine,
      Name.text_mapLine, ih]

theorem selfInheritance_mapLine (name : Name) (superclass : Option (Reference ρ)) :
    selfInheritance (name.mapLine f) (superclass.map (·.mapLine f)) =
      (selfInheritance name superclass).map (·.mapLine f) := by
  cases superclass with
  | none => rfl
  | some r => exact violationIf_mapLine f _ _ _

mutual

theorem Expr.violations_mapLines (c : Context) :
    ∀ e : Expr ρ, (e.mapLines f).violations c = (e.violations c).map (·.mapLine f)
  | .literal _ => rfl
  | .variable _ | .this _ _ => violationIf_mapLine f _ _ _
  | .super _ _ _ => by
    simp only [Expr.mapLines, Expr.violations]
    cases c.classContext <;> rfl
  | .grouping e | .unary _ _ e | .get e _ => e.violations_mapLines c
  | .binary _ _ l r | .logical _ l r => by
    simp only [Expr.mapLines, Expr.violations, List.map_append, l.violations_mapLines,
      r.violations_mapLines]
  | .assign _ value => value.violations_mapLines c
  | .call callee _ arguments => by
    simp only [Expr.mapLines, Expr.violations, List.map_append, callee.violations_mapLines,
      Expr.violationsAll_mapLines c arguments]
  | .set object _ value => by
    simp only [Expr.mapLines, Expr.violations, List.map_append, object.violations_mapLines,
      value.violations_mapLines]

theorem Expr.violationsAll_mapLines (c : Context) : ∀ es : List (Expr ρ),
    Expr.violationsAll c (Expr.mapLinesAll f es) = (Expr.violationsAll c es).map (·.mapLine f)
  | [] => rfl
  | e :: es => by
    simp only [Expr.mapLinesAll, Expr.violationsAll, List.map_append, e.violations_mapLines,
      Expr.violationsAll_mapLines c es]

end

theorem Expr.violations?_mapLines (c : Context) (e? : Option (Expr ρ)) :
    Expr.violations? c (e?.map (·.mapLines f)) = (Expr.violations? c e?).map (·.mapLine f) := by
  cases e? with
  | none => rfl
  | some e => exact e.violations_mapLines f c

theorem returnViolations_mapLines (c : Context) (line : Nat) (value : Option (Expr ρ)) :
    returnViolations c (f line) (value.map (·.mapLines f)) =
      (returnViolations c line value).map (·.mapLine f) := by
  have same : (value.map (·.mapLines f)).isSome = value.isSome := Option.isSome_map
  simp only [returnViolations, same, List.map_append, violationIf_mapLine]

mutual

/-- What is wrong with a tree is wrong with it on other lines. -/
theorem Stmt.violations_mapLines : ∀ (c : Context) (s : Stmt ρ),
    (s.mapLines f).violations c = (s.violations c).map (·.mapLine f)
  | c, .expression e | c, .print e => e.violations_mapLines f c
  | c, .declare name e? => by
    simp only [Stmt.mapLines, Stmt.violations, List.map_append, redeclaration_mapLine,
      Name.text_mapLine, Expr.violations?_mapLines]
  | c, .block body => Stmt.violationsAll_mapLines _ body
  | c, .conditional e t none => by
    simp only [Stmt.mapLines, Stmt.violations, List.map_append, e.violations_mapLines,
      t.violations_mapLines c]
  | c, .conditional e t (some t') => by
    simp only [Stmt.mapLines, Stmt.violations, List.map_append, e.violations_mapLines,
      t.violations_mapLines c, Stmt.scopesAfter_mapLines, t'.violations_mapLines _]
  | c, .loop e b => by
    simp only [Stmt.mapLines, Stmt.violations, List.map_append, e.violations_mapLines,
      b.violations_mapLines c]
  | c, .function ⟨name, params, body⟩ => by
    simp only [Stmt.mapLines, FunctionDecl.mapLines, Stmt.violations, List.map_append,
      redeclaration_mapLine, paramViolations_mapLine, Context.inFunction_mapLine,
      Name.text_mapLine, Stmt.violationsAll_mapLines _ body]
  | c, .ret line e? => by
    simp only [Stmt.mapLines, Stmt.violations, List.map_append, returnViolations_mapLines,
      Expr.violations?_mapLines]
  | c, .classDecl name superclass methods => by
    simp only [Stmt.mapLines, Stmt.violations, List.map_append, redeclaration_mapLine,
      selfInheritance_mapLine, Context.inClass_mapLine, Name.text_mapLine,
      FunctionDecl.violationsAll_mapLines _ methods]

theorem Stmt.violationsAll_mapLines : ∀ (c : Context) (ss : List (Stmt ρ)),
    Stmt.violationsAll c (Stmt.mapLinesAll f ss) = (Stmt.violationsAll c ss).map (·.mapLine f)
  | _, [] => rfl
  | c, s :: ss => by
    simp only [Stmt.mapLinesAll, Stmt.violationsAll, List.map_append, s.violations_mapLines c,
      Stmt.scopesAfter_mapLines, Stmt.violationsAll_mapLines _ ss]

theorem FunctionDecl.violationsAll_mapLines : ∀ (c : Context) (ds : List (FunctionDecl ρ)),
    FunctionDecl.violationsAll c (FunctionDecl.mapLinesAll f ds) =
      (FunctionDecl.violationsAll c ds).map (·.mapLine f)
  | _, [] => rfl
  | c, ⟨name, params, body⟩ :: ds => by
    simp only [FunctionDecl.mapLinesAll, FunctionDecl.mapLines, FunctionDecl.violationsAll,
      FunctionDecl.violations, List.map_append, paramViolations_mapLine, Context.inMethod_mapLine,
      Stmt.violationsAll_mapLines _ body, FunctionDecl.violationsAll_mapLines c ds]

end

end Lox
