import Lox.Proofs.Outline.Programs

/-!
# Violations in outlines

What is wrong with a node is told by its context alone. The walk lists it node by node, and resolution
lists the same violations, if not always in the same order.
-/

namespace Lox

variable {ρ : Type}

/-- What is wrong with a node in this context. -/
def Label.violations (c : Context) : Label ρ → List Violation
  | .read target =>
    violationIf (c.scopes.isUnfinished target.name.text) (.readInInitializer target.name.text)
      target.name.line
  | .this line _ => violationIf (c.classContext == .outside) .thisOutside line
  | .super line _ =>
    violationIf (c.classContext == .outside) .superOutside line ++
      violationIf (c.classContext == .base) .superWithoutSuperclass line
  | .ret line hasValue =>
    violationIf (c.function == .outside) .returnOutside line ++
      violationIf (hasValue && c.function == .initializer) .returnFromInitializer line
  | .variable name | .function name | .parameter name | .classDecl name none =>
    redeclaration c.scopes name
  | .classDecl name (some superclass) =>
    redeclaration c.scopes name ++
      violationIf (superclass.text == name.text) .inheritsItself superclass.line
  | .operation | .store _ | .statement | .inherits _ | .scope | .body _ | .implicit _ => []

mutual

/-- What is wrong in an outline that the walk comes to in this context. -/
def Outline.violations (c : Context) : Outline ρ → List Violation
  | .node label parts => label.violations c ++ Outline.violationsAll (label.inside c) parts

def Outline.violationsAll (c : Context) : List (Outline ρ) → List Violation
  | [] => []
  | o :: os => o.violations c ++ Outline.violationsAll (c.behind [o]) os

end

namespace Outline

variable {o : Outline ρ} {os : List (Outline ρ)} {label : Label ρ} {c : Context}

mutual

/-- The walk lists what is wrong at the nodes that it visits. -/
theorem violations_eq_visits :
    ∀ (o : Outline ρ) (c : Context),
      o.violations c = (o.visits c).flatMap fun v => v.label.violations v.context
  | .node label parts, c => by
    rw [violations, visits, List.flatMap_cons, violationsAll_eq_visits parts 0]

theorem violationsAll_eq_visits :
    ∀ (os : List (Outline ρ)) (i : Nat) (c : Context),
      violationsAll c os = (visitsAll i c os).flatMap fun v => v.label.violations v.context
  | [], _, _ => rfl
  | o :: os, i, c => by
    rw [violationsAll, visitsAll, List.flatMap_append, List.flatMap_map,
      violationsAll_eq_visits os (i + 1), violations_eq_visits o]
    rfl

end

theorem violationsAll_append :
    ∀ (os os' : List (Outline ρ)) (c : Context),
      violationsAll c (os ++ os') = violationsAll c os ++ violationsAll (c.behind os) os'
  | [], _, _ => rfl
  | o :: os, os', c => by
    rw [List.cons_append, violationsAll, violationsAll_append os, violationsAll, List.append_assoc]
    rfl

theorem violationsAll_parameters (params : List Name) :
    ∀ c : Context,
      violationsAll c (parameters params : List (Outline ρ)) = paramViolations c.scopes params := by
  induction params with
  | nil => exact fun _ => rfl
  | cons p ps ih =>
    intro c
    have first : (node (.parameter p) [] : Outline ρ).violations c = redeclaration c.scopes p :=
      List.append_nil _
    have rest := ih (c.within (c.scopes.define p.text))
    exact congrArg₂ (· ++ ·) first rest

theorem violations_holding (name : String) (parts : List (Outline ρ)) (c : Context) :
    (holding name parts).violations c =
      violationsAll (c.within (c.scopes.enterWith name)) parts := rfl

theorem violationsAll_singleton (c : Context) (o : Outline ρ) :
    violationsAll c [o] = o.violations c :=
  List.append_nil _

/-- What follows an expression has the same context. -/
theorem violationsAll_cons (expression : o.IsExpression) (c : Context) (os : List (Outline ρ)) :
    violationsAll c (o :: os) = o.violations c ++ violationsAll c os := by
  have single : AllExpressions [o] := ⟨expression, trivial⟩
  rw [violationsAll, single.behind]

theorem violations_operation (c : Context) (parts : List (Outline ρ)) :
    (node .operation parts).violations c = violationsAll c parts := rfl

theorem violations_statement (c : Context) (parts : List (Outline ρ)) :
    (node .statement parts).violations c = violationsAll c parts := rfl

theorem violations_store (c : Context) (target : Reference ρ) (parts : List (Outline ρ)) :
    (node (.store target) parts).violations c = violationsAll c parts := rfl

end Outline

/-! ## The violations of a program -/

mutual

/-- Resolution looks at a value before the object that it is stored in, the walk after it. -/
theorem Expr.violations_outline (c : Context) :
    ∀ e : Expr ρ, (e.violations c).Perm (e.outline.violations c)
  | .literal _ => .nil
  | .variable target => by
    rw [Expr.outline, Outline.violations, Outline.violationsAll, List.append_nil]
    exact .refl _
  | .this line mark => by
    rw [Expr.outline, Outline.violations, Outline.violationsAll, List.append_nil]
    exact .refl _
  | .super line mark method => by
    rw [Expr.outline, Outline.violations, Outline.violationsAll, List.append_nil, Expr.violations,
      Label.violations]
    cases c.classContext <;> exact .refl _
  | .grouping e | .unary _ _ e | .get e _ => by
    rw [Expr.outline, Outline.violations_operation, Outline.violationsAll_singleton]
    exact e.violations_outline c
  | .assign target e => by
    rw [Expr.outline, Outline.violations_store, Outline.violationsAll_singleton]
    exact e.violations_outline c
  | .binary _ _ l r | .logical _ l r => by
    rw [Expr.outline, Outline.violations_operation,
      Outline.violationsAll_cons l.outline_isExpression, Outline.violationsAll_singleton]
    exact (l.violations_outline c).append (r.violations_outline c)
  | .set object _ value => by
    rw [Expr.outline, Outline.violations_operation,
      Outline.violationsAll_cons object.outline_isExpression, Outline.violationsAll_singleton]
    exact List.perm_append_comm.trans
      ((object.violations_outline c).append (value.violations_outline c))
  | .call callee _ arguments => by
    rw [Expr.outline, Outline.violations_operation,
      Outline.violationsAll_cons callee.outline_isExpression]
    exact (callee.violations_outline c).append (Expr.violationsAll_outline c arguments)

theorem Expr.violationsAll_outline (c : Context) :
    ∀ es : List (Expr ρ),
      (Expr.violationsAll c es).Perm (Outline.violationsAll c (Expr.outlineAll es))
  | [] => .nil
  | e :: es => by
    rw [Expr.outlineAll, Outline.violationsAll_cons e.outline_isExpression]
    exact (e.violations_outline c).append (Expr.violationsAll_outline c es)

end

theorem Expr.violations?_outline (c : Context) (e? : Option (Expr ρ)) :
    (Expr.violations? c e?).Perm (Outline.violationsAll c (Expr.outline? e?)) := by
  cases e? with
  | none => exact .nil
  | some e =>
    rw [Expr.outline?, Outline.violationsAll_singleton]
    exact e.violations_outline c

/-- The context of the statements of a function or a method. -/
def Context.inBody (c : Context) (isInitializer : Bool) (params : List Name) : Context :=
  { c with
    function := .ofBody isInitializer
    scopes := c.scopes.enterFunction params }

theorem Outline.behind_parameters (c : Context) (isInitializer : Bool) (params : List Name) :
    ((Label.body isInitializer : Label ρ).inside c).behind
      (Outline.parameters params : List (Outline ρ)) = c.inBody isInitializer params := by
  rw [Context.behind, Outline.scopesAfter_parameters]
  rfl

theorem Stmt.behind_outline (s : Stmt ρ) (c : Context) :
    c.behind [s.outline] = c.within (s.scopesAfter c.scopes) := by
  rw [← s.scopesAfter_outline]
  rfl

mutual

theorem Stmt.violations_outline :
    ∀ (s : Stmt ρ) (c : Context), (s.violations c).Perm (s.outline.violations c)
  | .expression e, c | .print e, c => by
    rw [Stmt.outline, Outline.violations_statement, Outline.violationsAll_singleton]
    exact e.violations_outline c
  | .declare name e?, c => .append_left _ (Expr.violations?_outline _ e?)
  | .block body, c => Stmt.violationsAll_outline body _
  | .conditional cond t none, c => by
    rw [Stmt.outline, Outline.violations_statement,
      Outline.violationsAll_cons cond.outline_isExpression, Outline.violationsAll_singleton]
    exact (cond.violations_outline c).append (t.violations_outline c)
  | .conditional cond t (some e), c => by
    rw [Stmt.outline, Outline.violations_statement,
      Outline.violationsAll_cons cond.outline_isExpression, Outline.violationsAll, t.behind_outline,
      Outline.violationsAll_singleton, ← List.append_assoc]
    exact ((cond.violations_outline c).append (t.violations_outline c)).append
      (e.violations_outline _)
  | .loop cond b, c => by
    rw [Stmt.outline, Outline.violations_statement,
      Outline.violationsAll_cons cond.outline_isExpression, Outline.violationsAll_singleton]
    exact (cond.violations_outline c).append (b.violations_outline c)
  | .function ⟨name, params, body⟩, c => by
    have inner := FunctionDecl.violations_outline false ⟨name, params, body⟩
      (c.within (c.scopes.define name.text))
    rw [Stmt.outline, Outline.violations, Outline.violationsAll_singleton, Stmt.violations,
      List.append_assoc]
    exact .append_left _ inner
  | .ret line e?, c => .append_left _ (Expr.violations?_outline c e?)
  | .classDecl name none methods, c => by
    rw [Stmt.outline, Outline.violations, Outline.violationsAll_singleton,
      Outline.violations_holding, Stmt.violations, selfInheritance, List.append_nil]
    exact .append_left _ (FunctionDecl.violationsAll_outline methods _)
  | .classDecl name (some superclass) methods, c => by
    rw [Stmt.outline, Outline.violations, Outline.violationsAll, Outline.violationsAll_singleton,
      Outline.violations_holding, Outline.violationsAll_singleton, Outline.violations_holding,
      Stmt.violations, selfInheritance]
    exact .append_left _ (FunctionDecl.violationsAll_outline methods _)

/-- The violations in a function or a method. -/
theorem FunctionDecl.violations_outline (isInitializer : Bool) :
    ∀ (d : FunctionDecl ρ) (c : Context),
      (paramViolations c.scopes.enter d.params ++
        Stmt.violationsAll (c.inBody isInitializer d.params) d.body).Perm
          ((d.outline isInitializer).violations c)
  | ⟨name, params, body⟩, c => by
    rw [FunctionDecl.outline, Outline.violations, Outline.violationsAll_append,
      Outline.violationsAll_parameters, Outline.behind_parameters]
    exact .append_left _ (Stmt.violationsAll_outline body _)

theorem Stmt.violationsAll_outline :
    ∀ (ss : List (Stmt ρ)) (c : Context),
      (Stmt.violationsAll c ss).Perm (Outline.violationsAll c (Stmt.outlineAll ss))
  | [], _ => .nil
  | s :: ss, c => by
    rw [Stmt.outlineAll, Outline.violationsAll, s.behind_outline]
    exact (s.violations_outline c).append (Stmt.violationsAll_outline ss _)

theorem FunctionDecl.violationsAll_outline :
    ∀ (ds : List (FunctionDecl ρ)) (c : Context),
      (FunctionDecl.violationsAll c ds).Perm
        (Outline.violationsAll c (FunctionDecl.outlineAll ds))
  | [], _ => .nil
  | ⟨name, params, body⟩ :: ds, c => by
    have first := FunctionDecl.violations_outline (name.text == initializerName)
      ⟨name, params, body⟩ c
    exact first.append (FunctionDecl.violationsAll_outline ds c)

end

end Lox
