import Lox.Proofs.Syntax.Shape
import Lox.Scope.Violations
import Lox.Session

/-!
# Well-scoped code

`Scoped c` says of code that runs that it may stand where `c` says: its references have the places
that resolution gives them there, nothing in it is misplaced, and it declares and assigns only names
that variables can have. Resolution makes well-scoped code of every program that it accepts.
-/

namespace Lox

/-- The name may be that of a variable. The instance and the superclass of a method go by the names
that remain. -/
def IsVariable (name : String) : Prop := name ≠ thisName ∧ name ≠ superName

/-- The reference has the place that resolution gives it within the scopes. -/
def Reference.Placed (scopes : Scopes) (r : Reference Place) : Prop :=
  r.mark = scopes.place r.name.text

mutual

/-- The expression may stand where the context says. -/
def Expr.Scoped (c : Context) : Expr Place → Prop
  | .literal _ => True
  | .grouping inner => inner.Scoped c
  | .unary _ _ operand => operand.Scoped c
  | .binary _ _ left right => left.Scoped c ∧ right.Scoped c
  | .logical _ left right => left.Scoped c ∧ right.Scoped c
  | .variable target =>
    target.Placed c.scopes ∧ c.scopes.isUnfinished target.name.text = false
  | .assign target value =>
    target.Placed c.scopes ∧ IsVariable target.name.text ∧ value.Scoped c
  | .call callee _ arguments => callee.Scoped c ∧ Expr.ScopedAll c arguments
  | .get object _ => object.Scoped c
  | .set object _ value => object.Scoped c ∧ value.Scoped c
  | .this _ mark => mark = c.scopes.place thisName ∧ c.classContext ≠ .outside
  | .super _ mark _ => mark = c.scopes.place superName ∧ c.classContext = .derived

/-- The expressions may stand where the context says. -/
def Expr.ScopedAll (c : Context) : List (Expr Place) → Prop
  | [] => True
  | e :: es => e.Scoped c ∧ Expr.ScopedAll c es

end

/-- An expression that may be missing may stand where the context says. -/
def Expr.Scoped? (c : Context) : Option (Expr Place) → Prop
  | none => True
  | some e => e.Scoped c

mutual

/-- The statement may stand where the context says. -/
def Stmt.Scoped (c : Context) : Stmt Place → Prop
  | .expression value => value.Scoped c
  | .print value => value.Scoped c
  | .declare name initializer =>
    IsVariable name.text ∧ Expr.Scoped? (c.within (c.scopes.declare name.text)) initializer
  | .block body => Stmt.ScopedAll (c.within c.scopes.enter) body
  | .conditional condition thenBranch none =>
    condition.Scoped c ∧ thenBranch.isDeclaration = false ∧ thenBranch.Scoped c
  | .conditional condition thenBranch (some elseBranch) =>
    condition.Scoped c ∧ (thenBranch.isDeclaration = false ∧ thenBranch.Scoped c) ∧
      elseBranch.isDeclaration = false ∧ elseBranch.Scoped c
  | .loop condition body =>
    condition.Scoped c ∧ body.isDeclaration = false ∧ body.Scoped c
  | .function ⟨name, params, body⟩ =>
    IsVariable name.text ∧ (∀ p ∈ params, IsVariable p.text) ∧
      Stmt.ScopedAll ((c.within (c.scopes.define name.text)).inFunction params) body
  | .ret _ value =>
    c.function ≠ .outside ∧ (value.isSome → c.function ≠ .initializer) ∧ Expr.Scoped? c value
  | .classDecl name superclass methods =>
    IsVariable name.text ∧ (∀ r ∈ superclass, r.Placed (c.scopes.define name.text)) ∧
      FunctionDecl.ScopedAll ((c.within (c.scopes.define name.text)).inClass superclass) methods

/-- The method may stand where the context says. -/
def FunctionDecl.Scoped (c : Context) : FunctionDecl Place → Prop
  | ⟨name, params, body⟩ =>
    (∀ p ∈ params, IsVariable p.text) ∧ Stmt.ScopedAll (c.inMethod name params) body

/-- The statements may follow each other where the context says. -/
def Stmt.ScopedAll (c : Context) : List (Stmt Place) → Prop
  | [] => True
  | s :: ss => s.Scoped c ∧ Stmt.ScopedAll (c.within (s.scopesAfter c.scopes)) ss

/-- The methods may stand where the context says. -/
def FunctionDecl.ScopedAll (c : Context) : List (FunctionDecl Place) → Prop
  | [] => True
  | d :: ds => d.Scoped c ∧ FunctionDecl.ScopedAll c ds

end

theorem FunctionDecl.scopedAll_iff {c : Context} {ds : List (FunctionDecl Place)} :
    FunctionDecl.ScopedAll c ds ↔ ∀ d ∈ ds, d.Scoped c := by
  induction ds with
  | nil => simp [FunctionDecl.ScopedAll]
  | cons d ds ih => simp [FunctionDecl.ScopedAll, ih]

theorem FunctionDecl.Scoped.named {c : Context} :
    ∀ {d : FunctionDecl Place}, d.Scoped c → ∀ p ∈ d.params, IsVariable p.text
  | ⟨_, _, _⟩, h => h.1

@[simp] theorem Context.within_scopes (c : Context) (scopes : Scopes) :
    (c.within scopes).scopes = scopes := rfl

@[simp] theorem Context.within_self (c : Context) : c.within c.scopes = c := rfl

/-! ## Statements that declare nothing -/

variable {ρ : Type}

/-- A statement that is no declaration leaves the scopes as they are. -/
theorem Stmt.Shaped.scopesAfter {allowed : String → Prop} {scopes : Scopes} :
    ∀ {s : Stmt ρ}, s.Shaped allowed → s.isDeclaration = false → s.scopesAfter scopes = scopes
  | .expression _, _, _ | .print _, _, _ | .block _, _, _ | .ret _ _, _, _ => rfl
  | .declare .., _, h | .function _, _, h | .classDecl .., _, h => by simp [isDeclaration] at h
  | .conditional _ _ none, ⟨_, ht, st⟩, _ => st.scopesAfter ht
  | .conditional _ _ (some _), ⟨_, ⟨ht, st⟩, he, se⟩, _ => by
    simp only [Stmt.scopesAfter]
    rw [st.scopesAfter ht, se.scopesAfter he]
  | .loop _ _, ⟨_, hb, sb⟩, _ => sb.scopesAfter hb

/-- A well-scoped statement that is no declaration leaves the scopes as they are. -/
theorem Stmt.Scoped.scopesAfter {c : Context} {scopes : Scopes} :
    ∀ {s : Stmt Place}, s.Scoped c → s.isDeclaration = false → s.scopesAfter scopes = scopes
  | .expression _, _, _ | .print _, _, _ | .block _, _, _ | .ret _ _, _, _ => rfl
  | .declare .., _, h | .function _, _, h | .classDecl .., _, h => by simp [isDeclaration] at h
  | .conditional _ _ none, ⟨_, ht, st⟩, _ => st.scopesAfter ht
  | .conditional _ _ (some _), ⟨_, ⟨ht, st⟩, he, se⟩, _ => by
    simp only [Stmt.scopesAfter]
    rw [st.scopesAfter ht, se.scopesAfter he]
  | .loop _ _, ⟨_, hb, sb⟩, _ => sb.scopesAfter hb

/-! ## Marks and scopes -/

variable {σ : Type} (f : String → ρ → σ)

/-- The scopes behind a statement do not depend on its marks. -/
theorem Stmt.scopesAfter_mapMarks (scopes : Scopes) :
    ∀ s : Stmt ρ, (s.mapMarks f).scopesAfter scopes = s.scopesAfter scopes
  | .expression _ | .print _ | .declare .. | .block _ | .ret .. | .classDecl .. => rfl
  | .function ⟨_, _, _⟩ => rfl
  | .conditional _ t none => t.scopesAfter_mapMarks scopes
  | .conditional _ t (some e) => by
    simp only [Stmt.mapMarks, Stmt.scopesAfter]
    rw [t.scopesAfter_mapMarks, e.scopesAfter_mapMarks]
  | .loop _ b => b.scopesAfter_mapMarks scopes

theorem Stmt.isDeclaration_locate (scopes : Scopes) (s : Stmt ρ) :
    (s.locate scopes).isDeclaration = s.isDeclaration := by
  match s with
  | .conditional _ _ none | .conditional _ _ (some _) => rfl
  | .expression _ | .print _ | .declare .. | .block _ | .loop .. | .function _ | .ret ..
  | .classDecl .. => rfl

/-- The scopes behind a statement do not depend on its places. -/
theorem Stmt.scopesAfter_locate (scopes : Scopes) :
    ∀ (inner : Scopes) (s : Stmt ρ), (s.locate inner).scopesAfter scopes = s.scopesAfter scopes
  | _, .expression _ | _, .print _ | _, .declare .. | _, .block _ | _, .ret ..
  | _, .classDecl .. => rfl
  | _, .function ⟨_, _, _⟩ => rfl
  | inner, .conditional _ t none => t.scopesAfter_locate scopes inner
  | inner, .conditional _ t (some e) => by
    simp only [Stmt.locate, Stmt.scopesAfter]
    rw [t.scopesAfter_locate, e.scopesAfter_locate]
  | inner, .loop _ b => b.scopesAfter_locate scopes inner

end Lox
