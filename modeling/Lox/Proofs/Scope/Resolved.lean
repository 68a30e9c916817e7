import Lox.Proofs.Scope.Checks
import Lox.Proofs.Scope.Scoped

/-!
# Resolution makes well-scoped code

A program without violations whose names may be those of variables is well-scoped once each of its
references has its place.
-/

namespace Lox

variable {ρ : Type}

/-- The expression as it is evaluated where it stands within the scopes. -/
def Expr.placed (scopes : Scopes) (e : Expr ρ) : Expr Place := runnableExpr (e.locate scopes)

/-- The statement as it runs where it stands within the scopes. -/
def Stmt.placed (scopes : Scopes) (s : Stmt ρ) : Stmt Place :=
  (s.locate scopes).mapMarks fun _ mark => mark.2

/-- The statements as they run where they stand within the scopes. -/
def Stmt.placedAll (scopes : Scopes) (ss : List (Stmt ρ)) : List (Stmt Place) :=
  runnable (Stmt.locateAll scopes ss)

/-- The methods as they run where they stand within the scopes. -/
def FunctionDecl.placedAll (scopes : Scopes) (ds : List (FunctionDecl ρ)) :
    List (FunctionDecl Place) :=
  FunctionDecl.mapMarksAll (fun _ mark => mark.2) (FunctionDecl.locateAll scopes ds)

theorem Stmt.isDeclaration_placed (scopes : Scopes) (s : Stmt ρ) :
    (s.placed scopes).isDeclaration = s.isDeclaration := by
  rw [Stmt.placed, Stmt.isDeclaration_mapMarks, Stmt.isDeclaration_locate]

theorem Stmt.scopesAfter_placed (scopes inner : Scopes) (s : Stmt ρ) :
    (s.placed inner).scopesAfter scopes = s.scopesAfter scopes := by
  rw [Stmt.placed, Stmt.scopesAfter_mapMarks, Stmt.scopesAfter_locate]

theorem violationIf_eq_nil {b : Bool} {cause : ScopeCause} {line : Nat} :
    violationIf b cause line = [] ↔ b = false := by
  cases b <;> simp [violationIf]

mutual

theorem Expr.placed_scoped {c : Context} :
    ∀ {e : Expr ρ}, e.Shaped IsVariable → e.violations c = [] → (e.placed c.scopes).Scoped c
  | .literal _, _, _ => trivial
  | .grouping inner, shaped, ok => Expr.placed_scoped (e := inner) shaped ok
  | .unary _ _ operand, shaped, ok => Expr.placed_scoped (e := operand) shaped ok
  | .binary _ _ left right, shaped, ok => by
    obtain ⟨okLeft, okRight⟩ := List.append_eq_nil_iff.1 ok
    exact ⟨Expr.placed_scoped shaped.1 okLeft, Expr.placed_scoped shaped.2 okRight⟩
  | .logical _ left right, shaped, ok => by
    obtain ⟨okLeft, okRight⟩ := List.append_eq_nil_iff.1 ok
    exact ⟨Expr.placed_scoped shaped.1 okLeft, Expr.placed_scoped shaped.2 okRight⟩
  | .variable _, _, ok => ⟨rfl, violationIf_eq_nil.1 ok⟩
  | .assign _ value, shaped, ok =>
    ⟨rfl, shaped.1, Expr.placed_scoped (e := value) shaped.2 ok⟩
  | .call callee _ arguments, shaped, ok => by
    obtain ⟨okCallee, okArguments⟩ := List.append_eq_nil_iff.1 ok
    exact ⟨Expr.placed_scoped shaped.1 okCallee, Expr.placedAll_scoped shaped.2 okArguments⟩
  | .get object _, shaped, ok => Expr.placed_scoped (e := object) shaped.1 ok
  | .set object _ value, shaped, ok => by
    obtain ⟨okValue, okObject⟩ := List.append_eq_nil_iff.1 ok
    exact ⟨Expr.placed_scoped shaped.1 okObject, Expr.placed_scoped shaped.2.2 okValue⟩
  | .this _ _, _, ok => ⟨rfl, by simpa using violationIf_eq_nil.1 ok⟩
  | .super _ _ _, _, ok => by
    refine ⟨rfl, ?_⟩
    simp only [Expr.violations] at ok
    split at ok
    · simp at ok
    · simp at ok
    · assumption

theorem Expr.placedAll_scoped {c : Context} :
    ∀ {es : List (Expr ρ)}, Expr.ShapedAll IsVariable es → Expr.violationsAll c es = [] →
      Expr.ScopedAll c (Expr.mapMarksAll (fun _ mark => mark.2)
        (Expr.mapMarksAll (fun name mark => (mark, c.scopes.place name)) es))
  | [], _, _ => trivial
  | _ :: _, shaped, ok => by
    obtain ⟨okHead, okTail⟩ := List.append_eq_nil_iff.1 ok
    exact ⟨Expr.placed_scoped shaped.1 okHead, Expr.placedAll_scoped shaped.2 okTail⟩

end

theorem Expr.placed?_scoped {c : Context} {e? : Option (Expr ρ)}
    (shaped : Expr.Shaped? IsVariable e?) (ok : Expr.violations? c e? = []) :
    Expr.Scoped? c (e?.map (·.placed c.scopes)) := by
  cases e? with
  | none => trivial
  | some e => exact Expr.placed_scoped shaped ok

theorem placedSuperclass_isSome (scopes : Scopes) (superclass : Option (Reference ρ)) :
    ((superclass.map (·.locate scopes)).map (·.mapMark fun _ mark => mark.2)).isSome =
      superclass.isSome := by
  cases superclass <;> rfl

theorem Context.inClass_congr {σ : Type} (c : Context) {r : Option (Reference ρ)}
    {r' : Option (Reference σ)} (same : r.isSome = r'.isSome) : c.inClass r = c.inClass r' := by
  cases r <;> cases r' <;> first | rfl | simp at same

mutual

theorem Stmt.placed_scoped {c : Context} :
    ∀ {s : Stmt ρ}, s.Shaped IsVariable → s.violations c = [] → (s.placed c.scopes).Scoped c
  | .expression _, shaped, ok => Expr.placed_scoped shaped ok
  | .print _, shaped, ok => Expr.placed_scoped shaped ok
  | .declare name initializer, shaped, ok => by
    obtain ⟨-, okInitializer⟩ := List.append_eq_nil_iff.1 ok
    refine ⟨shaped.1, ?_⟩
    have standing := Expr.placed?_scoped shaped.2 okInitializer
    cases initializer <;> exact standing
  | .block body, shaped, ok =>
    Stmt.placedAll_scoped (c := c.within c.scopes.enter) shaped ok
  | .conditional condition thenBranch none, shaped, ok => by
    obtain ⟨okCondition, okThen⟩ := List.append_eq_nil_iff.1 ok
    exact ⟨Expr.placed_scoped shaped.1 okCondition,
      (Stmt.isDeclaration_placed _ _).trans shaped.2.1, Stmt.placed_scoped shaped.2.2 okThen⟩
  | .conditional condition thenBranch (some elseBranch), shaped, ok => by
    obtain ⟨okBefore, okElse⟩ := List.append_eq_nil_iff.1 ok
    obtain ⟨okCondition, okThen⟩ := List.append_eq_nil_iff.1 okBefore
    obtain ⟨shapedCondition, ⟨notThen, shapedThen⟩, notElse, shapedElse⟩ := shaped
    -- a branch declares nothing, so the second one stands where the first one does
    have same : thenBranch.scopesAfter c.scopes = c.scopes := shapedThen.scopesAfter notThen
    have elseScoped : (elseBranch.placed (thenBranch.scopesAfter c.scopes)).Scoped c := by
      rw [same] at okElse ⊢
      exact Stmt.placed_scoped shapedElse okElse
    exact ⟨Expr.placed_scoped shapedCondition okCondition,
      ⟨(Stmt.isDeclaration_placed _ _).trans notThen, Stmt.placed_scoped shapedThen okThen⟩,
      (Stmt.isDeclaration_placed _ _).trans notElse, elseScoped⟩
  | .loop condition body, shaped, ok => by
    obtain ⟨okCondition, okBody⟩ := List.append_eq_nil_iff.1 ok
    exact ⟨Expr.placed_scoped shaped.1 okCondition,
      (Stmt.isDeclaration_placed _ _).trans shaped.2.1, Stmt.placed_scoped shaped.2.2 okBody⟩
  | .function ⟨name, params, body⟩, shaped, ok => by
    obtain ⟨-, okBody⟩ := List.append_eq_nil_iff.1 ok
    exact ⟨shaped.1, shaped.2.1, Stmt.placedAll_scoped shaped.2.2 okBody⟩
  | .ret line value, shaped, ok => by
    obtain ⟨okReturn, okValue⟩ := List.append_eq_nil_iff.1 ok
    obtain ⟨inside, plain⟩ := List.append_eq_nil_iff.1 okReturn
    have inside := violationIf_eq_nil.1 inside
    have plain := violationIf_eq_nil.1 plain
    refine ⟨by simpa using inside, fun given => ?_, ?_⟩
    · have given : value.isSome = true := by cases value <;> simp_all
      simpa [given] using plain
    · have standing := Expr.placed?_scoped shaped okValue
      cases value <;> exact standing
  | .classDecl name superclass methods, shaped, ok => by
    obtain ⟨-, okMethods⟩ := List.append_eq_nil_iff.1 ok
    have standing := FunctionDecl.placedAll_scoped shaped.2.2 okMethods
    refine ⟨shaped.1, ?_, ?_⟩
    · intro r hr
      cases superclass with
      | none => cases hr
      | some target => cases hr; rfl
    · rw [Context.inClass_congr _ (placedSuperclass_isSome _ superclass)]
      exact standing

theorem FunctionDecl.placedAll_scoped {c : Context} :
    ∀ {ds : List (FunctionDecl ρ)}, FunctionDecl.ShapedAll IsVariable ds →
      FunctionDecl.violationsAll c ds = [] →
      FunctionDecl.ScopedAll c (FunctionDecl.placedAll c.scopes ds)
  | [], _, _ => trivial
  | ⟨name, params, body⟩ :: ds, shaped, ok => by
    obtain ⟨okHead, okTail⟩ := List.append_eq_nil_iff.1 ok
    obtain ⟨-, okBody⟩ := List.append_eq_nil_iff.1 okHead
    exact ⟨⟨shaped.1.2.1, Stmt.placedAll_scoped (c := c.inMethod name params) shaped.1.2.2 okBody⟩,
      FunctionDecl.placedAll_scoped shaped.2 okTail⟩

theorem Stmt.placedAll_scoped {c : Context} :
    ∀ {ss : List (Stmt ρ)}, Stmt.ShapedAll IsVariable ss → Stmt.violationsAll c ss = [] →
      Stmt.ScopedAll c (Stmt.placedAll c.scopes ss)
  | [], _, _ => trivial
  | s :: ss, shaped, ok => by
    obtain ⟨okHead, okTail⟩ := List.append_eq_nil_iff.1 ok
    refine ⟨Stmt.placed_scoped shaped.1 okHead, ?_⟩
    rw [show Stmt.mapMarks (fun _ mark => mark.2) (s.locate c.scopes) = s.placed c.scopes from rfl,
      Stmt.scopesAfter_placed]
    exact Stmt.placedAll_scoped (c := c.within (s.scopesAfter c.scopes)) shaped.2 okTail

end

/-- **Resolution makes well-scoped code.** -/
theorem resolve_scoped {program : List (Stmt ρ)} {located : List (Stmt (ρ × Place))}
    (shaped : Stmt.ShapedAll IsVariable program) (resolved : resolve program = .ok located) :
    Stmt.ScopedAll .top (runnable located) := by
  obtain ⟨ok, rfl⟩ := resolve_eq_ok.1 resolved
  exact Stmt.placedAll_scoped (c := .top) shaped ok

theorem resolveExpression_scoped {e : Expr ρ} {located : Expr (ρ × Place)}
    (shaped : e.Shaped IsVariable) (resolved : resolveExpression e = .ok located) :
    (runnableExpr located).Scoped .top := by
  obtain ⟨ok, rfl⟩ := resolveExpression_eq_ok.1 resolved
  exact Expr.placed_scoped (c := .top) shaped ok

end Lox
