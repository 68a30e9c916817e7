import Lox.Proofs.Outline.Regular
import Lox.Proofs.Scope.Scoped

/-!
# Outlines of programs

In the outline of a program expressions stand where nothing else may, and a walk through the outline of
a statement leaves the scopes that resolution has behind the statement.
-/

namespace Lox

variable {ρ : Type}

mutual

theorem Outline.IsExpression.regular : ∀ {o : Outline ρ}, o.IsExpression → o.Regular
  | .node _ _, h => ⟨fun _ => h.2, Outline.AllExpressions.allRegular h.2⟩

theorem Outline.AllExpressions.allRegular :
    ∀ {os : List (Outline ρ)}, Outline.AllExpressions os → Outline.AllRegular os
  | [], _ => trivial
  | _ :: _, h => ⟨Outline.IsExpression.regular h.1, Outline.AllExpressions.allRegular h.2⟩

end

mutual

theorem Expr.outline_isExpression : ∀ e : Expr ρ, e.outline.IsExpression
  | .literal _ | .variable _ | .this .. | .super .. => ⟨rfl, trivial⟩
  | .grouping e | .unary _ _ e | .assign _ e | .get e _ => ⟨rfl, e.outline_isExpression, trivial⟩
  | .binary _ _ l r | .logical _ l r | .set l _ r =>
    ⟨rfl, l.outline_isExpression, r.outline_isExpression, trivial⟩
  | .call callee _ arguments =>
    ⟨rfl, callee.outline_isExpression, Expr.outlineAll_allExpressions arguments⟩

theorem Expr.outlineAll_allExpressions :
    ∀ es : List (Expr ρ), Outline.AllExpressions (Expr.outlineAll es)
  | [] => trivial
  | e :: es => ⟨e.outline_isExpression, Expr.outlineAll_allExpressions es⟩

end

theorem Expr.outline?_allExpressions (e? : Option (Expr ρ)) :
    Outline.AllExpressions (Expr.outline? e?) := by
  cases e? with
  | none => trivial
  | some e => exact ⟨e.outline_isExpression, trivial⟩

/-- A node that may have other parts than expressions is regular if its parts are. -/
theorem Outline.regular_node {label : Label ρ} {parts : List (Outline ρ)}
    (free : label.holdsExpressions = false) (h : Outline.AllRegular parts) :
    (Outline.node label parts).Regular :=
  ⟨fun holds => by simp [free] at holds, h⟩

theorem Outline.allRegular_append {os os' : List (Outline ρ)} (h : Outline.AllRegular os)
    (h' : Outline.AllRegular os') : Outline.AllRegular (os ++ os') := by
  rw [Outline.allRegular_iff] at h h' ⊢
  intro o mem
  rcases List.mem_append.1 mem with mem | mem
  · exact h o mem
  · exact h' o mem

theorem Outline.parameters_regular (params : List Name) :
    Outline.AllRegular (Outline.parameters params : List (Outline ρ)) := by
  rw [Outline.allRegular_iff]
  intro o mem
  obtain ⟨p, -, rfl⟩ := List.mem_map.1 mem
  exact Outline.regular_node rfl trivial

theorem Outline.holding_regular {name : String} {parts : List (Outline ρ)}
    (h : Outline.AllRegular parts) : (Outline.holding name parts).Regular :=
  Outline.regular_node rfl ⟨Outline.regular_node rfl trivial, h⟩

mutual

theorem Stmt.outline_regular : ∀ s : Stmt ρ, s.outline.Regular
  | .expression e | .print e => Outline.regular_node rfl ⟨e.outline_isExpression.regular, trivial⟩
  | .declare _ e? =>
    ⟨fun _ => Expr.outline?_allExpressions e?, (Expr.outline?_allExpressions e?).allRegular⟩
  | .block body => Outline.regular_node rfl (Stmt.outlineAll_regular body)
  | .conditional c t none =>
    Outline.regular_node rfl ⟨c.outline_isExpression.regular, t.outline_regular, trivial⟩
  | .conditional c t (some e) =>
    Outline.regular_node rfl
      ⟨c.outline_isExpression.regular, t.outline_regular, e.outline_regular, trivial⟩
  | .loop c b =>
    Outline.regular_node rfl ⟨c.outline_isExpression.regular, b.outline_regular, trivial⟩
  | .function d => Outline.regular_node rfl ⟨d.outline_regular false, trivial⟩
  | .ret _ e? => Outline.regular_node rfl (Expr.outline?_allExpressions e?).allRegular
  | .classDecl _ none methods =>
    Outline.regular_node rfl
      ⟨Outline.holding_regular (FunctionDecl.outlineAll_regular methods), trivial⟩
  | .classDecl _ (some _) methods =>
    Outline.regular_node rfl
      ⟨Outline.regular_node rfl trivial,
        Outline.holding_regular
          ⟨Outline.holding_regular (FunctionDecl.outlineAll_regular methods), trivial⟩,
        trivial⟩

theorem FunctionDecl.outline_regular (isInitializer : Bool) :
    ∀ d : FunctionDecl ρ, (d.outline isInitializer).Regular
  | ⟨_, params, body⟩ =>
    Outline.regular_node rfl
      (Outline.allRegular_append (Outline.parameters_regular params) (Stmt.outlineAll_regular body))

theorem Stmt.outlineAll_regular : ∀ ss : List (Stmt ρ), Outline.AllRegular (Stmt.outlineAll ss)
  | [] => trivial
  | s :: ss => ⟨s.outline_regular, Stmt.outlineAll_regular ss⟩

theorem FunctionDecl.outlineAll_regular :
    ∀ ds : List (FunctionDecl ρ), Outline.AllRegular (FunctionDecl.outlineAll ds)
  | [] => trivial
  | d :: ds => ⟨d.outline_regular _, FunctionDecl.outlineAll_regular ds⟩

end

theorem Outline.ofProgram_regular (program : List (Stmt ρ)) : (Outline.ofProgram program).Regular :=
  Outline.regular_node rfl (Stmt.outlineAll_regular program)

/-! ## The scopes behind a statement -/

variable {scopes : Scopes}

theorem Bindings.insert_insert {α : Type} (b : Bindings α) (name : String) (old new : α) :
    (b.insert name old).insert name new = b.insert name new := by
  have replaced (entries : List (String × α)) :
      Bindings.put name new (Bindings.put name old entries) = Bindings.put name new entries := by
    induction entries with
    | nil => simp [Bindings.put]
    | cons e rest ih => by_cases h : e.1 = name <;> simp [Bindings.put, h, ih]
  exact congrArg Bindings.mk (replaced b.entries)

/-- A name that is declared and then defined is just defined. -/
theorem Scopes.declare_define (scopes : Scopes) (name : String) :
    (scopes.declare name).define name = scopes.define name := by
  cases scopes with
  | nil => rfl
  | cons scope outer =>
    by_cases known : scope.contains name = true
    · simp [Scopes.declare, known]
    · simp [Scopes.declare, known, Scopes.define, Bindings.insert_insert]

namespace Outline

theorem scopesAfter_statement (parts : List (Outline ρ)) :
    (node .statement parts).scopesAfter scopes = scopesAfterAll scopes parts := rfl

theorem scopesAfter_parameters (params : List Name) :
    ∀ scopes : Scopes, scopesAfterAll scopes (parameters params : List (Outline ρ)) =
      params.foldl (fun s p => s.define p.text) scopes := by
  induction params with
  | nil => exact fun _ => rfl
  | cons p ps ih => exact fun scopes => ih (scopes.define p.text)

end Outline

/-- The walk leaves the scopes that resolution has behind the statement. -/
theorem Stmt.scopesAfter_outline :
    ∀ (s : Stmt ρ) (scopes : Scopes), s.outline.scopesAfter scopes = s.scopesAfter scopes
  | .expression e, scopes | .print e, scopes => e.outline_isExpression.scopesAfter scopes
  | .declare name e?, scopes => by
    simp only [Stmt.outline, Outline.scopesAfter, Label.scopesInside, Label.scopesBehind,
      (Expr.outline?_allExpressions e?).scopesAfterAll]
    exact Scopes.declare_define scopes name.text
  | .conditional c t none, scopes => by
    simp only [Stmt.outline, Outline.scopesAfter_statement, Outline.scopesAfterAll,
      Stmt.scopesAfter, c.outline_isExpression.scopesAfter, t.scopesAfter_outline]
  | .conditional c t (some e), scopes => by
    simp only [Stmt.outline, Outline.scopesAfter_statement, Outline.scopesAfterAll,
      Stmt.scopesAfter, c.outline_isExpression.scopesAfter, t.scopesAfter_outline,
      e.scopesAfter_outline]
  | .loop c b, scopes => by
    simp only [Stmt.outline, Outline.scopesAfter_statement, Outline.scopesAfterAll,
      Stmt.scopesAfter, c.outline_isExpression.scopesAfter, b.scopesAfter_outline]
  | .ret _ e?, scopes => (Expr.outline?_allExpressions e?).scopesAfterAll scopes
  | .block _, _ | .function ⟨_, _, _⟩, _ | .classDecl _ none _, _
  | .classDecl _ (some _) _, _ => rfl

end Lox
