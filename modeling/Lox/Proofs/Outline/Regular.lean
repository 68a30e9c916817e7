import Lox.Proofs.Outline.Contexts

/-!
# Expressions in outlines

In the outline of a program, only expressions stand in expressions and in the initializers of
variables. An expression declares nothing, so the walk has one context in all of it; and a variable is
unfinished exactly at the positions in its initializer.
-/

namespace Lox

variable {ρ : Type}

/-- Only expressions may be parts. -/
def Label.holdsExpressions : Label ρ → Bool
  | .variable _ => true
  | label => label.isExpression

namespace Label

variable {label : Label ρ}

/-- An expression is no place of declarations: its parts have the context that it has itself, and so
has what stands behind it. -/
theorem inside_of_isExpression (h : label.isExpression = true) (c : Context) :
    label.inside c = c := by
  cases label with
  | operation | read | store | this | super => rfl
  | statement | ret | «variable» | function | parameter | classDecl | inherits | scope | body
  | implicit => cases h

theorem scopesBehind_of_isExpression (h : label.isExpression = true) (before inner : Scopes) :
    label.scopesBehind before inner = inner := by
  cases label with
  | operation | read | store | this | super => rfl
  | statement | ret | «variable» | function | parameter | classDecl | inherits | scope | body
  | implicit => cases h

theorem holdsExpressions_of_isExpression (h : label.isExpression = true) :
    label.holdsExpressions = true := by
  cases label with
  | operation | read | store | this | super => rfl
  | statement | ret | «variable» | function | parameter | classDecl | inherits | scope | body
  | implicit => cases h

end Label

mutual

/-- All nodes of the outline are expressions. -/
def Outline.IsExpression : Outline ρ → Prop
  | .node label parts => label.isExpression = true ∧ Outline.AllExpressions parts

def Outline.AllExpressions : List (Outline ρ) → Prop
  | [] => True
  | o :: os => o.IsExpression ∧ Outline.AllExpressions os

end

mutual

/-- Expressions stand where nothing else may. -/
def Outline.Regular : Outline ρ → Prop
  | .node label parts =>
    (label.holdsExpressions = true → Outline.AllExpressions parts) ∧ Outline.AllRegular parts

def Outline.AllRegular : List (Outline ρ) → Prop
  | [] => True
  | o :: os => o.Regular ∧ Outline.AllRegular os

end

namespace Outline

variable {o : Outline ρ} {os parts : List (Outline ρ)} {label : Label ρ} {c c' : Context} {i : Nat}
  {p q : Position}

theorem allExpressions_iff : AllExpressions os ↔ ∀ o ∈ os, o.IsExpression := by
  induction os with
  | nil => simp [AllExpressions]
  | cons o os ih => simp [AllExpressions, ih]

theorem allRegular_iff : AllRegular os ↔ ∀ o ∈ os, o.Regular := by
  induction os with
  | nil => simp [AllRegular]
  | cons o os ih => simp [AllRegular, ih]

theorem AllExpressions.take (h : AllExpressions parts) : AllExpressions (parts.take i) :=
  allExpressions_iff.2 fun o mem => allExpressions_iff.1 h o (List.mem_of_mem_take mem)

theorem AllExpressions.part (h : AllExpressions parts) (at_i : parts[i]? = some o) :
    o.IsExpression :=
  allExpressions_iff.1 h o (List.mem_of_getElem? at_i)

theorem AllRegular.part (h : AllRegular parts) (at_i : parts[i]? = some o) : o.Regular :=
  allRegular_iff.1 h o (List.mem_of_getElem? at_i)

mutual

theorem IsExpression.scopesAfter :
    ∀ {o : Outline ρ}, o.IsExpression → ∀ scopes : Scopes, o.scopesAfter scopes = scopes
  | .node label parts, h, scopes => by
    have inside : label.scopesInside scopes = scopes :=
      congrArg Context.scopes (Label.inside_of_isExpression h.1 (Context.top.within scopes))
    rw [Outline.scopesAfter, inside, Label.scopesBehind_of_isExpression h.1,
      AllExpressions.scopesAfterAll h.2]

theorem AllExpressions.scopesAfterAll :
    ∀ {os : List (Outline ρ)}, AllExpressions os → ∀ scopes : Scopes,
      Outline.scopesAfterAll scopes os = scopes
  | [], _, _ => rfl
  | o :: os, h, scopes => by
    rw [Outline.scopesAfterAll, IsExpression.scopesAfter h.1, AllExpressions.scopesAfterAll h.2]

end

theorem AllExpressions.behind (h : AllExpressions os) (c : Context) : c.behind os = c := by
  rw [Context.behind, h.scopesAfterAll]
  rfl

/-- The walk has one context in all of an expression. -/
theorem IsExpression.contextAt :
    ∀ {q : Position} {o : Outline ρ}, o.IsExpression → o.contextAt c q = some c' → c' = c
  | [], _, _, reached => (eq_of_contextAt_nil reached).symm
  | i :: q, .node label parts, h, reached => by
    obtain ⟨o, at_i, inPart⟩ := contextAt_cons.1 reached
    rw [Label.inside_of_isExpression h.1, h.2.take.behind] at inPart
    exact IsExpression.contextAt (h.2.part at_i) inPart

/-- Around a position in an expression, up to the whole of it, there are only expressions. -/
theorem IsExpression.around :
    ∀ {q : Position} {o : Outline ρ}, o.IsExpression →
      ∀ a ∈ o.around q, a.2.isExpression = true
  | [], _, _, a, mem => by simp at mem
  | i :: q, .node label parts, h, a, mem => by
    rcases mem_around_cons.1 mem with rfl | ⟨o, b, at_i, inPart, rfl⟩
    · exact h.1
    · exact IsExpression.around (h.2.part at_i) b inPart

/-- What stands in an expression has the context of the whole expression. -/
theorem Regular.contextAt_in_expression :
    ∀ {p : Position} {o : Outline ρ} {c d : Context}, o.Regular → o.label? p = some label →
      label.isExpression = true → o.contextAt c p = some d →
        o.contextAt c (p ++ q) = some c' → c' = d
  | [], .node l parts, c, d, regular, there, expression, reached, below => by
    obtain rfl : l = label := Option.some.inj there
    obtain rfl := eq_of_contextAt_nil reached
    have whole : (node l parts).IsExpression :=
      ⟨expression, regular.1 (Label.holdsExpressions_of_isExpression expression)⟩
    exact whole.contextAt below
  | i :: p, .node l parts, c, d, regular, there, expression, reached, below => by
    obtain ⟨o, at_i, inPart⟩ := contextAt_cons.1 reached
    obtain ⟨o', at_i', belowPart⟩ := contextAt_cons.1 below
    obtain rfl : o = o' := Option.some.inj (at_i.symm.trans at_i')
    rw [label?_cons, at_i] at there
    exact Regular.contextAt_in_expression (regular.2.part at_i) there expression inPart belowPart

end Outline

/-! ## Unfinished variables -/

/-- No variable of the scopes is unfinished. -/
def Scopes.Finished (scopes : Scopes) : Prop :=
  ∀ scope ∈ scopes, ∀ name, scope.get? name ≠ some false

namespace Scopes

variable {scopes : Scopes} {name other : String}

theorem Finished.isUnfinished (h : scopes.Finished) : scopes.isUnfinished name = false := by
  cases scopes with
  | nil => rfl
  | cons scope outer =>
    have ready : scope.get? name ≠ some false := h scope (.head _) name
    simpa [Scopes.isUnfinished] using ready

theorem Finished.define (h : scopes.Finished) : (scopes.define name).Finished := by
  cases scopes with
  | nil => exact h
  | cons scope outer =>
    intro s mem x
    rcases List.mem_cons.1 mem with rfl | mem
    · rw [Bindings.get?_insert]
      split
      · simp
      · exact h scope (.head _) x
    · exact h s (.tail _ mem) x

theorem Finished.enter (h : scopes.Finished) : scopes.enter.Finished := by
  intro s mem x
  rcases List.mem_cons.1 mem with rfl | mem
  · simp
  · exact h s mem x

/-- A declaration that has come to its end leaves no unfinished variable. -/
theorem Finished.declare_define (h : scopes.Finished) :
    ((scopes.declare name).define name).Finished := by
  cases scopes with
  | nil => exact h
  | cons scope outer =>
    by_cases known : scope.contains name = true
    · have unchanged : Scopes.declare (scope :: outer) name = scope :: outer := by
        simp [Scopes.declare, known]
      rw [unchanged]
      exact Finished.define h
    · intro s mem x
      simp only [Scopes.declare, known, Scopes.define] at mem
      rcases List.mem_cons.1 mem with rfl | mem
      · rw [Bindings.get?_insert, Bindings.get?_insert]
        split
        · simp
        · exact h scope (.head _) x
      · exact h s (.tail _ mem) x

/-- A declaration leaves its own variable unfinished, unless there is no scope or the name is there
already. -/
theorem Finished.isUnfinished_declare (h : scopes.Finished) :
    (scopes.declare name).isUnfinished other = true ↔
      name = other ∧ scopes ≠ [] ∧ scopes.isDeclared other = false := by
  cases scopes with
  | nil => simp [declare, Scopes.isUnfinished]
  | cons scope outer =>
    have ready : scope.get? other ≠ some false := h scope (.head _) other
    by_cases known : scope.contains name = true
    · have unchanged : Scopes.declare (scope :: outer) name = scope :: outer := by
        simp [Scopes.declare, known]
      rw [unchanged, h.isUnfinished]
      constructor
      · intro absurd
        cases absurd
      · rintro ⟨rfl, -, undeclared⟩
        simp [isDeclared, known] at undeclared
    · have undeclared : scope.contains name = false := by simpa using known
      by_cases same : name = other
      · subst same
        simp [declare, Scopes.isUnfinished, isDeclared, undeclared]
      · have kept : (scope.insert name false).get? other = scope.get? other :=
          Bindings.get?_insert_of_ne scope (Ne.symm same) false
        simp [declare, Scopes.isUnfinished, undeclared, kept, ready, same]

end Scopes

theorem Label.scopesInside_finished {label : Label ρ} {scopes : Scopes} (h : scopes.Finished)
    (other : ∀ n, label ≠ .variable n) : (label.scopesInside scopes).Finished := by
  cases label with
  | «variable» name => exact absurd rfl (other name)
  | function | parameter | classDecl | implicit => exact h.define
  | scope | body => exact h.enter
  | operation | read | store | this | super | statement | ret | inherits => exact h

namespace Outline

variable {o : Outline ρ} {os parts : List (Outline ρ)} {label : Label ρ} {c c' : Context} {i : Nat}
  {p q : Position} {scopes : Scopes} {x : String}

mutual

/-- Behind an outline no variable is unfinished. -/
theorem Regular.scopesAfter_finished :
    ∀ {o : Outline ρ}, o.Regular → ∀ {scopes : Scopes}, scopes.Finished →
      (o.scopesAfter scopes).Finished
  | .node label parts, regular, scopes, h => by
    rw [scopesAfter]
    cases label with
    | «variable» name =>
      have same : scopesAfterAll (scopes.declare name.text) parts = scopes.declare name.text :=
        (regular.1 rfl).scopesAfterAll _
      simp only [Label.scopesInside, Label.scopesBehind, same]
      exact h.declare_define
    | scope | body => exact h
    | operation | read | store | this | super | statement | ret | inherits | function | parameter
    | classDecl | implicit =>
      apply AllRegular.scopesAfterAll_finished regular.2
      exact Label.scopesInside_finished h (by simp)

theorem AllRegular.scopesAfterAll_finished :
    ∀ {os : List (Outline ρ)}, AllRegular os → ∀ {scopes : Scopes}, scopes.Finished →
      (scopesAfterAll scopes os).Finished
  | [], _, _, h => h
  | _ :: _, regular, _, h =>
    AllRegular.scopesAfterAll_finished regular.2 (Regular.scopesAfter_finished regular.1 h)

end

theorem AllRegular.take (h : AllRegular parts) : AllRegular (parts.take i) :=
  allRegular_iff.2 fun o mem => allRegular_iff.1 h o (List.mem_of_mem_take mem)

/-- The position is in the initializer of a local variable with this name that is new in its scope, as
the walk from `c` sees it. -/
def InInitializer (c : Context) (o : Outline ρ) (q : Position) (x : String) : Prop :=
  ∃ p name d, (p, .variable name) ∈ o.around q ∧ name.text = x ∧ o.contextAt c p = some d ∧
    d.scopes ≠ [] ∧ d.scopes.isDeclared x = false

/-- In the initializer of a variable, that variable is unfinished and no other one is. -/
theorem inInitializer_variable {name : Name} (h : c.scopes.Finished)
    (expressions : AllExpressions parts) (at_i : parts[i]? = some o) :
    (node (.variable name) parts).InInitializer c (i :: q) x ↔
      (c.scopes.declare name.text).isUnfinished x = true := by
  rw [h.isUnfinished_declare]
  constructor
  · rintro ⟨p, n, d, mem, same, reached, inside, new⟩
    rcases mem_around_cons.1 mem with here | ⟨o', b, at_i', below, eq⟩
    · cases here
      obtain rfl := eq_of_contextAt_nil reached
      exact ⟨same, inside, new⟩
    · have expression := (expressions.part at_i').around b below
      rw [Prod.mk.injEq] at eq
      simp [← eq.2, Label.isExpression] at expression
  · rintro ⟨same, inside, new⟩
    exact ⟨[], name, c, by simp [around_cons at_i], same, contextAt_nil, inside, new⟩

/-- The initializers around a position in a part stand in the part, unless the node itself is a
variable. -/
theorem inInitializer_cons (other : ∀ n, label ≠ .variable n) (at_i : parts[i]? = some o) :
    (node label parts).InInitializer c (i :: q) x ↔
      o.InInitializer ((label.inside c).behind (parts.take i)) q x := by
  constructor
  · rintro ⟨p, n, d, mem, same, reached, inside, new⟩
    rcases mem_around_cons.1 mem with here | ⟨o₁, ⟨p', l⟩, at_i₁, below, eq⟩
    · cases here
      exact absurd rfl (other n)
    · cases eq
      obtain ⟨o₂, at_i₂, reached'⟩ := contextAt_cons.1 reached
      obtain rfl : o = o₁ := Option.some.inj (at_i.symm.trans at_i₁)
      obtain rfl : o = o₂ := Option.some.inj (at_i.symm.trans at_i₂)
      exact ⟨p', n, d, below, same, reached', inside, new⟩
  · rintro ⟨p, n, d, below, same, reached, inside, new⟩
    have around : (i :: p, .variable n) ∈ (node label parts).around (i :: q) :=
      mem_around_cons.2 (.inr ⟨o, _, at_i, below, rfl⟩)
    exact ⟨i :: p, n, d, around, same, contextAt_cons.2 ⟨o, at_i, reached⟩, inside, new⟩

/-- **A variable is unfinished at the positions in its initializer**, and at no others. -/
theorem Regular.isUnfinished_contextAt :
    ∀ {q : Position} {o : Outline ρ} {c : Context}, o.Regular → c.scopes.Finished →
      o.contextAt c q = some c' →
        (c'.scopes.isUnfinished x = true ↔ o.InInitializer c q x)
  | [], o, c, _, h, reached => by
    obtain rfl := eq_of_contextAt_nil reached
    simp [h.isUnfinished, InInitializer]
  | i :: q, .node label parts, c, regular, h, reached => by
    obtain ⟨o, at_i, inPart⟩ := contextAt_cons.1 reached
    by_cases isVariable : ∃ n, label = .variable n
    · -- the whole initializer has the context that follows the declaration
      obtain ⟨name, rfl⟩ := isVariable
      have expressions : AllExpressions parts := regular.1 rfl
      rw [expressions.take.behind] at inPart
      have same := (expressions.part at_i).contextAt inPart
      rw [inInitializer_variable h expressions at_i, same]
      rfl
    · have other : ∀ n, label ≠ .variable n := fun n eq => isVariable ⟨n, eq⟩
      rw [inInitializer_cons other at_i]
      apply Regular.isUnfinished_contextAt (regular.2.part at_i) _ inPart
      exact regular.2.take.scopesAfterAll_finished (Label.scopesInside_finished h other)

/-- In a program, these are the initializers of variables in a scope that has no such name yet. -/
theorem Regular.isUnfinished_of_program (regular : o.Regular)
    (reached : o.contextAt .top q = some c') :
    c'.scopes.isUnfinished x = true ↔
      ∃ p name s, (p, .variable name) ∈ o.around q ∧ name.text = x ∧
        (o.scopesAround p).head? = some s ∧ x ∉ o.declaredBefore s p := by
  rw [Regular.isUnfinished_contextAt regular (fun _ absurd => by cases absurd) reached]
  constructor
  · rintro ⟨p, name, d, mem, same, atDeclaration, inside, new⟩
    obtain ⟨s, nearest, absent⟩ := (isNew_of_program atDeclaration).1 ⟨inside, new⟩
    exact ⟨p, name, s, mem, same, nearest, absent⟩
  · rintro ⟨p, name, s, mem, same, nearest, absent⟩
    obtain ⟨d, atDeclaration⟩ := exists_contextAt (c := .top) (label?_of_mem_around mem)
    have new := (isNew_of_program atDeclaration).2 ⟨s, nearest, absent⟩
    exact ⟨p, name, d, mem, same, atDeclaration, new⟩

end Outline

end Lox
