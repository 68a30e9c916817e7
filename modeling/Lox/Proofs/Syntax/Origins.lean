import Lox.Proofs.Parser.Grammar
import Lox.Proofs.Syntax.Shape

/-!
# Trees made of tokens

`From ok` says where the lines and the names of a tree come from: each line is that of one of the
tokens that are `ok`, and each name is one of them that is an identifier. It also says that no branch
and no body of a loop is itself a declaration, so a tree made of tokens is shaped as their names
allow (`Stmt.From.shaped`).
-/

namespace Lox

section

variable (ok : Token → Prop)

/-- The line is that of a token. -/
def LineFrom (line : Nat) : Prop := ∃ t, ok t ∧ t.line = line

/-- The name is that of an identifier. -/
def Name.From (name : Name) : Prop := ∃ t, ok t ∧ t.kind = .identifier ∧ t.asName = name

variable {ρ : Type}

mutual

/-- Lines and names of the expression are those of tokens. -/
def Expr.From : Expr ρ → Prop
  | .literal _ => True
  | .grouping inner => inner.From
  | .unary _ line operand => LineFrom ok line ∧ operand.From
  | .binary _ line left right => LineFrom ok line ∧ left.From ∧ right.From
  | .logical _ left right => left.From ∧ right.From
  | .variable target => target.name.From ok
  | .assign target value => target.name.From ok ∧ value.From
  | .call callee line arguments => callee.From ∧ LineFrom ok line ∧ Expr.FromAll arguments
  | .get object property => object.From ∧ property.From ok
  | .set object property value => object.From ∧ property.From ok ∧ value.From
  | .this line _ => LineFrom ok line
  | .super line _ method => LineFrom ok line ∧ method.From ok

/-- Lines and names of the expressions are those of tokens. -/
def Expr.FromAll : List (Expr ρ) → Prop
  | [] => True
  | e :: es => e.From ∧ Expr.FromAll es

end

/-- Lines and names of an expression that may be missing are those of tokens. -/
def Expr.From? : Option (Expr ρ) → Prop
  | none => True
  | some e => e.From ok

mutual

/-- Lines and names of the statement are those of tokens, and no branch or body of a loop is a
declaration. -/
def Stmt.From : Stmt ρ → Prop
  | .expression value => value.From ok
  | .print value => value.From ok
  | .declare name initializer => name.From ok ∧ Expr.From? ok initializer
  | .block body => Stmt.FromAll body
  | .conditional condition thenBranch none =>
    condition.From ok ∧ thenBranch.isDeclaration = false ∧ thenBranch.From
  | .conditional condition thenBranch (some elseBranch) =>
    condition.From ok ∧ (thenBranch.isDeclaration = false ∧ thenBranch.From) ∧
      elseBranch.isDeclaration = false ∧ elseBranch.From
  | .loop condition body => condition.From ok ∧ body.isDeclaration = false ∧ body.From
  | .function declaration => declaration.From
  | .ret line value => LineFrom ok line ∧ Expr.From? ok value
  | .classDecl name superclass methods =>
    name.From ok ∧ (∀ r ∈ superclass, r.name.From ok) ∧ FunctionDecl.FromAll methods

/-- Lines and names of the function are those of tokens, and no branch or body of a loop in it is a
declaration. -/
def FunctionDecl.From : FunctionDecl ρ → Prop
  | ⟨name, params, body⟩ => name.From ok ∧ (∀ p ∈ params, p.From ok) ∧ Stmt.FromAll body

/-- All of the statements are made of tokens. -/
def Stmt.FromAll : List (Stmt ρ) → Prop
  | [] => True
  | s :: ss => s.From ∧ Stmt.FromAll ss

/-- All of the functions are made of tokens. -/
def FunctionDecl.FromAll : List (FunctionDecl ρ) → Prop
  | [] => True
  | d :: ds => d.From ∧ FunctionDecl.FromAll ds

end

end

variable {ok : Token → Prop} {ρ σ : Type}

theorem Name.From.line {name : Name} (h : name.From ok) : LineFrom ok name.line := by
  obtain ⟨t, isOk, -, rfl⟩ := h
  exact ⟨t, isOk, rfl⟩

theorem Expr.fromAll_iff {es : List (Expr ρ)} : Expr.FromAll ok es ↔ ∀ e ∈ es, e.From ok := by
  induction es with
  | nil => simp [Expr.FromAll]
  | cons e es ih => simp [Expr.FromAll, ih]

theorem Stmt.fromAll_iff {ss : List (Stmt ρ)} : Stmt.FromAll ok ss ↔ ∀ s ∈ ss, s.From ok := by
  induction ss with
  | nil => simp [Stmt.FromAll]
  | cons s ss ih => simp [Stmt.FromAll, ih]

theorem FunctionDecl.fromAll_iff {ds : List (FunctionDecl ρ)} :
    FunctionDecl.FromAll ok ds ↔ ∀ d ∈ ds, d.From ok := by
  induction ds with
  | nil => simp [FunctionDecl.FromAll]
  | cons d ds ih => simp [FunctionDecl.FromAll, ih]

/-! ## Shapes -/

/-- The name is the text of an identifier, if the token is one. -/
def Token.Names (allowed : String → Prop) (t : Token) : Prop :=
  t.kind = .identifier → allowed t.lexeme

section

variable {allowed : String → Prop}

theorem Name.From.text_allowed {name : Name} (h : name.From (Token.Names allowed)) :
    allowed name.text := by
  obtain ⟨t, names, identifier, rfl⟩ := h
  exact names identifier

mutual

/-- An expression made of tokens has the names of identifiers. -/
theorem Expr.From.shaped :
    ∀ {e : Expr ρ}, e.From (Token.Names allowed) → e.Shaped allowed
  | .literal _, _ | .this _ _, _ => trivial
  | .grouping inner, h => Expr.From.shaped (e := inner) h
  | .unary _ _ _, ⟨_, operand⟩ => operand.shaped
  | .binary _ _ _ _, ⟨_, left, right⟩ => ⟨left.shaped, right.shaped⟩
  | .logical _ _ _, ⟨left, right⟩ => ⟨left.shaped, right.shaped⟩
  | .variable _, h => Name.From.text_allowed h
  | .assign _ _, ⟨named, value⟩ => ⟨named.text_allowed, value.shaped⟩
  | .call _ _ _, ⟨callee, _, arguments⟩ => ⟨callee.shaped, Expr.FromAll.shaped arguments⟩
  | .get _ _, ⟨object, named⟩ => ⟨object.shaped, named.text_allowed⟩
  | .set _ _ _, ⟨object, named, value⟩ => ⟨object.shaped, named.text_allowed, value.shaped⟩
  | .super _ _ _, ⟨_, named⟩ => named.text_allowed

theorem Expr.FromAll.shaped :
    ∀ {es : List (Expr ρ)}, Expr.FromAll (Token.Names allowed) es → Expr.ShapedAll allowed es
  | [], _ => trivial
  | _ :: _, ⟨first, rest⟩ => ⟨first.shaped, Expr.FromAll.shaped rest⟩

end

theorem Expr.From?.shaped {e? : Option (Expr ρ)} (h : Expr.From? (Token.Names allowed) e?) :
    Expr.Shaped? allowed e? := by
  cases e? with
  | none => trivial
  | some e => exact Expr.From.shaped h

mutual

/-- **A statement made of tokens is shaped**: its names are those of identifiers, and no branch and
no body of a loop in it is a declaration. -/
theorem Stmt.From.shaped :
    ∀ {s : Stmt ρ}, s.From (Token.Names allowed) → s.Shaped allowed
  | .expression _, h | .print _, h => Expr.From.shaped h
  | .declare _ _, ⟨named, initializer⟩ => ⟨named.text_allowed, initializer.shaped⟩
  | .block _, h => Stmt.FromAll.shaped h
  | .conditional _ _ none, ⟨condition, notDecl, thenBranch⟩ =>
    ⟨condition.shaped, notDecl, thenBranch.shaped⟩
  | .conditional _ _ (some _), ⟨condition, ⟨notDecl, thenBranch⟩, notDecl', elseBranch⟩ =>
    ⟨condition.shaped, ⟨notDecl, thenBranch.shaped⟩, notDecl', elseBranch.shaped⟩
  | .loop _ _, ⟨condition, notDecl, body⟩ => ⟨condition.shaped, notDecl, body.shaped⟩
  | .function _, h => FunctionDecl.From.shaped h
  | .ret _ _, ⟨_, value⟩ => value.shaped
  | .classDecl _ _ _, ⟨named, parent, methods⟩ =>
    ⟨named.text_allowed, fun r mem => (parent r mem).text_allowed, FunctionDecl.FromAll.shaped methods⟩

theorem FunctionDecl.From.shaped :
    ∀ {d : FunctionDecl ρ}, d.From (Token.Names allowed) → d.Shaped allowed
  | ⟨_, _, _⟩, ⟨named, params, body⟩ =>
    ⟨named.text_allowed, fun p mem => (params p mem).text_allowed, Stmt.FromAll.shaped body⟩

theorem Stmt.FromAll.shaped :
    ∀ {ss : List (Stmt ρ)}, Stmt.FromAll (Token.Names allowed) ss → Stmt.ShapedAll allowed ss
  | [], _ => trivial
  | _ :: _, ⟨first, rest⟩ => ⟨first.shaped, Stmt.FromAll.shaped rest⟩

theorem FunctionDecl.FromAll.shaped :
    ∀ {ds : List (FunctionDecl ρ)}, FunctionDecl.FromAll (Token.Names allowed) ds →
      FunctionDecl.ShapedAll allowed ds
  | [], _ => trivial
  | _ :: _, ⟨first, rest⟩ => ⟨first.shaped, FunctionDecl.FromAll.shaped rest⟩

end

end

/-! ## Marks -/

mutual

theorem Expr.from_mapMarks (f : String → ρ → σ) :
    ∀ e : Expr ρ, (e.mapMarks f).From ok ↔ e.From ok
  | .literal _ | .this _ _ | .super _ _ _ | .variable _ => Iff.rfl
  | .grouping e => e.from_mapMarks f
  | .unary _ _ e => and_congr Iff.rfl (e.from_mapMarks f)
  | .binary _ _ l r => and_congr Iff.rfl (and_congr (l.from_mapMarks f) (r.from_mapMarks f))
  | .logical _ l r => and_congr (l.from_mapMarks f) (r.from_mapMarks f)
  | .assign _ value => and_congr Iff.rfl (value.from_mapMarks f)
  | .call callee _ arguments =>
    and_congr (callee.from_mapMarks f) (and_congr Iff.rfl (Expr.fromAll_mapMarks f arguments))
  | .get object _ => and_congr (object.from_mapMarks f) Iff.rfl
  | .set object _ value =>
    and_congr (object.from_mapMarks f) (and_congr Iff.rfl (value.from_mapMarks f))

theorem Expr.fromAll_mapMarks (f : String → ρ → σ) : ∀ es : List (Expr ρ),
    Expr.FromAll ok (Expr.mapMarksAll f es) ↔ Expr.FromAll ok es
  | [] => Iff.rfl
  | e :: es => and_congr (e.from_mapMarks f) (Expr.fromAll_mapMarks f es)

end

theorem Expr.from?_mapMarks (f : String → ρ → σ) (e? : Option (Expr ρ)) :
    Expr.From? ok (e?.map (·.mapMarks f)) ↔ Expr.From? ok e? := by
  cases e? with
  | none => exact Iff.rfl
  | some e => exact e.from_mapMarks f

mutual

/-- Where a tree comes from does not depend on its marks. -/
theorem Stmt.from_mapMarks (f : String → ρ → σ) :
    ∀ s : Stmt ρ, (s.mapMarks f).From ok ↔ s.From ok
  | .expression e | .print e => e.from_mapMarks f
  | .declare _ e? => and_congr Iff.rfl (Expr.from?_mapMarks f e?)
  | .block body => Stmt.fromAll_mapMarks f body
  | .conditional c t none => by
    simp only [Stmt.mapMarks, Stmt.From, c.from_mapMarks f, t.from_mapMarks f,
      Stmt.isDeclaration_mapMarks]
  | .conditional c t (some e) => by
    simp only [Stmt.mapMarks, Stmt.From, c.from_mapMarks f, t.from_mapMarks f,
      e.from_mapMarks f, Stmt.isDeclaration_mapMarks]
  | .loop c b => by
    simp only [Stmt.mapMarks, Stmt.From, c.from_mapMarks f, b.from_mapMarks f,
      Stmt.isDeclaration_mapMarks]
  | .function ⟨_, _, body⟩ =>
    and_congr Iff.rfl (and_congr Iff.rfl (Stmt.fromAll_mapMarks f body))
  | .ret _ e? => and_congr Iff.rfl (Expr.from?_mapMarks f e?)
  | .classDecl _ none methods =>
    and_congr Iff.rfl (and_congr (by simp) (FunctionDecl.fromAll_mapMarks f methods))
  | .classDecl _ (some r) methods =>
    and_congr Iff.rfl (and_congr (by simp [Reference.mapMark])
      (FunctionDecl.fromAll_mapMarks f methods))

theorem Stmt.fromAll_mapMarks (f : String → ρ → σ) : ∀ ss : List (Stmt ρ),
    Stmt.FromAll ok (Stmt.mapMarksAll f ss) ↔ Stmt.FromAll ok ss
  | [] => Iff.rfl
  | s :: ss => and_congr (s.from_mapMarks f) (Stmt.fromAll_mapMarks f ss)

theorem FunctionDecl.fromAll_mapMarks (f : String → ρ → σ) : ∀ ds : List (FunctionDecl ρ),
    FunctionDecl.FromAll ok (FunctionDecl.mapMarksAll f ds) ↔ FunctionDecl.FromAll ok ds
  | [] => Iff.rfl
  | ⟨_, _, body⟩ :: ds =>
    and_congr (and_congr Iff.rfl (and_congr Iff.rfl (Stmt.fromAll_mapMarks f body)))
      (FunctionDecl.fromAll_mapMarks f ds)

end

end Lox
