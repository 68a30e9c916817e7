import Lox.Proofs.Parser.Grammar
import Lox.Proofs.Scope.Resolved
import Mathlib.Logic.Basic

/-!
# What does not depend on marks

The names of a tree, its violations and the places of its references are those of the tree without
its marks. So they are the same for two trees that differ only in their marks.
-/

namespace Lox

variable {ρ σ τ : Type}

/-! ## Marks given twice -/

mutual

theorem Expr.mapMarks_mapMarks (f : String → ρ → σ) (g : String → σ → τ) :
    ∀ e : Expr ρ, (e.mapMarks f).mapMarks g = e.mapMarks fun name mark => g name (f name mark)
  | .literal _ | .variable _ | .this _ _ | .super _ _ _ => rfl
  | .grouping e | .unary _ _ e | .get e _ => by
    simp only [Expr.mapMarks, e.mapMarks_mapMarks]
  | .binary _ _ l r | .logical _ l r => by
    simp only [Expr.mapMarks, l.mapMarks_mapMarks, r.mapMarks_mapMarks]
  | .assign _ value => by
    simp only [Expr.mapMarks, Reference.mapMark, value.mapMarks_mapMarks]
  | .call callee _ arguments => by
    simp only [Expr.mapMarks, callee.mapMarks_mapMarks, Expr.mapMarksAll_mapMarksAll f g arguments]
  | .set object _ value => by
    simp only [Expr.mapMarks, object.mapMarks_mapMarks, value.mapMarks_mapMarks]

theorem Expr.mapMarksAll_mapMarksAll (f : String → ρ → σ) (g : String → σ → τ) :
    ∀ es : List (Expr ρ), Expr.mapMarksAll g (Expr.mapMarksAll f es) =
      Expr.mapMarksAll (fun name mark => g name (f name mark)) es
  | [] => rfl
  | e :: es => by
    simp only [Expr.mapMarksAll, e.mapMarks_mapMarks, Expr.mapMarksAll_mapMarksAll f g es]

end

theorem Expr.mapMarks?_mapMarks (f : String → ρ → σ) (g : String → σ → τ) (e? : Option (Expr ρ)) :
    (e?.map (·.mapMarks f)).map (·.mapMarks g) =
      e?.map (·.mapMarks fun name mark => g name (f name mark)) := by
  cases e? with
  | none => rfl
  | some e => exact congrArg some (e.mapMarks_mapMarks f g)

theorem Reference.mapMark?_mapMark (f : String → ρ → σ) (g : String → σ → τ)
    (r? : Option (Reference ρ)) :
    (r?.map (·.mapMark f)).map (·.mapMark g) =
      r?.map (·.mapMark fun name mark => g name (f name mark)) := by
  cases r? <;> rfl

mutual

theorem Stmt.mapMarks_mapMarks (f : String → ρ → σ) (g : String → σ → τ) :
    ∀ s : Stmt ρ, (s.mapMarks f).mapMarks g = s.mapMarks fun name mark => g name (f name mark)
  | .expression e | .print e => by simp only [Stmt.mapMarks, e.mapMarks_mapMarks]
  | .declare _ e? | .ret _ e? => by simp only [Stmt.mapMarks, Expr.mapMarks?_mapMarks]
  | .block body => by simp only [Stmt.mapMarks, Stmt.mapMarksAll_mapMarksAll f g body]
  | .conditional c t none => by
    simp only [Stmt.mapMarks, c.mapMarks_mapMarks, t.mapMarks_mapMarks]
  | .conditional c t (some e) => by
    simp only [Stmt.mapMarks, c.mapMarks_mapMarks, t.mapMarks_mapMarks, e.mapMarks_mapMarks]
  | .loop c b => by simp only [Stmt.mapMarks, c.mapMarks_mapMarks, b.mapMarks_mapMarks]
  | .function d => by simp only [Stmt.mapMarks, d.mapMarks_mapMarks]
  | .classDecl _ superclass methods => by
    simp only [Stmt.mapMarks, Reference.mapMark?_mapMark,
      FunctionDecl.mapMarksAll_mapMarksAll f g methods]

theorem FunctionDecl.mapMarks_mapMarks (f : String → ρ → σ) (g : String → σ → τ) :
    ∀ d : FunctionDecl ρ,
      (d.mapMarks f).mapMarks g = d.mapMarks fun name mark => g name (f name mark)
  | ⟨_, _, body⟩ => by simp only [FunctionDecl.mapMarks, Stmt.mapMarksAll_mapMarksAll f g body]

theorem Stmt.mapMarksAll_mapMarksAll (f : String → ρ → σ) (g : String → σ → τ) :
    ∀ ss : List (Stmt ρ), Stmt.mapMarksAll g (Stmt.mapMarksAll f ss) =
      Stmt.mapMarksAll (fun name mark => g name (f name mark)) ss
  | [] => rfl
  | s :: ss => by
    simp only [Stmt.mapMarksAll, s.mapMarks_mapMarks, Stmt.mapMarksAll_mapMarksAll f g ss]

theorem FunctionDecl.mapMarksAll_mapMarksAll (f : String → ρ → σ) (g : String → σ → τ) :
    ∀ ds : List (FunctionDecl ρ), FunctionDecl.mapMarksAll g (FunctionDecl.mapMarksAll f ds) =
      FunctionDecl.mapMarksAll (fun name mark => g name (f name mark)) ds
  | [] => rfl
  | d :: ds => by
    simp only [FunctionDecl.mapMarksAll, d.mapMarks_mapMarks,
      FunctionDecl.mapMarksAll_mapMarksAll f g ds]

end

/-! ## Places -/

theorem Expr.placed_eq (scopes : Scopes) (e : Expr ρ) :
    e.placed scopes = e.mapMarks fun name _ => scopes.place name :=
  e.mapMarks_mapMarks _ _

theorem Expr.placed_mapMarks (f : String → ρ → σ) (scopes : Scopes) (e : Expr ρ) :
    (e.mapMarks f).placed scopes = e.placed scopes := by
  rw [Expr.placed_eq, Expr.placed_eq, Expr.mapMarks_mapMarks]

theorem Expr.placed?_mapMarks (f : String → ρ → σ) (scopes : Scopes) (e? : Option (Expr ρ)) :
    (e?.map (·.mapMarks f)).map (·.placed scopes) = e?.map (·.placed scopes) := by
  cases e? with
  | none => rfl
  | some e => exact congrArg some (e.placed_mapMarks f scopes)

theorem Scopes.enterClass_congr (scopes : Scopes) {r : Option (Reference ρ)}
    {r' : Option (Reference σ)} (same : r.isSome = r'.isSome) :
    scopes.enterClass r = scopes.enterClass r' := by
  cases r <;> cases r' <;> first | rfl | simp at same

/-- The reference with its place, as it runs where it stands within the scopes. -/
def Reference.placed (scopes : Scopes) (r : Reference ρ) : Reference Place :=
  r.mapMark fun name _ => scopes.place name

section

variable (scopes : Scopes)

theorem Stmt.placed_ifThen (c : Expr ρ) (t : Stmt ρ) :
    (Stmt.conditional c t none).placed scopes =
      .conditional (c.placed scopes) (t.placed scopes) none := rfl

theorem Stmt.placed_ifElse (c : Expr ρ) (t e : Stmt ρ) :
    (Stmt.conditional c t (some e)).placed scopes =
      .conditional (c.placed scopes) (t.placed scopes)
        (some (e.placed (t.scopesAfter scopes))) := rfl

theorem Stmt.placed_loop (c : Expr ρ) (b : Stmt ρ) :
    (Stmt.loop c b).placed scopes = .loop (c.placed scopes) (b.placed scopes) := rfl

theorem Stmt.placed_block (body : List (Stmt ρ)) :
    (Stmt.block body).placed scopes = .block (Stmt.placedAll scopes.enter body) := rfl

theorem Stmt.placed_declare (name : Name) (e? : Option (Expr ρ)) :
    (Stmt.declare name e?).placed scopes =
      .declare name (e?.map (·.placed (scopes.declare name.text))) := by
  cases e? <;> rfl

theorem Stmt.placed_ret (line : Nat) (e? : Option (Expr ρ)) :
    (Stmt.ret line e?).placed scopes = .ret line (e?.map (·.placed scopes)) := by
  cases e? <;> rfl

theorem Stmt.placed_function (name : Name) (params : List Name) (body : List (Stmt ρ)) :
    (Stmt.function ⟨name, params, body⟩).placed scopes =
      .function ⟨name, params,
        Stmt.placedAll ((scopes.define name.text).enterFunction params) body⟩ := rfl

theorem Stmt.placed_classDecl (name : Name) (superclass : Option (Reference ρ))
    (methods : List (FunctionDecl ρ)) :
    (Stmt.classDecl name superclass methods).placed scopes =
      .classDecl name (superclass.map (·.placed (scopes.define name.text)))
        (FunctionDecl.placedAll ((scopes.define name.text).enterClass superclass) methods) := by
  cases superclass <;> rfl

theorem Stmt.placedAll_cons (s : Stmt ρ) (ss : List (Stmt ρ)) :
    Stmt.placedAll scopes (s :: ss) =
      s.placed scopes :: Stmt.placedAll (s.scopesAfter scopes) ss := rfl

theorem FunctionDecl.placedAll_cons (name : Name) (params : List Name) (body : List (Stmt ρ))
    (ds : List (FunctionDecl ρ)) :
    FunctionDecl.placedAll scopes (⟨name, params, body⟩ :: ds) =
      ⟨name, params, Stmt.placedAll (scopes.enterFunction params) body⟩ ::
        FunctionDecl.placedAll scopes ds := rfl

end

mutual

/-- A reference has its place whatever its mark is. -/
theorem Stmt.placed_mapMarks (f : String → ρ → σ) : ∀ (scopes : Scopes) (s : Stmt ρ),
    (s.mapMarks f).placed scopes = s.placed scopes
  | scopes, .expression e => congrArg Stmt.expression (e.placed_mapMarks f scopes)
  | scopes, .print e => congrArg Stmt.print (e.placed_mapMarks f scopes)
  | scopes, .declare name e? => by
    rw [Stmt.mapMarks, Stmt.placed_declare, Stmt.placed_declare, Expr.placed?_mapMarks]
  | scopes, .block body => congrArg Stmt.block (Stmt.placedAll_mapMarks f scopes.enter body)
  | scopes, .conditional c t none => by
    rw [Stmt.mapMarks, Stmt.placed_ifThen, Stmt.placed_ifThen, c.placed_mapMarks f scopes,
      t.placed_mapMarks f scopes]
  | scopes, .conditional c t (some e) => by
    rw [Stmt.mapMarks, Stmt.placed_ifElse, Stmt.placed_ifElse, c.placed_mapMarks f scopes,
      t.placed_mapMarks f scopes, Stmt.scopesAfter_mapMarks, e.placed_mapMarks f _]
  | scopes, .loop c b => by
    rw [Stmt.mapMarks, Stmt.placed_loop, Stmt.placed_loop, c.placed_mapMarks f scopes,
      b.placed_mapMarks f scopes]
  | scopes, .function ⟨name, params, body⟩ => by
    have inner := Stmt.placedAll_mapMarks f ((scopes.define name.text).enterFunction params) body
    rw [Stmt.mapMarks, FunctionDecl.mapMarks, Stmt.placed_function, Stmt.placed_function, inner]
  | scopes, .ret line e? => by
    rw [Stmt.mapMarks, Stmt.placed_ret, Stmt.placed_ret, Expr.placed?_mapMarks]
  | scopes, .classDecl name superclass methods => by
    have same : (superclass.map (·.mapMark f)).isSome = superclass.isSome := Option.isSome_map
    have inner := FunctionDecl.placedAll_mapMarks f
      ((scopes.define name.text).enterClass superclass) methods
    have above : (superclass.map (·.mapMark f)).map (·.placed (scopes.define name.text)) =
        superclass.map (·.placed (scopes.define name.text)) := by cases superclass <;> rfl
    rw [Stmt.mapMarks, Stmt.placed_classDecl, Stmt.placed_classDecl, above,
      Scopes.enterClass_congr _ same, inner]

theorem Stmt.placedAll_mapMarks (f : String → ρ → σ) : ∀ (scopes : Scopes) (ss : List (Stmt ρ)),
    Stmt.placedAll scopes (Stmt.mapMarksAll f ss) = Stmt.placedAll scopes ss
  | _, [] => rfl
  | scopes, s :: ss => by
    rw [Stmt.mapMarksAll, Stmt.placedAll_cons, Stmt.placedAll_cons, Stmt.scopesAfter_mapMarks,
      s.placed_mapMarks f scopes, Stmt.placedAll_mapMarks f _ ss]

theorem FunctionDecl.placedAll_mapMarks (f : String → ρ → σ) :
    ∀ (scopes : Scopes) (ds : List (FunctionDecl ρ)),
      FunctionDecl.placedAll scopes (FunctionDecl.mapMarksAll f ds) =
        FunctionDecl.placedAll scopes ds
  | _, [] => rfl
  | scopes, ⟨name, params, body⟩ :: ds => by
    rw [FunctionDecl.mapMarksAll, FunctionDecl.mapMarks, FunctionDecl.placedAll_cons,
      FunctionDecl.placedAll_cons, Stmt.placedAll_mapMarks f _ body,
      FunctionDecl.placedAll_mapMarks f scopes ds]

end

theorem Expr.bare_placed (scopes : Scopes) (e : Expr ρ) : (e.placed scopes).bare = e.bare := by
  rw [Expr.placed_eq]
  exact e.mapMarks_mapMarks _ _

theorem Expr.bare?_placed (scopes : Scopes) (e? : Option (Expr ρ)) :
    (e?.map (·.placed scopes)).map Expr.bare = e?.map Expr.bare := by
  cases e? with
  | none => rfl
  | some e => exact congrArg some (e.bare_placed scopes)

theorem Reference.bare?_placed (scopes : Scopes) (r? : Option (Reference ρ)) :
    (r?.map (·.placed scopes)).map (·.mapMark fun _ _ => ()) = r?.map (·.mapMark fun _ _ => ()) := by
  cases r? <;> rfl

mutual

/-- Places are marks, so with places a tree is still the same without its marks. -/
theorem Stmt.bare_placed : ∀ (scopes : Scopes) (s : Stmt ρ), (s.placed scopes).bare = s.bare
  | scopes, .expression e => congrArg Stmt.expression (e.bare_placed scopes)
  | scopes, .print e => congrArg Stmt.print (e.bare_placed scopes)
  | scopes, .declare name e? => by
    rw [Stmt.placed_declare]
    exact congrArg (Stmt.declare name) (Expr.bare?_placed _ e?)
  | scopes, .block body => by
    rw [Stmt.placed_block, Stmt.bare_block, Stmt.bare_block, Stmt.bareAll_placed _ body]
  | scopes, .conditional c t none => by
    have condition := c.bare_placed scopes
    have thenBranch := t.bare_placed scopes
    simp only [Stmt.bare, Expr.bare] at condition thenBranch
    rw [Stmt.placed_ifThen, Stmt.bare, Stmt.bare, Stmt.mapMarks, Stmt.mapMarks, condition,
      thenBranch]
  | scopes, .conditional c t (some e) => by
    have condition := c.bare_placed scopes
    have thenBranch := t.bare_placed scopes
    have elseBranch := e.bare_placed (t.scopesAfter scopes)
    simp only [Stmt.bare, Expr.bare] at condition thenBranch elseBranch
    rw [Stmt.placed_ifElse, Stmt.bare, Stmt.bare, Stmt.mapMarks, Stmt.mapMarks, condition,
      thenBranch, elseBranch]
  | scopes, .loop c b => by
    have condition := c.bare_placed scopes
    have body := b.bare_placed scopes
    simp only [Stmt.bare, Expr.bare] at condition body
    rw [Stmt.placed_loop, Stmt.bare, Stmt.bare, Stmt.mapMarks, Stmt.mapMarks, condition, body]
  | scopes, .function ⟨name, params, body⟩ => by
    have inner := Stmt.bareAll_placed ((scopes.define name.text).enterFunction params) body
    rw [Stmt.placed_function]
    simp only [Stmt.bare, Stmt.mapMarks, FunctionDecl.mapMarks, Stmt.mapMarksAll_bare, inner]
  | scopes, .ret line e? => by
    rw [Stmt.placed_ret]
    exact congrArg (Stmt.ret line) (Expr.bare?_placed _ e?)
  | scopes, .classDecl name superclass methods => by
    have inner := FunctionDecl.bareAll_placed
      ((scopes.define name.text).enterClass superclass) methods
    rw [Stmt.placed_classDecl]
    simp only [Stmt.bare, Stmt.mapMarks, FunctionDecl.mapMarksAll_bare, inner,
      Reference.bare?_placed]

theorem Stmt.bareAll_placed : ∀ (scopes : Scopes) (ss : List (Stmt ρ)),
    (Stmt.placedAll scopes ss).map Stmt.bare = ss.map Stmt.bare
  | _, [] => rfl
  | scopes, s :: ss => by
    rw [Stmt.placedAll_cons, List.map_cons, List.map_cons, s.bare_placed scopes,
      Stmt.bareAll_placed _ ss]

theorem FunctionDecl.bareAll_placed : ∀ (scopes : Scopes) (ds : List (FunctionDecl ρ)),
    (FunctionDecl.placedAll scopes ds).map FunctionDecl.bare = ds.map FunctionDecl.bare
  | _, [] => rfl
  | scopes, ⟨name, params, body⟩ :: ds => by
    have inner := Stmt.bareAll_placed (scopes.enterFunction params) body
    rw [FunctionDecl.placedAll_cons, List.map_cons, List.map_cons, FunctionDecl.bare_mk,
      FunctionDecl.bare_mk, inner, FunctionDecl.bareAll_placed scopes ds]

end

/-! ## Violations -/

mutual

theorem Expr.violations_mapMarks (f : String → ρ → σ) (c : Context) :
    ∀ e : Expr ρ, (e.mapMarks f).violations c = e.violations c
  | .literal _ | .this _ _ | .super _ _ _ | .variable _ => rfl
  | .grouping e | .unary _ _ e | .get e _ => e.violations_mapMarks f c
  | .binary _ _ l r | .logical _ l r => by
    simp only [Expr.mapMarks, Expr.violations, l.violations_mapMarks, r.violations_mapMarks]
  | .assign _ value => value.violations_mapMarks f c
  | .call callee _ arguments => by
    simp only [Expr.mapMarks, Expr.violations, callee.violations_mapMarks,
      Expr.violationsAll_mapMarks f c arguments]
  | .set object _ value => by
    simp only [Expr.mapMarks, Expr.violations, object.violations_mapMarks,
      value.violations_mapMarks]

theorem Expr.violationsAll_mapMarks (f : String → ρ → σ) (c : Context) :
    ∀ es : List (Expr ρ),
      Expr.violationsAll c (Expr.mapMarksAll f es) = Expr.violationsAll c es
  | [] => rfl
  | e :: es => by
    simp only [Expr.mapMarksAll, Expr.violationsAll, e.violations_mapMarks,
      Expr.violationsAll_mapMarks f c es]

end

theorem Expr.violations?_mapMarks (f : String → ρ → σ) (c : Context) (e? : Option (Expr ρ)) :
    Expr.violations? c (e?.map (·.mapMarks f)) = Expr.violations? c e? := by
  cases e? with
  | none => rfl
  | some e => exact e.violations_mapMarks f c

theorem selfInheritance_mapMark (f : String → ρ → σ) (name : Name) (r? : Option (Reference ρ)) :
    selfInheritance name (r?.map (·.mapMark f)) = selfInheritance name r? := by
  cases r? <;> rfl

mutual

/-- What is wrong with a tree does not depend on its marks. -/
theorem Stmt.violations_mapMarks (f : String → ρ → σ) : ∀ (c : Context) (s : Stmt ρ),
    (s.mapMarks f).violations c = s.violations c
  | c, .expression e | c, .print e => e.violations_mapMarks f c
  | c, .declare name e? => by
    simp only [Stmt.mapMarks, Stmt.violations, Expr.violations?_mapMarks]
  | c, .block body => Stmt.violationsAll_mapMarks f _ body
  | c, .conditional e t none => by
    simp only [Stmt.mapMarks, Stmt.violations, e.violations_mapMarks, t.violations_mapMarks f c]
  | c, .conditional e t (some t') => by
    simp only [Stmt.mapMarks, Stmt.violations, e.violations_mapMarks, t.violations_mapMarks f c,
      Stmt.scopesAfter_mapMarks, t'.violations_mapMarks f _]
  | c, .loop e b => by
    simp only [Stmt.mapMarks, Stmt.violations, e.violations_mapMarks, b.violations_mapMarks f c]
  | c, .function ⟨name, params, body⟩ => by
    simp only [Stmt.mapMarks, FunctionDecl.mapMarks, Stmt.violations,
      Stmt.violationsAll_mapMarks f _ body]
  | c, .ret line e? => by
    have same : (e?.map (·.mapMarks f)).isSome = e?.isSome := Option.isSome_map
    simp only [Stmt.mapMarks, Stmt.violations, returnViolations, Expr.violations?_mapMarks, same]
  | c, .classDecl name superclass methods => by
    have same : (superclass.map (·.mapMark f)).isSome = superclass.isSome := Option.isSome_map
    simp only [Stmt.mapMarks, Stmt.violations, selfInheritance_mapMark,
      Context.inClass_congr _ same, FunctionDecl.violationsAll_mapMarks f _ methods]

theorem Stmt.violationsAll_mapMarks (f : String → ρ → σ) : ∀ (c : Context) (ss : List (Stmt ρ)),
    Stmt.violationsAll c (Stmt.mapMarksAll f ss) = Stmt.violationsAll c ss
  | _, [] => rfl
  | c, s :: ss => by
    simp only [Stmt.mapMarksAll, Stmt.violationsAll, s.violations_mapMarks f c,
      Stmt.scopesAfter_mapMarks, Stmt.violationsAll_mapMarks f _ ss]

theorem FunctionDecl.violationsAll_mapMarks (f : String → ρ → σ) :
    ∀ (c : Context) (ds : List (FunctionDecl ρ)),
      FunctionDecl.violationsAll c (FunctionDecl.mapMarksAll f ds) =
        FunctionDecl.violationsAll c ds
  | _, [] => rfl
  | c, ⟨name, params, body⟩ :: ds => by
    simp only [FunctionDecl.mapMarksAll, FunctionDecl.mapMarks, FunctionDecl.violationsAll,
      FunctionDecl.violations, Stmt.violationsAll_mapMarks f _ body,
      FunctionDecl.violationsAll_mapMarks f c ds]

end

/-! ## Shapes -/

section

variable {allowed : String → Prop}

mutual

theorem Expr.shaped_mapMarks (f : String → ρ → σ) :
    ∀ e : Expr ρ, (e.mapMarks f).Shaped allowed ↔ e.Shaped allowed
  | .literal _ | .this _ _ | .super _ _ _ | .variable _ => Iff.rfl
  | .grouping e | .unary _ _ e => e.shaped_mapMarks f
  | .binary _ _ l r | .logical _ l r => and_congr (l.shaped_mapMarks f) (r.shaped_mapMarks f)
  | .assign _ value => and_congr Iff.rfl (value.shaped_mapMarks f)
  | .call callee _ arguments =>
    and_congr (callee.shaped_mapMarks f) (Expr.shapedAll_mapMarks f arguments)
  | .get object _ => and_congr (object.shaped_mapMarks f) Iff.rfl
  | .set object _ value =>
    and_congr (object.shaped_mapMarks f) (and_congr Iff.rfl (value.shaped_mapMarks f))

theorem Expr.shapedAll_mapMarks (f : String → ρ → σ) : ∀ es : List (Expr ρ),
    Expr.ShapedAll allowed (Expr.mapMarksAll f es) ↔ Expr.ShapedAll allowed es
  | [] => Iff.rfl
  | e :: es => and_congr (e.shaped_mapMarks f) (Expr.shapedAll_mapMarks f es)

end

theorem Expr.shaped?_mapMarks (f : String → ρ → σ) (e? : Option (Expr ρ)) :
    Expr.Shaped? allowed (e?.map (·.mapMarks f)) ↔ Expr.Shaped? allowed e? := by
  cases e? with
  | none => exact Iff.rfl
  | some e => exact e.shaped_mapMarks f

mutual

/-- The shape of a tree does not depend on its marks. -/
theorem Stmt.shaped_mapMarks (f : String → ρ → σ) :
    ∀ s : Stmt ρ, (s.mapMarks f).Shaped allowed ↔ s.Shaped allowed
  | .expression e | .print e => e.shaped_mapMarks f
  | .declare _ e? => and_congr Iff.rfl (Expr.shaped?_mapMarks f e?)
  | .block body => Stmt.shapedAll_mapMarks f body
  | .conditional c t none => by
    simp only [Stmt.mapMarks, Stmt.Shaped, c.shaped_mapMarks f, t.shaped_mapMarks f,
      Stmt.isDeclaration_mapMarks]
  | .conditional c t (some e) => by
    simp only [Stmt.mapMarks, Stmt.Shaped, c.shaped_mapMarks f, t.shaped_mapMarks f,
      e.shaped_mapMarks f, Stmt.isDeclaration_mapMarks]
  | .loop c b => by
    simp only [Stmt.mapMarks, Stmt.Shaped, c.shaped_mapMarks f, b.shaped_mapMarks f,
      Stmt.isDeclaration_mapMarks]
  | .function ⟨_, _, body⟩ =>
    and_congr Iff.rfl (and_congr Iff.rfl (Stmt.shapedAll_mapMarks f body))
  | .ret _ e? => Expr.shaped?_mapMarks f e?
  | .classDecl _ none methods =>
    and_congr Iff.rfl (and_congr (by simp) (FunctionDecl.shapedAll_mapMarks f methods))
  | .classDecl _ (some r) methods =>
    and_congr Iff.rfl (and_congr (by simp [Reference.mapMark])
      (FunctionDecl.shapedAll_mapMarks f methods))

theorem Stmt.shapedAll_mapMarks (f : String → ρ → σ) : ∀ ss : List (Stmt ρ),
    Stmt.ShapedAll allowed (Stmt.mapMarksAll f ss) ↔ Stmt.ShapedAll allowed ss
  | [] => Iff.rfl
  | s :: ss => and_congr (s.shaped_mapMarks f) (Stmt.shapedAll_mapMarks f ss)

theorem FunctionDecl.shapedAll_mapMarks (f : String → ρ → σ) : ∀ ds : List (FunctionDecl ρ),
    FunctionDecl.ShapedAll allowed (FunctionDecl.mapMarksAll f ds) ↔
      FunctionDecl.ShapedAll allowed ds
  | [] => Iff.rfl
  | ⟨_, _, body⟩ :: ds =>
    and_congr (and_congr Iff.rfl (and_congr Iff.rfl (Stmt.shapedAll_mapMarks f body)))
      (FunctionDecl.shapedAll_mapMarks f ds)

end

theorem Stmt.shapedAll_bare (ss : List (Stmt ρ)) :
    Stmt.ShapedAll allowed (ss.map Stmt.bare) ↔ Stmt.ShapedAll allowed ss := by
  rw [← Stmt.mapMarksAll_bare]
  exact Stmt.shapedAll_mapMarks _ ss

theorem Stmt.violationsAll_bare (c : Context) (ss : List (Stmt ρ)) :
    Stmt.violationsAll c (ss.map Stmt.bare) = Stmt.violationsAll c ss := by
  rw [← Stmt.mapMarksAll_bare, Stmt.violationsAll_mapMarks]

theorem Stmt.placedAll_bare (scopes : Scopes) (ss : List (Stmt ρ)) :
    Stmt.placedAll scopes (ss.map Stmt.bare) = Stmt.placedAll scopes ss := by
  rw [← Stmt.mapMarksAll_bare, Stmt.placedAll_mapMarks]

end

/-! ## Code that has its places -/

theorem Reference.Placed.mapMark_eq {scopes : Scopes} {r : Reference Place} (h : r.Placed scopes) :
    r.mapMark (fun name _ => scopes.place name) = r := by
  obtain ⟨name, mark⟩ := r
  have h : mark = scopes.place name.text := h
  rw [h]
  rfl

mutual

theorem Expr.Scoped.mapMarks_eq {c : Context} :
    ∀ {e : Expr Place}, e.Scoped c → e.mapMarks (fun name _ => c.scopes.place name) = e
  | .literal _, _ => rfl
  | .grouping _, sc => congrArg Expr.grouping (Expr.Scoped.mapMarks_eq sc)
  | .unary op line _, sc => congrArg (Expr.unary op line) (Expr.Scoped.mapMarks_eq sc)
  | .get _ property, sc => congrArg (Expr.get · property) (Expr.Scoped.mapMarks_eq sc)
  | .binary op line _ _, sc =>
    congrArg₂ (Expr.binary op line) (Expr.Scoped.mapMarks_eq sc.1) (Expr.Scoped.mapMarks_eq sc.2)
  | .logical op _ _, sc =>
    congrArg₂ (Expr.logical op) (Expr.Scoped.mapMarks_eq sc.1) (Expr.Scoped.mapMarks_eq sc.2)
  | .variable _, sc => congrArg Expr.variable sc.1.mapMark_eq
  | .assign _ _, sc =>
    congrArg₂ Expr.assign sc.1.mapMark_eq (Expr.Scoped.mapMarks_eq sc.2.2)
  | .call _ line _, sc =>
    congrArg₂ (Expr.call · line) (Expr.Scoped.mapMarks_eq sc.1) (Expr.ScopedAll.mapMarks_eq sc.2)
  | .set _ property _, sc =>
    congrArg₂ (Expr.set · property) (Expr.Scoped.mapMarks_eq sc.1) (Expr.Scoped.mapMarks_eq sc.2)
  | .this line _, sc => congrArg (Expr.this line) sc.1.symm
  | .super line _ method, sc => congrArg (Expr.super line · method) sc.1.symm

theorem Expr.ScopedAll.mapMarks_eq {c : Context} :
    ∀ {es : List (Expr Place)}, Expr.ScopedAll c es →
      Expr.mapMarksAll (fun name _ => c.scopes.place name) es = es
  | [], _ => rfl
  | _ :: _, sc =>
    congrArg₂ List.cons (Expr.Scoped.mapMarks_eq sc.1) (Expr.ScopedAll.mapMarks_eq sc.2)

end

theorem Expr.Scoped.placed_self {c : Context} {e : Expr Place} (sc : e.Scoped c) :
    e.placed c.scopes = e :=
  (e.placed_eq c.scopes).trans sc.mapMarks_eq

theorem Expr.Scoped?.placed_self {c : Context} {e? : Option (Expr Place)} (sc : Expr.Scoped? c e?) :
    e?.map (·.placed c.scopes) = e? := by
  cases e? with
  | none => rfl
  | some e => exact congrArg some (Expr.Scoped.placed_self sc)

mutual

/-- Well-scoped code has the places that resolution gives it. -/
theorem Stmt.Scoped.placed_self : ∀ {c : Context} {s : Stmt Place}, s.Scoped c →
    s.placed c.scopes = s
  | _, .expression _, sc => congrArg Stmt.expression (Expr.Scoped.placed_self sc)
  | _, .print _, sc => congrArg Stmt.print (Expr.Scoped.placed_self sc)
  | c, .declare name e?, sc => by
    have inner := Expr.Scoped?.placed_self sc.2
    rw [Stmt.placed_declare]
    exact congrArg (Stmt.declare name) inner
  | c, .block body, sc => by
    have inner := Stmt.ScopedAll.placed_self sc
    rw [Stmt.placed_block]
    exact congrArg Stmt.block inner
  | _, .conditional _ _ none, sc => by
    rw [Stmt.placed_ifThen, Expr.Scoped.placed_self sc.1, Stmt.Scoped.placed_self sc.2.2]
  | c, .conditional _ _ (some _), sc => by
    rw [Stmt.placed_ifElse, Expr.Scoped.placed_self sc.1, Stmt.Scoped.placed_self sc.2.1.2,
      sc.2.1.2.scopesAfter sc.2.1.1, Stmt.Scoped.placed_self sc.2.2.2]
  | _, .loop _ _, sc => by
    rw [Stmt.placed_loop, Expr.Scoped.placed_self sc.1, Stmt.Scoped.placed_self sc.2.2]
  | c, .function ⟨name, params, body⟩, sc => by
    have inner := Stmt.ScopedAll.placed_self sc.2.2
    rw [Stmt.placed_function]
    exact congrArg (fun body => Stmt.function ⟨name, params, body⟩) inner
  | _, .ret line _, sc => by
    rw [Stmt.placed_ret]
    exact congrArg (Stmt.ret line) (Expr.Scoped?.placed_self sc.2.2)
  | c, .classDecl name superclass methods, sc => by
    have inner := FunctionDecl.ScopedAll.placed_self sc.2.2
    have above : superclass.map (·.placed (c.scopes.define name.text)) = superclass := by
      cases superclass with
      | none => rfl
      | some r => exact congrArg some (sc.2.1 r rfl).mapMark_eq
    rw [Stmt.placed_classDecl, above]
    exact congrArg (Stmt.classDecl name superclass) inner

theorem Stmt.ScopedAll.placed_self : ∀ {c : Context} {ss : List (Stmt Place)},
    Stmt.ScopedAll c ss → Stmt.placedAll c.scopes ss = ss
  | _, [], _ => rfl
  | c, s :: ss, sc => by
    have inner := Stmt.ScopedAll.placed_self sc.2
    rw [Stmt.placedAll_cons, Stmt.Scoped.placed_self sc.1]
    exact congrArg (List.cons s) inner

theorem FunctionDecl.ScopedAll.placed_self : ∀ {c : Context} {ds : List (FunctionDecl Place)},
    FunctionDecl.ScopedAll c ds → FunctionDecl.placedAll c.scopes ds = ds
  | _, [], _ => rfl
  | c, ⟨name, params, body⟩ :: ds, sc => by
    have inner := Stmt.ScopedAll.placed_self sc.1.2
    have rest := FunctionDecl.ScopedAll.placed_self sc.2
    rw [FunctionDecl.placedAll_cons, rest]
    exact congrArg (fun body => (⟨name, params, body⟩ : FunctionDecl Place) :: ds) inner

end

end Lox
