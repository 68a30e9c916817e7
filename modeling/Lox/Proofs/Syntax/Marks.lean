import Lox.Scope.Places

/-!
# Marks that are changed

What becomes of the marks of a tree when each of them is changed, and when the places of the
references are added to them. Two changes that agree on the marks of a tree are the same for it, and
one that keeps them leaves the tree as it is.
-/

namespace Lox

variable {ρ σ : Type}

/-! ## Marks of lists -/

theorem Expr.marksAll_append (es es' : List (Expr ρ)) :
    Expr.marksAll (es ++ es') = Expr.marksAll es ++ Expr.marksAll es' := by
  induction es with
  | nil => rfl
  | cons e es ih => rw [List.cons_append, marksAll, marksAll, ih, List.append_assoc]

theorem Stmt.marksAll_append (ss ss' : List (Stmt ρ)) :
    Stmt.marksAll (ss ++ ss') = Stmt.marksAll ss ++ Stmt.marksAll ss' := by
  induction ss with
  | nil => rfl
  | cons s ss ih => rw [List.cons_append, marksAll, marksAll, ih, List.append_assoc]

theorem FunctionDecl.marksAll_append (ds ds' : List (FunctionDecl ρ)) :
    FunctionDecl.marksAll (ds ++ ds') = FunctionDecl.marksAll ds ++ FunctionDecl.marksAll ds' := by
  induction ds with
  | nil => rfl
  | cons d ds ih => rw [List.cons_append, marksAll, marksAll, ih, List.append_assoc]

/-! ## Trees in lists -/

theorem Expr.mapMarksAll_eq_map (f : String → ρ → σ) (es : List (Expr ρ)) :
    Expr.mapMarksAll f es = es.map (·.mapMarks f) := by
  induction es with
  | nil => rfl
  | cons e es ih => rw [Expr.mapMarksAll, ih, List.map_cons]

theorem Stmt.mapMarksAll_eq_map (f : String → ρ → σ) (ss : List (Stmt ρ)) :
    Stmt.mapMarksAll f ss = ss.map (·.mapMarks f) := by
  induction ss with
  | nil => rfl
  | cons s ss ih => rw [Stmt.mapMarksAll, ih, List.map_cons]

theorem FunctionDecl.mapMarksAll_eq_map (f : String → ρ → σ) (ds : List (FunctionDecl ρ)) :
    FunctionDecl.mapMarksAll f ds = ds.map (·.mapMarks f) := by
  induction ds with
  | nil => rfl
  | cons d ds ih => rw [FunctionDecl.mapMarksAll, ih, List.map_cons]

/-! ## Marks that are kept -/

mutual

theorem Expr.mapMarks_id : ∀ e : Expr ρ, e.mapMarks (fun _ mark => mark) = e
  | .literal _ | .variable _ | .this _ _ | .super _ _ _ => rfl
  | .grouping e | .unary _ _ e | .get e _ => by simp only [mapMarks, e.mapMarks_id]
  | .binary _ _ l r | .logical _ l r | .set l _ r => by
    simp only [mapMarks, l.mapMarks_id, r.mapMarks_id]
  | .assign _ value => by simp only [mapMarks, Reference.mapMark, value.mapMarks_id]
  | .call callee _ arguments => by
    simp only [mapMarks, callee.mapMarks_id, Expr.mapMarksAll_id arguments]

theorem Expr.mapMarksAll_id : ∀ es : List (Expr ρ), Expr.mapMarksAll (fun _ mark => mark) es = es
  | [] => rfl
  | e :: es => by simp only [mapMarksAll, e.mapMarks_id, Expr.mapMarksAll_id es]

end

theorem Expr.mapMarks?_id (e? : Option (Expr ρ)) :
    e?.map (·.mapMarks fun _ mark => mark) = e? := by
  cases e? with
  | none => rfl
  | some e => exact congrArg some e.mapMarks_id

mutual

/-- A tree whose marks are kept is the same tree. -/
theorem Stmt.mapMarks_id : ∀ s : Stmt ρ, s.mapMarks (fun _ mark => mark) = s
  | .expression value | .print value => congrArg _ value.mapMarks_id
  | .declare _ initializer => congrArg _ (Expr.mapMarks?_id initializer)
  | .block body => congrArg _ (Stmt.mapMarksAll_id body)
  | .conditional condition thenBranch none | .loop condition thenBranch => by
    simp only [Stmt.mapMarks, condition.mapMarks_id, thenBranch.mapMarks_id]
  | .conditional condition thenBranch (some elseBranch) => by
    simp only [Stmt.mapMarks, condition.mapMarks_id, thenBranch.mapMarks_id,
      elseBranch.mapMarks_id]
  | .function d => congrArg _ d.mapMarks_id
  | .ret _ value => congrArg _ (Expr.mapMarks?_id value)
  | .classDecl _ none methods => congrArg _ (FunctionDecl.mapMarksAll_id methods)
  | .classDecl _ (some _) methods => congrArg _ (FunctionDecl.mapMarksAll_id methods)

theorem FunctionDecl.mapMarks_id : ∀ d : FunctionDecl ρ, d.mapMarks (fun _ mark => mark) = d
  | ⟨_, _, body⟩ => congrArg _ (Stmt.mapMarksAll_id body)

theorem Stmt.mapMarksAll_id : ∀ ss : List (Stmt ρ), Stmt.mapMarksAll (fun _ mark => mark) ss = ss
  | [] => rfl
  | s :: ss => by simp only [Stmt.mapMarksAll, s.mapMarks_id, Stmt.mapMarksAll_id ss]

theorem FunctionDecl.mapMarksAll_id :
    ∀ ds : List (FunctionDecl ρ), FunctionDecl.mapMarksAll (fun _ mark => mark) ds = ds
  | [] => rfl
  | d :: ds => by
    simp only [FunctionDecl.mapMarksAll, d.mapMarks_id, FunctionDecl.mapMarksAll_id ds]

end

/-! ## Places that are added -/

mutual

theorem Expr.marks_locate (scopes : Scopes) :
    ∀ e : Expr ρ, (e.locate scopes).marks.map Prod.fst = e.marks
  | .literal _ => rfl
  | .grouping inner => inner.marks_locate scopes
  | .unary _ _ operand => operand.marks_locate scopes
  | .binary _ _ left right | .logical _ left right | .set left _ right => by
    have front := left.marks_locate scopes
    have back := right.marks_locate scopes
    simp only [locate] at front back
    simp only [locate, mapMarks, marks, List.map_append, front, back]
  | .variable target => rfl
  | .assign target value => congrArg (target.mark :: ·) (value.marks_locate scopes)
  | .call callee _ arguments => by
    have front := callee.marks_locate scopes
    simp only [locate] at front
    simp only [locate, mapMarks, marks, List.map_append, front, Expr.marksAll_locate scopes arguments]
  | .get object _ => object.marks_locate scopes
  | .this _ mark => rfl
  | .super _ mark _ => rfl

theorem Expr.marksAll_locate (scopes : Scopes) : ∀ es : List (Expr ρ),
    (Expr.marksAll (Expr.mapMarksAll (fun name mark => (mark, scopes.place name)) es)).map Prod.fst =
      Expr.marksAll es
  | [] => rfl
  | e :: es => by
    have front := e.marks_locate scopes
    simp only [locate] at front
    simp only [mapMarksAll, marksAll, List.map_append, front, Expr.marksAll_locate scopes es]

end

theorem Expr.marks?_locate (scopes : Scopes) (e? : Option (Expr ρ)) :
    (Expr.marks? (e?.map (·.locate scopes))).map Prod.fst = Expr.marks? e? := by
  cases e? with
  | none => rfl
  | some e => exact e.marks_locate scopes

mutual

/-- The marks of a statement are still there when the places are added. -/
theorem Stmt.marks_locate : ∀ (scopes : Scopes) (s : Stmt ρ),
    (s.locate scopes).marks.map Prod.fst = s.marks
  | scopes, .expression value => value.marks_locate scopes
  | scopes, .print value => value.marks_locate scopes
  | scopes, .declare name initializer => Expr.marks?_locate (scopes.declare name.text) initializer
  | scopes, .block body => Stmt.marksAll_locateAll scopes.enter body
  | scopes, .conditional condition thenBranch none => by
    simp only [Stmt.locate, Stmt.marks, List.map_append, condition.marks_locate,
      thenBranch.marks_locate scopes]
  | scopes, .conditional condition thenBranch (some elseBranch) => by
    simp only [Stmt.locate, Stmt.marks, List.map_append, condition.marks_locate,
      thenBranch.marks_locate scopes,
      elseBranch.marks_locate (thenBranch.scopesAfter scopes)]
  | scopes, .loop condition body => by
    simp only [Stmt.locate, Stmt.marks, List.map_append, condition.marks_locate,
      body.marks_locate scopes]
  | scopes, .function ⟨name, params, body⟩ =>
    Stmt.marksAll_locateAll ((scopes.define name.text).enterFunction params) body
  | scopes, .ret _ value => Expr.marks?_locate scopes value
  | scopes, .classDecl name none methods =>
    FunctionDecl.marksAll_locateAll ((scopes.define name.text).enterClass _) methods
  | scopes, .classDecl name (some superclass) methods =>
    congrArg (superclass.mark :: ·)
      (FunctionDecl.marksAll_locateAll ((scopes.define name.text).enterClass _) methods)

theorem Stmt.marksAll_locateAll : ∀ (scopes : Scopes) (ss : List (Stmt ρ)),
    (Stmt.marksAll (Stmt.locateAll scopes ss)).map Prod.fst = Stmt.marksAll ss
  | _, [] => rfl
  | scopes, s :: ss => by
    simp only [Stmt.locateAll, Stmt.marksAll, List.map_append, s.marks_locate scopes,
      Stmt.marksAll_locateAll (s.scopesAfter scopes) ss]

theorem FunctionDecl.marksAll_locateAll : ∀ (scopes : Scopes) (ds : List (FunctionDecl ρ)),
    (FunctionDecl.marksAll (FunctionDecl.locateAll scopes ds)).map Prod.fst = FunctionDecl.marksAll ds
  | _, [] => rfl
  | scopes, ⟨_, params, body⟩ :: ds => by
    simp only [FunctionDecl.locateAll, FunctionDecl.locate, FunctionDecl.marksAll,
      FunctionDecl.marks, List.map_append,
      Stmt.marksAll_locateAll (scopes.enterFunction params) body,
      FunctionDecl.marksAll_locateAll scopes ds]

end

/-! ## Changes that agree -/

section

variable {f g : String → ρ → σ}

mutual

theorem Expr.mapMarks_congr : ∀ e : Expr ρ, (∀ mark ∈ e.marks, ∀ name, f name mark = g name mark) →
    e.mapMarks f = e.mapMarks g
  | .literal _, _ => rfl
  | .grouping inner, same => congrArg _ (inner.mapMarks_congr same)
  | .unary _ _ operand, same => congrArg _ (operand.mapMarks_congr same)
  | .binary _ _ left right, same | .logical _ left right, same | .set left _ right, same => by
    have front := left.mapMarks_congr fun mark mem => same mark (List.mem_append_left _ mem)
    have back := right.mapMarks_congr fun mark mem => same mark (List.mem_append_right _ mem)
    simp only [mapMarks, front, back]
  | .variable target, same => by
    simp [mapMarks, Reference.mapMark, same target.mark (by simp [marks])]
  | .assign target value, same => by
    have inner := value.mapMarks_congr fun mark mem => same mark (List.mem_cons_of_mem _ mem)
    simp [mapMarks, Reference.mapMark, same target.mark (by simp [marks]), inner]
  | .call callee _ arguments, same => by
    have front := callee.mapMarks_congr fun mark mem => same mark (List.mem_append_left _ mem)
    have back := Expr.mapMarksAll_congr arguments
      fun mark mem => same mark (List.mem_append_right _ mem)
    simp only [mapMarks, front, back]
  | .get object _, same => by simp only [mapMarks, object.mapMarks_congr same]
  | .this _ mark, same => by simp [mapMarks, same mark (by simp [marks])]
  | .super _ mark _, same => by simp [mapMarks, same mark (by simp [marks])]

theorem Expr.mapMarksAll_congr : ∀ es : List (Expr ρ),
    (∀ mark ∈ Expr.marksAll es, ∀ name, f name mark = g name mark) →
      Expr.mapMarksAll f es = Expr.mapMarksAll g es
  | [], _ => rfl
  | e :: es, same => by
    have front := e.mapMarks_congr fun mark mem => same mark (List.mem_append_left _ mem)
    have back := Expr.mapMarksAll_congr es fun mark mem => same mark (List.mem_append_right _ mem)
    simp only [mapMarksAll, front, back]

end

theorem Expr.mapMarks?_congr (e? : Option (Expr ρ))
    (same : ∀ mark ∈ Expr.marks? e?, ∀ name, f name mark = g name mark) :
    e?.map (·.mapMarks f) = e?.map (·.mapMarks g) := by
  cases e? with
  | none => rfl
  | some e => exact congrArg some (e.mapMarks_congr same)

mutual

/-- Changes that agree on the marks of a statement are the same for it. -/
theorem Stmt.mapMarks_congr : ∀ s : Stmt ρ,
    (∀ mark ∈ s.marks, ∀ name, f name mark = g name mark) → s.mapMarks f = s.mapMarks g
  | .expression value, same | .print value, same => congrArg _ (value.mapMarks_congr same)
  | .declare _ initializer, same => congrArg _ (Expr.mapMarks?_congr initializer same)
  | .block body, same => congrArg _ (Stmt.mapMarksAll_congr body same)
  | .conditional condition thenBranch none, same
  | .loop condition thenBranch, same => by
    have front := condition.mapMarks_congr fun mark mem => same mark (List.mem_append_left _ mem)
    have back := thenBranch.mapMarks_congr fun mark mem => same mark (List.mem_append_right _ mem)
    simp only [Stmt.mapMarks, front, back]
  | .conditional condition thenBranch (some elseBranch), same => by
    have front := condition.mapMarks_congr fun mark mem =>
      same mark (List.mem_append_left _ (List.mem_append_left _ mem))
    have middle := thenBranch.mapMarks_congr fun mark mem =>
      same mark (List.mem_append_left _ (List.mem_append_right _ mem))
    have back := elseBranch.mapMarks_congr fun mark mem => same mark (List.mem_append_right _ mem)
    simp only [Stmt.mapMarks, front, middle, back]
  | .function ⟨_, _, body⟩, same => by
    simp only [Stmt.mapMarks, FunctionDecl.mapMarks, Stmt.mapMarksAll_congr body same]
  | .ret _ value, same => congrArg _ (Expr.mapMarks?_congr value same)
  | .classDecl _ none methods, same => congrArg _ (FunctionDecl.mapMarksAll_congr methods same)
  | .classDecl _ (some superclass) methods, same => by
    have inner := FunctionDecl.mapMarksAll_congr methods
      fun mark mem => same mark (List.mem_cons_of_mem _ mem)
    simp [Stmt.mapMarks, Reference.mapMark, same superclass.mark (by simp [Stmt.marks]), inner]

theorem Stmt.mapMarksAll_congr : ∀ ss : List (Stmt ρ),
    (∀ mark ∈ Stmt.marksAll ss, ∀ name, f name mark = g name mark) →
      Stmt.mapMarksAll f ss = Stmt.mapMarksAll g ss
  | [], _ => rfl
  | s :: ss, same => by
    have front := s.mapMarks_congr fun mark mem => same mark (List.mem_append_left _ mem)
    have back := Stmt.mapMarksAll_congr ss fun mark mem => same mark (List.mem_append_right _ mem)
    simp only [Stmt.mapMarksAll, front, back]

theorem FunctionDecl.mapMarksAll_congr : ∀ ds : List (FunctionDecl ρ),
    (∀ mark ∈ FunctionDecl.marksAll ds, ∀ name, f name mark = g name mark) →
      FunctionDecl.mapMarksAll f ds = FunctionDecl.mapMarksAll g ds
  | [], _ => rfl
  | ⟨_, _, body⟩ :: ds, same => by
    have front := Stmt.mapMarksAll_congr body fun mark mem => same mark (List.mem_append_left _ mem)
    have back := FunctionDecl.mapMarksAll_congr ds
      fun mark mem => same mark (List.mem_append_right _ mem)
    simp only [FunctionDecl.mapMarksAll, FunctionDecl.mapMarks, front, back]

end

end

end Lox
